import Mathlib.Control.Monad.Basic
import SimplexControl.Hdlc.Reception
import SimplexControl.Proofs.Hdlc.Receiving
import SimplexControl.Proofs.Hdlc.Writing

/-!
# Decoding what has been encoded

The octets of an encoding decode to the frame. It makes no difference where in the first octet
the frame begins and what stands there before it, whether the line has been idle before, with
flags or with ones, and what follows.
-/

namespace SimplexControl

namespace Hdlc.Deframer

variable {maxInfo : Nat}

/-- A deframer with nothing before it but a flag, or nothing at all. -/
inductive Resting (maxInfo : Nat) : Deframer → Prop
  | hunt (sawFlag : Bool) : Resting maxInfo (hunt maxInfo sawFlag)
  | afterFlag : Resting maxInfo (afterFlag maxInfo)

theorem Resting.idle {d : Deframer} (h : Resting maxInfo d) : Idle maxInfo 0 d := by
  cases h with
  | hunt sawFlag => exact idle_hunt
  | afterFlag => exact idle_afterFlag

theorem Resting.feed_flag {d : Deframer} (h : Resting maxInfo d) :
    d.feed flag = (Deframer.afterFlag maxInfo, []) := by
  cases h with
  | hunt sawFlag => exact feed_flag_hunt
  | afterFlag => exact feed_flag_afterFlag

theorem Resting.feed_ones {d : Deframer} (h : Resting maxInfo d) :
    ∃ sawFlag, d.feed (List.replicate 8 true) = (Deframer.hunt maxInfo sawFlag, []) := by
  cases h with
  | hunt sawFlag => exact ⟨sawFlag, feed_hunt_ones 8⟩
  | afterFlag => exact ⟨true, feed_seven_ones 8 (by decide) (by decide)⟩

/-- Octets of idle line are taken without an item. -/
theorem Resting.feed_idle (fill : Octets) : ∀ {d : Deframer}, Resting maxInfo d →
    (∀ o ∈ fill, o = 0x7E ∨ o = 0xFF) →
    Resting maxInfo (d.feed (lineBits fill)).1 ∧ (d.feed (lineBits fill)).2 = [] := by
  induction fill with
  | nil => intro d h _; exact ⟨h, rfl⟩
  | cons o fill ih =>
    intro d h idle
    obtain ⟨first, rest⟩ := List.forall_mem_cons.mp idle
    rw [lineBits_cons, feed_append]
    rcases first with rfl | rfl
    · rw [show msbFirst 0x7E = flag from flag_eq_msbFirst.symm, h.feed_flag]
      exact ih .afterFlag rest
    · obtain ⟨sawFlag, hunted⟩ := h.feed_ones
      rw [show msbFirst 0xFF = List.replicate 8 true by decide, hunted]
      exact ih (.hunt sawFlag) rest

/-- A frame is the first thing that is found behind an idle line and the bits kept before it. -/
theorem head_feed_frame (representable : shortestFrame + maxInfo < UInt64.size) {fill : Octets}
    (idle : ∀ o ∈ fill, o = 0x7E ∨ o = 0xFF) {kept : List Bool} (few : kept.length < 8) (f : Frame)
    (more : List Bool) :
    ((new maxInfo).feed (lineBits fill ++ (kept ++ (f.lineForm ++ more)))).2.head? =
      some (received maxInfo f) := by
  have start : Resting maxInfo (new maxInfo) := .hunt false
  obtain ⟨resting, silent⟩ := start.feed_idle fill idle
  obtain ⟨before, silent'⟩ := resting.idle.feed kept (by omega)
  obtain ⟨_, item⟩ := (before.mono (by omega)).feed_lineForm representable f
  rw [feed_append, silent, feed_append, silent', feed_append, item]
  rfl

end Hdlc.Deframer

namespace Frame

open Hdlc

/-- Reading stops at the first item. -/
theorem decodeHdlc_of_head {g : Frame} {data : Octets} {item : Item}
    (first : ((Deframer.new g.maxInfo).feed (lineBits data)).2.head? = some item) :
    g.decodeHdlc data = item.bind g.load := by
  rw [← Deframer.feedUntilItem_snd] at first
  unfold decodeHdlc
  split
  · next found =>
    rw [found] at first
    cases first
    rfl
  · next found =>
    rw [found] at first
    cases first

end Frame

end SimplexControl
