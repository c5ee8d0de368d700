import Mathlib.Control.Monad.Basic
import SimplexControl.Hdlc.Reception
import SimplexControl.Proofs.Hdlc.Reached
import SimplexControl.Proofs.Hdlc.SizeBound

/-!
# Finding a frame behind anything

A flag opens a new candidate in every state but one. Where the candidate in progress becomes too
long with the very zero that the flag begins with, that zero is lost to the hunt that begins
behind it, the flag is not met, and the frame that it opens is passed over.
-/

namespace SimplexControl.Hdlc.Deframer

open Candidate

variable {maxInfo : Nat} {d : Deframer}

/-- One zero more makes the candidate in progress too long. -/
def AtLimit (d : Deframer) : Prop :=
  (d.step false).2 = some (.error (.infoTooLarge (d.maxInfo + 1) d.maxInfo))

instance (d : Deframer) : Decidable d.AtLimit := inferInstanceAs (Decidable (_ = _))

theorem not_atLimit_hunting (sawFlag : Bool) (recent : UInt8) :
    ¬ (hunting maxInfo sawFlag recent).AtLimit := by
  rw [AtLimit, step_hunting]
  split <;> intro limit <;> cases limit

theorem not_atLimit_of_six (bits : List Bool) (heldZero : Bool) :
    ¬ (between maxInfo bits heldZero 6).AtLimit := by
  rw [AtLimit, step_zero_of_six]
  exact verdict_ne_infoTooLarge bits _ _

/-- The limit is reached when the bits that a zero would make content are as many. -/
theorem atLimit_between (representable : shortestFrame + maxInfo < UInt64.size)
    {bits : List Bool} {heldZero : Bool} {ones : Nat} (few : ones < 6)
    (short : bits.length < bitLimit maxInfo) :
    (between maxInfo bits heldZero ones).AtLimit ↔
      bitLimit maxInfo ≤ (bits ++ pending heldZero ones).length := by
  constructor
  · intro limit
    by_contra fits
    rw [AtLimit, step_zero few (Nat.not_le.mp fits)] at limit
    cases limit
  · intro long
    rw [AtLimit, step_zero_too_long few short long, tooLong_eq representable]
    rfl

theorem feed_padding {d : Deframer} (h : Idle maxInfo 0 d) {padding : Nat} (short : padding < 8) :
    (d.feed (List.replicate padding false)).2 = [] :=
  (h.feed _ (by rw [List.length_replicate]; omega)).2

section Representable

variable (representable : shortestFrame + maxInfo < UInt64.size)
include representable

/-- A flag opens a candidate, or is missed by a deframer at its limit. -/
theorem Reached.feed_flag (h : Reached maxInfo d) :
    (¬ d.AtLimit ∧ ∃ items, d.feed flag = (afterFlag maxInfo, items)) ∨
      (d.AtLimit ∧ d.feed flag = (Deframer.hunting maxInfo true 0xFE, [tooLong maxInfo])) := by
  cases h with
  | hunting sawFlag recent =>
    exact .inl ⟨not_atLimit_hunting sawFlag recent, [], feed_flag_hunting recent⟩
  | between bits heldZero ones run short =>
    by_cases six : ones = 6
    · subst six
      exact .inl ⟨not_atLimit_of_six bits heldZero, _, feed_flag_of_six⟩
    · have run' : ones < 6 := by omega
      have limit : (Deframer.between maxInfo bits heldZero ones).AtLimit ↔ _ :=
        atLimit_between representable run' short
      by_cases long : bitLimit maxInfo ≤ (bits ++ pending heldZero ones).length
      · exact .inr ⟨limit.mpr long, feed_flag_too_long run' short long⟩
      · refine .inl ⟨fun reached => long (limit.mp reached), ?_⟩
        exact ⟨_, Deframer.feed_flag run' (Nat.not_le.mp long)⟩

/-- Behind a flag a frame is the last item. -/
theorem Reached.feed_frame (h : Reached maxInfo d) (open' : ¬ d.AtLimit) {f : Frame}
    (fits : f.info.length ≤ maxInfo) {padding : Nat} (short : padding < 8) :
    ∃ items, (d.feed (f.lineForm ++ List.replicate padding false)).2 =
      items ++ [.ok f.octets] := by
  rcases h.feed_flag representable with ⟨_, items, opened⟩ | ⟨limit, _⟩
  · refine ⟨items, ?_⟩
    rw [Frame.lineForm_append, feed_append, opened, feed_append,
      feed_content_of_fits representable fits, feed_padding idle_afterFlag short]
    rfl
  · exact absurd limit open'

/-- A frame whose opening flag is missed gives no item. -/
theorem Reached.feed_frame_of_atLimit (h : Reached maxInfo d) (limit : d.AtLimit) (f : Frame)
    {padding : Nat} (short : padding < 8) :
    (d.feed (f.lineForm ++ List.replicate padding false)).2 = [tooLong maxInfo] := by
  rcases h.feed_flag representable with ⟨open', _⟩ | ⟨_, missed⟩
  · exact absurd limit open'
  · have quiet : Quiet 0xFE 0 := .inr ⟨List.replicate 7 true, by decide⟩
    rw [Frame.lineForm_append, feed_append, missed, feed_append, feed_hunting_stuff_flag quiet,
      feed_padding idle_afterFlag short]
    rfl

end Representable

/-- Whatever a deframer has taken before, a frame that is not too long is the last item that it
gives unless it was at its limit. -/
theorem read_toHdlc_after (representable : shortestFrame + maxInfo < UInt64.size) (noise : Octets)
    {f : Frame} (fits : f.info.length ≤ maxInfo) (sized : f.hdlcSize ≠ 0) :
    let d := ((new maxInfo).read noise).1
    ∃ octets, f.toHdlc = .ok octets ∧
      ((d.read octets).2.getLast? = some (.ok { f with maxInfo := maxInfo }) ↔ ¬ d.AtLimit) ∧
      (d.AtLimit → (d.read octets).2 = [.error (.infoTooLarge (maxInfo + 1) maxInfo)]) := by
  intro d
  have reached : Reached maxInfo d := reached_new.feed (lineBits noise)
  obtain ⟨octets, padding, encoded, short, line⟩ := Frame.toHdlc_of_sized sized
  refine ⟨octets, encoded, ?_⟩
  rw [read_eq, line, reached.maxInfo_eq]
  by_cases limit : d.AtLimit
  · rw [reached.feed_frame_of_atLimit representable limit f short, List.map_singleton,
      tooLong_eq representable]
    refine ⟨⟨?_, fun open' => absurd limit open'⟩, fun _ => rfl⟩
    intro last
    cases last
  · obtain ⟨items, delivered⟩ := reached.feed_frame representable limit fits short
    have loaded : toFrame maxInfo (.ok f.octets) = .ok { f with maxInfo := maxInfo } :=
      Frame.load_octets { Frame.ofSize 0 with maxInfo := maxInfo } fits
    rw [delivered, List.map_append, List.map_singleton, loaded]
    refine ⟨⟨fun _ => limit, fun _ => ?_⟩, fun limit' => absurd limit' limit⟩
    exact List.getLast?_concat

/-- Part of a frame comes before a whole one. -/
theorem read_toHdlc_after_cut_frame :
    ∃ octets, Frame.toHdlc ⟨0, 0x61, 3, [], 0⟩ = .ok octets ∧
      (((new 1).read [0x7E, 0x00, 0x86, 0xC0]).1.read octets).2.getLast? =
        some (.ok ⟨0, 0x61, 3, [], 1⟩) := by
  obtain ⟨octets, encoded, last, _⟩ := read_toHdlc_after
    (by decide : shortestFrame + 1 < UInt64.size) [0x7E, 0x00, 0x86, 0xC0]
    (by decide : (⟨0, 0x61, 3, [], 0⟩ : Frame).info.length ≤ 1) (by decide)
  have room : ¬ ((new 1).read [0x7E, 0x00, 0x86, 0xC0]).1.AtLimit := by decide +kernel
  exact ⟨octets, encoded, last.mpr room⟩

/-- With six octets of zeros behind a flag, the zero of the next flag completes an octet too
many, and the frame behind it is lost. -/
theorem read_toHdlc_lost_at_limit :
    ¬ ∀ (maxInfo : Nat) (noise octets : Octets) (f : Frame),
      shortestFrame + maxInfo < UInt64.size → f.info.length ≤ maxInfo → f.toHdlc = .ok octets →
      (((new maxInfo).read noise).1.read octets).2.getLast? =
        some (.ok { f with maxInfo := maxInfo }) := by
  intro synchronised
  have encoded : Frame.toHdlc ⟨0, 0x61, 3, [], 0⟩ =
      .ok [0x7E, 0x00, 0x86, 0xC0, 0x5B, 0x11, 0x7E] := by decide +kernel
  have lost : (((new 0).read [0x7E, 0, 0, 0, 0, 0, 0]).1.read
      [0x7E, 0x00, 0x86, 0xC0, 0x5B, 0x11, 0x7E]).2 = [.error (.infoTooLarge 1 0)] := by
    decide +kernel
  have found := synchronised 0 [0x7E, 0, 0, 0, 0, 0, 0] _ ⟨0, 0x61, 3, [], 0⟩ (by decide)
    (by decide) encoded
  rw [lost] at found
  cases found

end SimplexControl.Hdlc.Deframer
