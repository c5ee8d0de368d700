import SimplexControl.Proofs.Hdlc.Hunting

/-!
# Frames that an idle deframer takes

The line form of a frame gives exactly one item, the frame itself or the refusal of a frame that
is too long for the deframer, and leaves the deframer idle. Where a frame is refused the rest of
it is hunted through: its closing flag is met as a flag, unless the first zero of that flag is
the bit with which the frame has become too long.
-/

namespace SimplexControl

namespace Frame

theorem length_checkedBits (f : Frame) :
    f.checkedBits.length = 8 * (Hdlc.shortestFrame + f.info.length) := by
  rw [checkedBits, length_contentBits, Fcs.sealed, List.length_append, Fcs.length_octets,
    length_octets, Hdlc.shortestFrame]
  omega

theorem verdict_checkedBits (f : Frame) : Hdlc.verdict f.checkedBits = some (.ok f.octets) := by
  apply Hdlc.verdict_sealed
  rw [length_octets]
  exact Nat.le_add_right _ _

end Frame

namespace Hdlc.Deframer

open Candidate

variable {maxInfo : Nat}

/-- The item that a frame gives. -/
def received (maxInfo : Nat) (f : Frame) : Item :=
  if f.info.length ≤ maxInfo then .ok f.octets else tooLong maxInfo

/-- A hunt that begins behind the first zero of a flag misses the flag. -/
theorem feed_flag_tail_hunt (sawFlag : Bool) :
    (hunt maxInfo sawFlag).feed (List.replicate 6 true ++ [false]) =
      (hunting maxInfo sawFlag 0xFE, []) := by
  rw [feed_append, feed_hunt_ones]
  rfl

theorem feed_flag_too_long {bits : List Bool} {heldZero : Bool} {ones : Nat} (few : ones < 6)
    (before : bits.length < bitLimit maxInfo)
    (long : bitLimit maxInfo ≤ (bits ++ pending heldZero ones).length) :
    (between maxInfo bits heldZero ones).feed flag =
      (hunting maxInfo true 0xFE, [tooLong maxInfo]) := by
  rw [flag_eq_cons, feed_cons, step_zero_too_long few before long, feed_flag_tail_hunt]
  rfl

/-- Stuffed content that is too long is refused once. -/
theorem feed_stuffFrom_flag_of_long (more : List Bool) : ∀ bits heldZero ones, ones < stuffAfter →
    bits.length < bitLimit maxInfo →
    bitLimit maxInfo ≤ (bits ++ pending heldZero ones ++ more).length →
    Idle maxInfo 0 ((between maxInfo bits heldZero ones).feed (stuffFrom ones more ++ flag)).1 ∧
      ((between maxInfo bits heldZero ones).feed (stuffFrom ones more ++ flag)).2 =
        [tooLong maxInfo] := by
  induction more with
  | nil =>
    intro bits heldZero ones few before long
    rw [List.append_nil] at long
    have few' : ones < 6 := Nat.lt_succ_of_lt few
    rw [stuffFrom, List.nil_append, feed_flag_too_long few' before long]
    exact ⟨.hunting true 0xFE, rfl⟩
  | cons b more ih =>
    intro bits heldZero ones few before long
    rw [List.append_cons] at long
    obtain ⟨line, ones', few', split, collected | ⟨none, _, after⟩⟩ :=
      feed_stuffed_bit heldZero b more few before
    · rcases collected with ⟨bits', heldZero', before', content, after⟩
      rw [← content] at long
      obtain ⟨idle, refused⟩ := ih bits' heldZero' ones' few' before' long
      rw [split, List.append_assoc, feed_append, after, refused]
      exact ⟨idle, rfl⟩
    · have hunted : (hunt maxInfo true).feed (stuffFrom 0 more ++ flag) =
          (afterFlag maxInfo, []) := feed_hunting_stuff_flag (.inl rfl) more
      rw [split, none, List.append_assoc, feed_append, after, hunted]
      exact ⟨idle_afterFlag, rfl⟩

section Representable

variable (representable : shortestFrame + maxInfo < UInt64.size)
include representable

/-- Behind a flag a frame that is not too long is taken, and another one can follow. -/
theorem feed_content_of_fits {f : Frame} (fits : f.info.length ≤ maxInfo) :
    (afterFlag maxInfo).feed (stuff f.checkedBits ++ flag) =
      (afterFlag maxInfo, [.ok f.octets]) := by
  have short : f.checkedBits.length < bitLimit maxInfo := by
    rw [f.length_checkedBits, bitLimit_eq representable]
    omega
  rw [feed_stuff_flag short, f.verdict_checkedBits]
  rfl

theorem feed_content (f : Frame) :
    Idle maxInfo 0 ((afterFlag maxInfo).feed (stuff f.checkedBits ++ flag)).1 ∧
      ((afterFlag maxInfo).feed (stuff f.checkedBits ++ flag)).2 = [received maxInfo f] := by
  rw [received]
  by_cases fits : f.info.length ≤ maxInfo
  · rw [feed_content_of_fits representable fits, if_pos fits]
    exact ⟨idle_afterFlag, rfl⟩
  · have long : bitLimit maxInfo ≤ ([] ++ pending false 0 ++ f.checkedBits).length := by
      show _ ≤ f.checkedBits.length
      rw [f.length_checkedBits, bitLimit_eq representable]
      omega
    rw [if_neg fits]
    exact feed_stuffFrom_flag_of_long f.checkedBits [] false 0 stuffAfter_pos
      (bitLimit_pos maxInfo) long

/-- A frame gives exactly its item, whatever fewer than eight bits have come before it. -/
theorem Idle.feed_lineForm {d : Deframer} (h : Idle maxInfo 7 d) (f : Frame) :
    Idle maxInfo 0 (d.feed f.lineForm).1 ∧ (d.feed f.lineForm).2 = [received maxInfo f] := by
  rw [Frame.lineForm, List.append_assoc, feed_append, h.feed_flag]
  exact feed_content representable f

end Representable

end Hdlc.Deframer

end SimplexControl
