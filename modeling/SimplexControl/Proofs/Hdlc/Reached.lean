import SimplexControl.Proofs.Hdlc.Hunting

/-!
# The states that a deframer comes to

Whatever bits a new deframer takes, it hunts or has a candidate that is not too long and that
does not end in more than six ones. One bit leads from such a state to another one.
-/

namespace SimplexControl.Hdlc.Deframer

open Candidate

/-- A state that a deframer can be in between two bits. -/
inductive Reached (maxInfo : Nat) : Deframer → Prop
  | hunting (sawFlag : Bool) (recent : UInt8) : Reached maxInfo (hunting maxInfo sawFlag recent)
  | between (bits : List Bool) (heldZero : Bool) (ones : Nat) (run : ones ≤ 6)
      (short : bits.length < bitLimit maxInfo) : Reached maxInfo (between maxInfo bits heldZero ones)

variable {maxInfo : Nat} {d : Deframer}

theorem reached_new : Reached maxInfo (new maxInfo) := .hunting false 0xFF

theorem reached_afterFlag : Reached maxInfo (afterFlag maxInfo) :=
  .between [] false 0 (Nat.zero_le 6) (bitLimit_pos maxInfo)

theorem Reached.maxInfo_eq (h : Reached maxInfo d) : d.maxInfo = maxInfo := by
  cases h <;> rfl

theorem Reached.step (h : Reached maxInfo d) (b : Bool) : Reached maxInfo (d.step b).1 := by
  cases h with
  | hunting sawFlag recent =>
    rw [step_hunting]
    split
    · exact reached_afterFlag
    · exact .hunting sawFlag _
  | between bits heldZero ones run short =>
    by_cases six : ones = 6
    · subst six
      cases b with
      | true => exact .hunting true 0xFF
      | false =>
        rw [step_zero_of_six]
        exact reached_afterFlag
    · have run' : ones < 6 := by omega
      cases b with
      | true =>
        rw [step_one run']
        exact .between bits heldZero (ones + 1) run' short
      | false =>
        by_cases fits : (bits ++ pending heldZero ones).length < bitLimit maxInfo
        · rw [step_zero run' fits]
          exact .between _ _ 0 (Nat.zero_le 6) fits
        · rw [step_zero_too_long run' short (Nat.not_lt.mp fits)]
          exact .hunting true 0xFF

theorem Reached.feed (bits : List Bool) :
    ∀ {d : Deframer}, Reached maxInfo d → Reached maxInfo (d.feed bits).1 := by
  induction bits with
  | nil => intro d h; exact h
  | cons b bits ih =>
    intro d h
    rw [feed_cons]
    exact ih (h.step b)

end SimplexControl.Hdlc.Deframer
