import Mathlib.Control.Monad.Basic
import SimplexControl.Proofs.Hdlc.Hunting

/-!
# Deframing as a whole

A deframer decides bit by bit what it has before it. Here a stream is taken apart into what
stands between one flag and the next, and each part has its item, or none, by itself: what the
deframer gives for the stream is what the parts give in order.
-/

namespace SimplexControl.Hdlc

/-- What stands between a flag and the next one. -/
inductive Segment
  | empty
  | ones (count : Nat)
  | stuffed (bits : List Bool)
  | aborted (bits : List Bool) (extra : Nat)
deriving DecidableEq, Repr

namespace Segment

/-- Its bits on the line. Seven ones abandon the content before them. -/
def line : Segment → List Bool
  | empty => []
  | ones count => List.replicate count true
  | stuffed bits => stuff bits
  | aborted bits extra => stuff bits ++ List.replicate (7 + extra) true

/-- The complete octets of its content are not too many. -/
def Fits (maxInfo : Nat) : Segment → Prop
  | stuffed bits | aborted bits _ => bits.length / 8 ≤ maxInfo + shortestFrame
  | _ => True

instance (maxInfo : Nat) : DecidablePred (Fits maxInfo)
  | empty | ones _ => inferInstanceAs (Decidable True)
  | stuffed _ | aborted _ _ => inferInstanceAs (Decidable (_ ≤ _))

/-- What it comes to. -/
def item : Segment → Option Item
  | stuffed bits => verdict bits
  | _ => none

end Segment

/-- Segments on the line, with a flag before them and one behind each. -/
def flagged (segments : List Segment) : List Bool :=
  flag ++ segments.flatMap fun s => s.line ++ flag

namespace Deframer

open Candidate

variable {maxInfo : Nat}

theorem lt_bitLimit_of_div_le (representable : shortestFrame + maxInfo < UInt64.size) {n : Nat}
    (fits : n / 8 ≤ maxInfo + shortestFrame) : n < bitLimit maxInfo := by
  rw [bitLimit_eq representable]
  omega

/-- Ones between two flags are filling, however many they are. -/
theorem feed_ones_flag (n : Nat) :
    (afterFlag maxInfo).feed (List.replicate n true ++ flag) = (afterFlag maxInfo, []) := by
  rw [feed_append, afterFlag]
  by_cases few : n ≤ 6
  · have length : ([] ++ pending false n).length = n := List.length_replicate
    have idle : Idle maxInfo 7 (between maxInfo [] false n) := by
      apply Idle.between [] false n few
      omega
    rw [feed_ones n 0 (by omega), Nat.zero_add, idle.feed_flag]
    rfl
  · rw [feed_seven_ones n (Nat.zero_le 6) (by omega), feed_flag_hunt]
    rfl

/-- Seven ones or more make nothing of the content before them. -/
theorem feed_stuff_abort_flag {bits : List Bool} (fits : bits.length < bitLimit maxInfo)
    (extra : Nat) :
    (afterFlag maxInfo).feed (stuff bits ++ List.replicate (7 + extra) true ++ flag) =
      (afterFlag maxInfo, []) := by
  obtain ⟨collected, heldZero, ones, few, _, after⟩ := feed_stuff fits
  rw [feed_append, feed_append, after, feed_seven_ones _ (Nat.le_of_lt few) (by omega),
    feed_flag_hunt]
  rfl

section Representable

variable (representable : shortestFrame + maxInfo < UInt64.size)
include representable

theorem feed_segment (s : Segment) (fits : s.Fits maxInfo) :
    (afterFlag maxInfo).feed (s.line ++ flag) = (afterFlag maxInfo, s.item.toList) := by
  cases s with
  | empty => exact feed_flag_afterFlag
  | ones count => exact feed_ones_flag count
  | stuffed bits => exact feed_stuff_flag (lt_bitLimit_of_div_le representable fits)
  | aborted bits extra =>
    exact feed_stuff_abort_flag (lt_bitLimit_of_div_le representable fits) extra

/-- A single flag closes a segment and opens the next one. -/
theorem feed_segments_afterFlag (segments : List Segment)
    (fits : ∀ s ∈ segments, s.Fits maxInfo) :
    (afterFlag maxInfo).feed (segments.flatMap fun s => s.line ++ flag) =
      (afterFlag maxInfo, segments.filterMap Segment.item) := by
  induction segments with
  | nil => rfl
  | cons s segments ih =>
    have first := feed_segment representable s (fits s List.mem_cons_self)
    have later := ih fun t member => fits t (List.mem_cons_of_mem s member)
    rw [List.flatMap_cons, feed_append, first, later, List.filterMap_cons]
    cases s.item <;> rfl

end Representable

end Deframer

end SimplexControl.Hdlc
