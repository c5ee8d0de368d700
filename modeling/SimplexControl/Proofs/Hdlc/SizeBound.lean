import SimplexControl.Proofs.Bits
import SimplexControl.Proofs.Hdlc.Receiving
import SimplexControl.Proofs.Hdlc.Writing

/-!
# The size bound is sufficient

Stuffing adds at most one bit to each five, so the bound on the size of a frame, where it can be
represented, covers its line form behind the bits kept at any place.
-/

namespace SimplexControl

namespace Hdlc

theorem length_stuffFrom_le (bits : List Bool) : ∀ ones, ones < stuffAfter →
    5 * (stuffFrom ones bits).length ≤ 6 * bits.length + ones := by
  induction bits with
  | nil => intro ones _; exact Nat.zero_le _
  | cons b bits ih =>
    intro ones few
    have restarted := ih 0 stuffAfter_pos
    cases b with
    | false =>
      rw [stuffFrom, List.length_cons, List.length_cons]
      omega
    | true =>
      rw [stuffFrom]
      by_cases full : ones + 1 = stuffAfter
      · rw [if_pos full, List.length_cons, List.length_cons, List.length_cons]
        rw [stuffAfter] at full
        omega
      · have later := ih (ones + 1) (by omega)
        rw [if_neg full, List.length_cons, List.length_cons]
        omega

theorem representable_eq_some_iff {n m : Nat} :
    representable n = some m ↔ n < UInt64.size ∧ m = n := by
  rw [representable]
  split
  · next fits => simp [fits, eq_comm]
  · next wraps => simp [wraps]

/-- The last and largest of the sums behind the size bound of `n` octets. -/
def boundBits (n : Nat) : Nat := (n + 2) * 8 + (n + 2) * 8 / stuffAfter + 23

/-- All sums behind a bound can be represented if the last one can. -/
theorem sizeBound_eq_some_iff {n size : Nat} :
    sizeBound n = some size ↔ boundBits n < UInt64.size ∧ size = (boundBits n + 7) / 8 := by
  simp only [sizeBound, Option.bind_eq_bind, Option.bind_eq_some_iff, representable_eq_some_iff,
    Option.pure_def, Option.some.injEq]
  constructor
  · rintro ⟨_, ⟨_, rfl⟩, _, ⟨_, rfl⟩, _, ⟨_, rfl⟩, _, ⟨fits, rfl⟩, rfl⟩
    exact ⟨fits, rfl⟩
  · rintro ⟨fits, rfl⟩
    have below {sum : Nat} (less : sum ≤ boundBits n) : sum < UInt64.size :=
      Nat.lt_of_le_of_lt less fits
    refine ⟨_, ⟨below ?_, rfl⟩, _, ⟨below ?_, rfl⟩, _, ⟨below ?_, rfl⟩, _, ⟨fits, rfl⟩, rfl⟩
    · rw [boundBits, stuffAfter]
      omega
    · rw [boundBits, Nat.add_assoc]
      exact Nat.le_add_right _ _
    · exact Nat.le_add_right _ _

end Hdlc

namespace Frame

open Hdlc

theorem hdlcSize_eq (f : Frame) : f.hdlcSize =
    if boundBits f.octets.length < UInt64.size then (boundBits f.octets.length + 7) / 8 else 0 := by
  rw [hdlcSize]
  split
  · next fits => rw [sizeBound_eq_some_iff.mpr ⟨fits, rfl⟩, Option.getD_some]
  · next wraps =>
    cases bound : sizeBound f.octets.length with
    | none => rfl
    | some size => exact absurd (sizeBound_eq_some_iff.mp bound).1 wraps

theorem hdlcSize_ne_zero_iff {f : Frame} :
    f.hdlcSize ≠ 0 ↔ boundBits f.octets.length < UInt64.size := by
  rw [hdlcSize_eq, boundBits, stuffAfter]
  split
  · next fits => exact iff_of_true (by omega) fits
  · next wraps => exact iff_of_false (by simp) wraps

/-- A frame whose size bound can be represented has room in this size wherever it starts. -/
theorem lineForm_fits_hdlcSize {f : Frame} (sized : f.hdlcSize ≠ 0) :
    7 + f.lineForm.length ≤ 8 * f.hdlcSize := by
  have stuffed := length_stuffFrom_le f.checkedBits 0 stuffAfter_pos
  have content := f.length_checkedBits
  rw [shortestFrame, headerSize] at content
  rw [hdlcSize_eq, if_pos (hdlcSize_ne_zero_iff.mp sized), boundBits, stuffAfter, length_lineForm,
    stuff, length_octets, headerSize]
  omega

theorem encodeHdlcFrom_of_hdlcSize_le {f : Frame} (sized : f.hdlcSize ≠ 0) {buffer : Octets}
    (room : f.hdlcSize ≤ buffer.length) (position : BitPosition) :
    ∃ used : Octets, used.length = (f.span position).size ∧
      f.encodeHdlcFrom buffer position =
        ⟨.ok (f.span position), used ++ buffer.drop used.length⟩ ∧
      ∃ padding < 8, lineBits used =
        (lineBits buffer).take (7 - position.val) ++ f.lineForm ++
          List.replicate padding false := by
  have enough := lineForm_fits_hdlcSize sized
  apply encodeHdlcFrom_of_fits
  omega

/-- In octets of its own a frame shows its line form between zeros, those before its place and
those that fill up the last octet. -/
theorem toHdlcFrom_of_sized {f : Frame} (sized : f.hdlcSize ≠ 0) (position : BitPosition) :
    ∃ octets, f.toHdlcFrom position = .ok (octets, (f.span position).position) ∧
      lineBits octets = List.replicate (7 - position.val) false ++ f.lineForm ++
        List.replicate (f.span position).position.unfilled false := by
  obtain ⟨used, size, whole, padding, short, line⟩ :=
    encodeHdlcFrom_of_hdlcSize_le sized (Nat.le_of_eq List.length_replicate.symm) position
  refine ⟨used, ?_, ?_⟩
  · rw [toHdlcFrom, whole]
    show Except.ok ((used ++ _).take (f.span position).size, _) = _
    rw [← size, List.take_left]
  · have before : (lineBits (List.replicate f.hdlcSize 0)).take (7 - position.val) =
        List.replicate (7 - position.val) false := by
      rw [lineBits_replicate_zero, List.take_replicate, Nat.min_eq_left (by omega)]
    rw [before] at line
    have count := congrArg List.length line
    simp only [length_lineBits, List.length_append, List.length_replicate] at count
    have filled : padding = (f.span position).position.unfilled := by
      simp only [span, BitPosition.unfilled]
      omega
    rw [line, filled]

/-- A frame in octets of its own shows its line form, filled up with zeros. -/
theorem toHdlc_of_sized {f : Frame} (sized : f.hdlcSize ≠ 0) :
    ∃ octets padding, f.toHdlc = .ok octets ∧ padding < 8 ∧
      lineBits octets = f.lineForm ++ List.replicate padding false := by
  obtain ⟨octets, encoded, line⟩ := toHdlcFrom_of_sized sized octetAligned
  refine ⟨octets, _, ?_, Nat.mod_lt _ (by decide), line⟩
  rw [toHdlc, encoded]
  rfl

end Frame

end SimplexControl
