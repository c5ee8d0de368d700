import SimplexControl.Proofs.ClientId.Codec
import SimplexControl.Proofs.Registry

/-!
# The order of identifications

Identifications are compared by their kinds and fields. For valid ones this is the order of the
octets that are written for them, compared one after another: the marker of an extended
identification is above all standard ones and below the marker of a manufacturer's, and the code of
a manufacturer is written with its high octet first.
-/

namespace SimplexControl

namespace Octets

/-- Words in front of other octets decide as their numbers do. -/
theorem ofWord_append_lt_iff {v w : UInt16} {xs ys : Octets} :
    ofWord v ++ xs < ofWord w ++ ys ↔ v.toNat < w.toNat ∨ v.toNat = w.toNat ∧ xs < ys := by
  have number (w : UInt16) : w.toNat = 256 * (w >>> 8).toUInt8.toNat + w.toUInt8.toNat := by
    rw [← toNat_join, join_ofWord]
  have low_v := v.toUInt8.toNat_lt
  have low_w := w.toUInt8.toNat_lt
  rw [number v, number w]
  simp only [ofWord, List.cons_append, List.nil_append, List.cons_lt_cons_iff,
    UInt8.lt_iff_toNat_lt, ← UInt8.toNat_inj]
  by_cases behind : xs < ys
  · simp only [behind, and_true]
    omega
  · simp only [behind, and_false, or_false]
    omega

end Octets

namespace ClientId

variable {a b : ClientId}

/-- Without flags the first octet is that of the identification alone. -/
theorem write_zero (id : ClientId) : id.write 0 = id.raw :: id.extension := by
  rw [write, UInt8.zero_and, UInt8.zero_or]

/-- A standard identification lies below both markers. -/
theorem standard_raw_lt {n : UInt8} (valid : (standard n).isValid) :
    (standard n).raw < extendedMarker ∧ (standard n).raw < nonStandardMarker := by
  have below : n < extendedMarker := of_decide_eq_true valid
  rw [(standard_raw valid).1]
  exact ⟨below, UInt8.lt_trans below (by decide)⟩

/-- The place of a kind of identification among the kinds. -/
def kind : ClientId → Nat
  | .standard _ => 0
  | .extended _ => 1
  | .nonStandard _ => 2

/-- The kinds decide before the fields do. -/
theorem lt_iff : a < b ↔ a.kind < b.kind ∨ a.kind = b.kind ∧ a.key.tail < b.key.tail := by
  have key_eq (id : ClientId) : id.key = id.kind :: id.key.tail := by cases id <;> rfl
  show a.key < b.key ↔ _
  rw [key_eq a, key_eq b, List.cons_lt_cons_iff]
  rfl

/-- A kind that comes later opens with a greater octet. -/
theorem raw_lt_of_kind_lt (valid : a.isValid) (less : a.kind < b.kind) : a.raw < b.raw := by
  cases a with
  | standard m =>
    obtain ⟨extended, nonStandard⟩ := standard_raw_lt valid
    cases b with
    | standard n => exact absurd less (Nat.lt_irrefl 0)
    | extended n => exact extended
    | nonStandard n => exact nonStandard
  | extended m =>
    cases b with
    | standard n => exact absurd less (by decide : ¬ 1 < 0)
    | extended n => exact absurd less (Nat.lt_irrefl 1)
    | nonStandard n => exact (by decide : extendedMarker < nonStandardMarker)
  | nonStandard m =>
    cases b with
    | standard n => exact absurd less (by decide : ¬ 2 < 0)
    | extended n => exact absurd less (by decide : ¬ 2 < 1)
    | nonStandard n => exact absurd less (Nat.lt_irrefl 2)

/-- Within a kind the fields decide as the octets that are written for them. -/
theorem write_lt_of_fields_lt (valid_a : a.isValid) (valid_b : b.isValid)
    (same : a.kind = b.kind) (less : a.key.tail < b.key.tail) : a.write 0 < b.write 0 := by
  rw [write_zero, write_zero]
  cases a with
  | standard m =>
    cases b with
    | standard n =>
      have smaller : m < n := by
        simpa [key, List.cons_lt_cons_iff, ← UInt8.lt_iff_toNat_lt] using less
      rw [(standard_raw valid_a).1, (standard_raw valid_b).1]
      exact List.cons_lt_cons_iff.mpr (.inl smaller)
    | extended n => cases same
    | nonStandard n => cases same
  | extended m =>
    cases b with
    | standard n => cases same
    | extended n =>
      have smaller : m < n := by
        simpa [key, List.cons_lt_cons_iff, ← UInt8.lt_iff_toNat_lt] using less
      exact List.cons_lt_cons_iff.mpr (.inr ⟨rfl, List.cons_lt_cons_iff.mpr (.inl smaller)⟩)
    | nonStandard n => cases same
  | nonStandard m =>
    cases b with
    | standard n => cases same
    | extended n => cases same
    | nonStandard n =>
      refine List.cons_lt_cons_iff.mpr (.inr ⟨rfl, ?_⟩)
      simp only [key, List.tail_cons, List.cons_lt_cons_iff, ← UInt8.lt_iff_toNat_lt,
        UInt8.toNat_inj, List.not_lt_nil, and_false, or_false] at less
      simp only [extension, List.cons_append, List.nil_append, List.cons_lt_cons_iff,
        Octets.ofWord_append_lt_iff, List.not_lt_nil, and_false, or_false]
      exact less

/-- A smaller identification is written in octets that are smaller in order. -/
theorem write_lt_of_lt (valid_a : a.isValid) (valid_b : b.isValid) (less : a < b) :
    a.write 0 < b.write 0 := by
  rcases lt_iff.mp less with kind | ⟨same, fields⟩
  · rw [write_zero, write_zero]
    exact List.cons_lt_cons_iff.mpr (.inl (raw_lt_of_kind_lt valid_a kind))
  · exact write_lt_of_fields_lt valid_a valid_b same fields

/-- Identifications compare as the octets that are written for them do. -/
theorem compare_eq_compare_write (valid_a : a.isValid) (valid_b : b.isValid) :
    a.compare b = compareOfLessAndEq (a.write 0) (b.write 0) := by
  rw [compare, compareOfLessAndEq]
  by_cases less : a < b
  · rw [if_pos less, if_pos (write_lt_of_lt valid_a valid_b less)]
  · rw [if_neg less]
    by_cases same : a = b
    · subst same
      rw [if_neg less, if_neg (List.lt_irrefl _), if_pos rfl]
    · have greater := lt_of_ne_of_not_lt same less
      have written := write_lt_of_lt valid_b valid_a greater
      have notLess : ¬ a.write 0 < b.write 0 := List.lt_asymm written
      have notSame : a.write 0 ≠ b.write 0 := fun equal => List.lt_irrefl _ (equal ▸ written)
      rw [if_pos greater, if_neg notLess, if_neg notSame]

theorem compare_eq_eq_iff : a.compare b = .eq ↔ a = b := by
  rw [compare]
  constructor
  · intro equal
    by_contra different
    split at equal
    · cases equal
    next notLess =>
    rw [if_pos (lt_of_ne_of_not_lt different notLess)] at equal
    cases equal
  · rintro rfl
    have notLess : ¬ a < a := fun less => ne_of_lt less rfl
    rw [if_neg notLess, if_neg notLess]

/-- Without the condition the two orders differ: a standard identification may be written with the
octet of a marker. -/
example : (standard 0x7F).compare (.extended 0) = .lt ∧
    (ClientId.extended 0).write 0 < (standard 0x7F).write 0 := by decide

end ClientId

end SimplexControl
