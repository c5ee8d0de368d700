import SimplexControl.Proofs.Bits
import SimplexControl.Proofs.Hdlc.Packing

/-!
# Octets in a common place

What ends inside an octet leaves zeros behind it, and what begins inside an octet has zeros before
it. Where the two have room in one octet they can share it, and no bit of either is lost.
-/

namespace SimplexControl.Hdlc

/-- Octets behind others, the first of these in the place of the last of those. -/
def overlap (xs ys : Octets) : Octets :=
  match xs.getLast?, ys with
  | some x, y :: ys => xs.dropLast ++ (x ||| y) :: ys
  | _, _ => xs ++ ys

/-- Octets laid out one after another, each with the place at which the bits behind it go. If this
is inside an octet, the last octet is shared with what comes next. -/
def layOut : List (Octets × BitPosition) → Octets
  | [] => []
  | (octets, stop) :: rest =>
    if stop = octetAligned then octets ++ layOut rest else overlap octets (layOut rest)

theorem overlap_nil (xs : Octets) : overlap xs [] = xs := by
  unfold overlap
  cases xs.getLast? <;> simp

theorem layOut_singleton (octets : Octets) (stop : BitPosition) :
    layOut [(octets, stop)] = octets := by
  simp [layOut, overlap_nil]

/-- In the shared octet the zeros of either side give way to the bits of the other. -/
theorem lineBits_overlap {xs ys : Octets} {before after : List Bool} {zeros : Nat}
    (some : 0 < zeros) (few : zeros < 8)
    (first : lineBits xs = before ++ List.replicate zeros false)
    (second : lineBits ys = List.replicate (8 - zeros) false ++ after) :
    lineBits (overlap xs ys) = before ++ after := by
  have count := congrArg List.length first
  have count' := congrArg List.length second
  simp only [length_lineBits, List.length_append, List.length_replicate] at count count'
  have nonempty : xs ≠ [] := List.ne_nil_of_length_pos (by omega)
  have nonempty' : ys ≠ [] := List.ne_nil_of_length_pos (by omega)
  obtain ⟨init, x, rfl⟩ : ∃ init x, xs = init ++ [x] :=
    ⟨_, _, (List.dropLast_concat_getLast nonempty).symm⟩
  obtain ⟨y, tail, rfl⟩ := List.exists_cons_of_ne_nil nonempty'
  have shared : overlap (init ++ [x]) (y :: tail) = init ++ (x ||| y) :: tail := by simp [overlap]
  rw [List.length_append, List.length_singleton] at count
  rw [List.length_cons] at count'
  rw [lineBits_append, lineBits_singleton] at first
  rw [lineBits_cons] at second
  obtain ⟨upper, rfl, high⟩ : ∃ upper, before = lineBits init ++ upper ∧
      msbFirst x = upper ++ List.replicate zeros false := by
    rcases List.append_eq_append_iff.mp first with split | ⟨excess, start, stop⟩
    · exact split
    · have long := congrArg List.length stop
      simp only [List.length_append, List.length_replicate, length_msbFirst] at long
      omega
  obtain ⟨lower, low, rfl⟩ : ∃ lower, msbFirst y = List.replicate (8 - zeros) false ++ lower ∧
      after = lower ++ lineBits tail := by
    rcases List.append_eq_append_iff.mp second with ⟨excess, start, stop⟩ | split
    · have long := congrArg List.length start
      simp only [List.length_append, List.length_replicate, length_msbFirst] at long
      omega
    · exact split
  have both : msbFirst (x ||| y) = upper ++ lower := by
    have wide := congrArg List.length high
    have wide' := congrArg List.length low
    simp only [List.length_append, List.length_replicate, length_msbFirst] at wide wide'
    have upper_length : upper.length = 8 - zeros := by omega
    have lower_length : lower.length = zeros := by omega
    rw [msbFirst_or, high, low, ← upper_length, ← lower_length, zipWith_or_replicate_false]
  rw [shared, lineBits_append, lineBits_cons, both]
  simp only [List.append_assoc]

/-- What is laid out behind octets goes on at the place where they stop. -/
theorem lineBits_layOut_cons {octets : Octets} {stop : BitPosition}
    {rest : List (Octets × BitPosition)} {before after : List Bool}
    (first : lineBits octets = before ++ List.replicate stop.unfilled false)
    (second : lineBits (layOut rest) = List.replicate (7 - stop.val) false ++ after) :
    lineBits (layOut ((octets, stop) :: rest)) = before ++ after := by
  rw [layOut]
  by_cases aligned : stop = octetAligned
  · subst aligned
    rw [unfilled_octetAligned, List.replicate_zero, List.append_nil] at first
    have second' : lineBits (layOut rest) = after := second
    rw [if_pos rfl, lineBits_append, first, second']
  · have inside : stop.val ≠ 7 := fun same => aligned (Fin.ext same)
    have free : stop.unfilled = stop.val + 1 := Nat.mod_eq_of_lt (by omega)
    have start : 7 - stop.val = 8 - stop.unfilled := by omega
    rw [start] at second
    rw [if_neg aligned, lineBits_overlap (by omega) (by omega) first second]

end SimplexControl.Hdlc
