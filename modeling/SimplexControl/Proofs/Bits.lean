import SimplexControl.Bits

/-!
# Octets by their bits

Octets are known by the bits that a line carries for them. Zeros at the end of octets and zeros at
the start of others leave room for each other, so that octets can be laid over one another without
a loss.
-/

namespace SimplexControl

theorem lineBits_singleton (o : UInt8) : lineBits [o] = msbFirst o := by
  simp [lineBits]

theorem lineBits_replicate_zero (n : Nat) :
    lineBits (List.replicate n 0) = List.replicate (8 * n) false := by
  have zero : msbFirst 0 = List.replicate 8 false := by decide
  induction n with
  | zero => rfl
  | succ n ih =>
    rw [List.replicate_succ, lineBits_cons, ih, zero, List.replicate_append_replicate]
    congr 1
    omega

theorem lowBits_or (n v w : Nat) :
    lowBits n (v ||| w) = List.zipWith or (lowBits n v) (lowBits n w) := by
  apply List.ext_getElem
  · simp
  · intro i _ _
    simp [lowBits]

theorem msbFirst_or (x y : UInt8) :
    msbFirst (x ||| y) = List.zipWith or (msbFirst x) (msbFirst y) := by
  have same : (lsbFirst x).length = (lsbFirst y).length := by simp
  rw [msbFirst, msbFirst, msbFirst, ← List.reverse_zipWith same, lsbFirst, UInt8.toNat_or,
    lowBits_or]
  rfl

/-- An octet is known by its bits. -/
theorem octet_ext {x y : UInt8} (same : ∀ i < 8, x.toNat.testBit i = y.toNat.testBit i) :
    x = y := by
  apply UInt8.toNat_inj.mp
  apply Nat.eq_of_testBit_eq
  intro i
  by_cases inside : i < 8
  · exact same i inside
  · have beyond : 2 ^ 8 ≤ 2 ^ i := Nat.pow_le_pow_right (by decide) (Nat.not_lt.mp inside)
    rw [Nat.testBit_lt_two_pow (Nat.lt_of_lt_of_le x.toNat_lt beyond),
      Nat.testBit_lt_two_pow (Nat.lt_of_lt_of_le y.toNat_lt beyond)]

theorem lsbFirst_inj {x y : UInt8} : lsbFirst x = lsbFirst y ↔ x = y := by
  refine ⟨fun same => octet_ext fun i inside => ?_, fun same => same ▸ rfl⟩
  exact List.map_inj_left.mp same i (List.mem_range.mpr inside)

theorem msbFirst_inj {x y : UInt8} : msbFirst x = msbFirst y ↔ x = y := by
  rw [msbFirst, msbFirst, List.reverse_inj, lsbFirst_inj]

theorem lineBits_inj {xs ys : Octets} : lineBits xs = lineBits ys ↔ xs = ys := by
  refine ⟨fun same => ?_, fun same => same ▸ rfl⟩
  induction xs generalizing ys with
  | nil =>
    have count := congrArg List.length same
    simp only [length_lineBits, List.length_nil] at count
    exact (List.eq_nil_of_length_eq_zero (by omega)).symm
  | cons x xs ih =>
    cases ys with
    | nil =>
      have count := congrArg List.length same
      simp only [length_lineBits, List.length_cons, List.length_nil] at count
      omega
    | cons y ys =>
      rw [lineBits_cons, lineBits_cons] at same
      obtain ⟨first, rest⟩ := List.append_inj same (by simp)
      rw [msbFirst_inj.mp first, ih rest]

/-! ## Masks -/

theorem testBit_toNat_not (x : UInt8) (i : Nat) :
    (~~~x).toNat.testBit i = (decide (i < 8) && !x.toNat.testBit i) := by
  have flipped : (~~~x).toNat = 2 ^ 8 - (x.toNat + 1) := by
    rw [UInt8.toNat_not, UInt8.size]
    omega
  rw [flipped, Nat.testBit_two_pow_sub_succ x.toNat_lt]

/-- Under a mask of one bit an octet shows this bit and nothing else. -/
theorem and_mask {mask : UInt8} {k : Nat} (single : mask.toNat = 1 <<< k) (x : UInt8) :
    x &&& mask = if x.toNat.testBit k then mask else 0 := by
  rw [Nat.one_shiftLeft] at single
  apply octet_ext
  intro i _
  rw [UInt8.toNat_and, Nat.testBit_and]
  by_cases here : k = i
  · subst here
    cases x.toNat.testBit k <;> simp [single]
  · have dark : mask.toNat.testBit i = false := by simp [single, here]
    cases x.toNat.testBit k <;> simp [dark]

/-! ## Octets laid over one another -/

/-- Bits that do not fill the last octet are filled up in one way only. -/
theorem eq_of_lineBits_padded {xs ys : Octets} {bits : List Bool} {m n : Nat} (m_lt : m < 8)
    (n_lt : n < 8) (first : lineBits xs = bits ++ List.replicate m false)
    (second : lineBits ys = bits ++ List.replicate n false) : xs = ys := by
  have count := congrArg List.length first
  have count' := congrArg List.length second
  simp only [length_lineBits, List.length_append, List.length_replicate] at count count'
  have same : m = n := by omega
  apply lineBits_inj.mp
  rw [first, second, same]

/-- Zeros below some bits and zeros above others show both when they are laid over one another. -/
theorem zipWith_or_replicate_false (xs ys : List Bool) :
    List.zipWith or (xs ++ List.replicate ys.length false)
      (List.replicate xs.length false ++ ys) = xs ++ ys := by
  induction xs with
  | nil => induction ys <;> simp_all [List.replicate_succ]
  | cons x xs ih => simpa [List.replicate_succ] using ih

end SimplexControl
