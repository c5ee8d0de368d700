import SimplexControl.Fcs

/-!
# The check sequence bit by bit

A shift is linear in exclusive or. A register can therefore take up to sixteen bits together, before
the shifts that they ask for, and what a table holds for the low octet of the register stands apart
from the high octet, which only moves down. So octets taken by the table leave the same register as
their bits, and the check sequence of a message with its own check sequence behind it is always the
same.
-/

namespace SimplexControl.Fcs

/-! ## Shifts -/

theorem and_one_eq_one_iff (r : UInt16) : r &&& 1 = 1 ↔ r.toNat.testBit 0 = true := by
  rw [← UInt16.toNat_inj, UInt16.toNat_and, Nat.testBit_zero]
  simp [Nat.and_one_is_mod]

theorem shift_eq (r : UInt16) :
    shift r = (r >>> 1) ^^^ if r.toNat.testBit 0 then generator else 0 := by
  rw [shift]
  simp only [and_one_eq_one_iff]
  split <;> simp

theorem xor_generator_twice (r : UInt16) : r ^^^ generator ^^^ generator = r := by
  rw [UInt16.xor_assoc, UInt16.xor_self, UInt16.xor_zero]

theorem shift_xor (r s : UInt16) : shift (r ^^^ s) = shift r ^^^ shift s := by
  have twice (a b : UInt16) : a ^^^ generator ^^^ (b ^^^ generator) = a ^^^ b := by
    rw [← UInt16.xor_assoc, UInt16.xor_assoc a, UInt16.xor_comm generator, ← UInt16.xor_assoc,
      xor_generator_twice]
  simp only [shift_eq, UInt16.shiftRight_xor, UInt16.toNat_xor, Nat.testBit_xor]
  cases r.toNat.testBit 0 <;> cases s.toNat.testBit 0
  · simp
  · simp [UInt16.xor_assoc]
  · simp only [Bool.xor_false, if_true, Bool.false_eq_true, if_false, UInt16.xor_zero]
    ac_rfl
  · simp [twice]

/-- A bit that is not the lowest one of the register brings the generator in. -/
theorem takeBit_eq (r : UInt16) (b : Bool) :
    takeBit r b = if r.toNat.testBit 0 = b then r >>> 1 else (r >>> 1) ^^^ generator := by
  have zero : shift 0 = 0 := rfl
  have one : shift 1 = generator := rfl
  rw [takeBit, shift_xor, shift_eq r]
  cases r.toNat.testBit 0 <;> cases b
  · simp [zero]
  · simp [one]
  · simp [zero]
  · simp only [if_true, one, xor_generator_twice]

theorem toNat_ofNat_of_lt {v : Nat} (small : v < 65536) : (UInt16.ofNat v).toNat = v := by
  rw [UInt16.toNat_ofNat', Nat.mod_eq_of_lt small]

/-- A zero that falls out brings nothing in. -/
theorem shift_double {v : Nat} (small : 2 * v < 65536) :
    shift (UInt16.ofNat (2 * v)) = UInt16.ofNat v := by
  have doubled := toNat_ofNat_of_lt small
  have even : (2 * v).testBit 0 = false := by simp [Nat.testBit_zero]
  rw [shift_eq, doubled, even, if_neg Bool.false_ne_true, UInt16.xor_zero]
  apply UInt16.toNat_inj.mp
  rw [UInt16.toNat_shiftRight, doubled, toNat_ofNat_of_lt (by omega)]
  exact Nat.mul_div_cancel_left v (by decide)

theorem repeat_shift_succ (n : Nat) (r : UInt16) :
    Nat.repeat shift (n + 1) r = Nat.repeat shift n (shift r) := by
  induction n with
  | zero => rfl
  | succ n ih => rw [Nat.repeat, ih, Nat.repeat]

theorem repeat_shift_xor (n : Nat) (r s : UInt16) :
    Nat.repeat shift n (r ^^^ s) = Nat.repeat shift n r ^^^ Nat.repeat shift n s := by
  induction n with
  | zero => rfl
  | succ n ih => rw [Nat.repeat, ih, shift_xor, Nat.repeat, Nat.repeat]

/-- Bits above zeros only move down while the zeros fall out. -/
theorem repeat_shift_shiftLeft (n : Nat) : ∀ v, v <<< n < 65536 →
    Nat.repeat shift n (UInt16.ofNat (v <<< n)) = UInt16.ofNat v := by
  induction n with
  | zero => intro v _; rfl
  | succ n ih =>
    intro v small
    rw [Nat.shiftLeft_succ] at small ⊢
    rw [repeat_shift_succ, shift_double small, ih v (by omega)]

/-! ## Bits taken together -/

/-- Numbers of which one has zeros where the other has bits are added by exclusive or. -/
theorem shiftLeft_xor {n b : Nat} (small : b < 1 <<< n) (a : Nat) :
    a <<< n ^^^ b = a <<< n + b := by
  rw [Nat.one_shiftLeft] at small
  have product : a <<< n = 2 ^ n * a := by rw [Nat.shiftLeft_eq, Nat.mul_comm]
  apply Nat.eq_of_testBit_eq
  intro i
  rw [product, Nat.testBit_xor, Nat.testBit_two_pow_mul_add _ small, Nat.testBit_two_pow_mul]
  by_cases low : i < n
  · rw [if_pos low, decide_eq_false (Nat.not_le.mpr low), Bool.false_and, Bool.false_xor]
  · have high : b < 2 ^ i :=
      Nat.lt_of_lt_of_le small (Nat.pow_le_pow_right (by decide) (Nat.not_lt.mp low))
    rw [if_neg low, decide_eq_true (Nat.not_lt.mp low), Nat.testBit_lt_two_pow high, Bool.true_and,
      Bool.xor_false]

/-- Up to sixteen bits can be taken into the register together, before the shifts. -/
theorem foldl_takeBit_lowBits (n : Nat) : ∀ v r, n ≤ 16 → v < 1 <<< n →
    (lowBits n v).foldl takeBit r = Nat.repeat shift n (r ^^^ UInt16.ofNat v) := by
  induction n with
  | zero =>
    intro v r _ small
    rw [Nat.lt_one_iff.mp small]
    exact UInt16.xor_zero.symm
  | succ n ih =>
    intro v r few small
    obtain ⟨w, b, rfl⟩ : ∃ w b, v = 2 * w + bitValue b := ⟨_, _, (double_half_add v).symm⟩
    rw [Nat.shiftLeft_succ] at small
    have bound : 1 <<< n ≤ 1 <<< 15 := by
      rw [Nat.one_shiftLeft, Nat.one_shiftLeft]
      exact Nat.pow_le_pow_right (by decide) (by omega)
    have bit : (if b then 1 else 0) = UInt16.ofNat (bitValue b) := by cases b <;> rfl
    have apart : 2 * w ^^^ bitValue b = 2 * w + bitValue b := by
      have below : bitValue b < 1 <<< 1 := by cases b <;> decide
      have doubled : w <<< 1 = 2 * w := Nat.shiftLeft_succ w 0
      rw [← doubled, shiftLeft_xor below]
    have whole : r ^^^ UInt16.ofNat (2 * w + bitValue b) =
        r ^^^ (if b then 1 else 0) ^^^ UInt16.ofNat (2 * w) := by
      rw [bit, ← apart, UInt16.ofNat_xor, UInt16.xor_comm (UInt16.ofNat (2 * w)), UInt16.xor_assoc]
    have half : shift (UInt16.ofNat (2 * w)) = UInt16.ofNat w := shift_double (by omega)
    rw [lowBits_double_add, List.foldl_cons, ih w _ (by omega) (by omega), repeat_shift_succ, whole,
      shift_xor, half, takeBit]

/-! ## The table -/

theorem get_table (o : UInt8) :
    table.get o.toFin = Nat.repeat shift 8 (UInt16.ofNat o.toNat) := by
  have inside : o.toNat < 256 := o.toNat_lt
  exact Vector.getElem_ofFn inside

theorem toNat_shiftRight_eight (r : UInt16) : (r >>> 8).toNat = r.toNat / 256 := by
  simp only [UInt16.toNat_shiftRight, UInt16.reduceToNat, Nat.reduceMod,
    Nat.shiftRight_eq_div_pow, Nat.reducePow]

/-- Eight shifts take the low octet through the table and move the high one down. -/
theorem repeat_shift_eight (r : UInt16) :
    Nat.repeat shift 8 r = (r >>> 8) ^^^ table.get r.toUInt8.toFin := by
  have bound := r.toNat_lt
  have below : r.toUInt8.toNat < 1 <<< 8 := r.toUInt8.toNat_lt
  have low : r.toUInt8.toNat = r.toNat % 256 := UInt16.toNat_toUInt8 r
  have high : UInt16.ofNat (r >>> 8).toNat = r >>> 8 := UInt16.ofNat_toNat
  have moved := toNat_shiftRight_eight r
  have parts : UInt16.ofNat ((r >>> 8).toNat <<< 8) ^^^ UInt16.ofNat r.toUInt8.toNat = r := by
    rw [← UInt16.ofNat_xor, shiftLeft_xor below, low, moved, Nat.shiftLeft_eq, Nat.div_add_mod',
      UInt16.ofNat_toNat]
  have shifted := repeat_shift_xor 8 (UInt16.ofNat ((r >>> 8).toNat <<< 8))
    (UInt16.ofNat r.toUInt8.toNat)
  rw [parts, repeat_shift_shiftLeft 8 _ (by rw [Nat.shiftLeft_eq]; omega), high, ← get_table]
    at shifted
  exact shifted

theorem takeOctet_eq (r : UInt16) (o : UInt8) : takeOctet r o = (lsbFirst o).foldl takeBit r := by
  have bound := o.toNat_lt
  have octet : UInt16.ofNat o.toNat = o.toUInt16 := UInt16.toNat_inj.mp (by simp)
  have none : o.toUInt16 >>> 8 = 0 := by
    apply UInt16.toNat_inj.mp
    rw [toNat_shiftRight_eight, UInt8.toNat_toUInt16]
    exact Nat.div_eq_of_lt bound
  rw [takeOctet, lsbFirst, foldl_takeBit_lowBits 8 _ _ (by decide) bound, octet,
    repeat_shift_eight, UInt16.shiftRight_xor, none, UInt16.xor_zero]

/-- Octets by the table leave the register as their bits do. -/
theorem foldl_takeOctet (xs : Octets) (r : UInt16) :
    xs.foldl takeOctet r = (contentBits xs).foldl takeBit r := by
  have same : takeOctet = fun r o => (lsbFirst o).foldl takeBit r := by
    funext r o
    exact takeOctet_eq r o
  rw [contentBits, List.foldl_flatMap, same]

theorem ofOctets_eq_ofBits (xs : Octets) : ofOctets xs = ofBits (contentBits xs) := by
  rw [ofOctets, ofBits, foldl_takeOctet]

/-! ## Messages with their check sequence -/

/-- A check sequence goes least significant bit first as a whole. -/
theorem contentBits_octets (v : UInt16) : contentBits (octets v) = lowBits 16 v.toNat := by
  have low : lsbFirst v.toUInt8 = (lowBits 16 v.toNat).take 8 := by
    have octet : v.toUInt8 = UInt8.ofNat v.toNat := rfl
    rw [octet, lsbFirst_ofNat, lowBits, lowBits, ← List.map_take, List.take_range]
    rfl
  have high : lsbFirst (v >>> 8).toUInt8 = (lowBits 16 v.toNat).drop 8 := by
    have octet : (v >>> 8).toUInt8 = UInt8.ofNat (v.toNat >>> 8) := by
      apply UInt8.toNat_inj.mp
      simp [UInt16.toNat_toUInt8]
    rw [octet, lsbFirst_ofNat, lowBits_shiftRight]
  rw [octets, contentBits_cons, contentBits_cons, contentBits_nil, List.append_nil, low, high,
    List.take_append_drop]

/-- A register that takes its own complement holds ones alone before the shifts. -/
theorem ofOctets_sealed (xs : Octets) : ofOctets (sealed xs) = 0x0F47 := by
  have ones (r : UInt16) : r ^^^ ~~~r = 0xFFFF := by
    rw [UInt16.xor_not, UInt16.xor_self]
    rfl
  have shifted : Nat.repeat shift 16 0xFFFF = 0xF0B8 := by decide +kernel
  rw [ofOctets_eq_ofBits, ofBits, sealed, contentBits_append, contentBits_octets, List.foldl_append,
    foldl_takeBit_lowBits 16 _ _ (Nat.le_refl 16) (ofOctets xs).toNat_lt, UInt16.ofNat_toNat,
    ofOctets_eq_ofBits, ofBits, ones, shifted]
  rfl

/-- The check sequence of octets is the complement of the remainder that their bits leave one by
one, and with their own check sequence behind them they always have the same. -/
theorem ofOctets_remainder (xs : Octets) :
    let step (r : UInt16) (b : Bool) : UInt16 :=
      if r.toNat.testBit 0 = b then r >>> 1 else (r >>> 1) ^^^ 0x8408
    ofOctets xs = ~~~ (contentBits xs).foldl step 0xFFFF ∧
      ofOctets (xs ++ octets (ofOctets xs)) = 0x0F47 := by
  intro step
  have bitwise : takeBit = step := by
    funext r b
    exact takeBit_eq r b
  refine ⟨?_, ofOctets_sealed xs⟩
  rw [ofOctets_eq_ofBits, ofBits, bitwise]
  rfl

end SimplexControl.Fcs
