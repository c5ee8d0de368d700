import SimplexControl.Octets

/-!
# Octets at their places

What a string holds at one place after a change at another one: the fields of a PDU lie side by
side in one string, and setting one of them must leave the others alone.
-/

namespace SimplexControl.Octets

variable {xs ys : Octets} {i j : Nat}

theorem octetAt_of_le (beyond : xs.length ≤ i) : octetAt xs i = 0 := by
  rw [octetAt, List.getD_eq_getElem?_getD, List.getElem?_eq_none beyond, Option.getD_none]

theorem octetAt_of_getElem? {o : UInt8} (present : xs[i]? = some o) : octetAt xs i = o := by
  rw [octetAt, List.getD_eq_getElem?_getD, present, Option.getD_some]

theorem octetAt_append_left (inside : i < xs.length) : octetAt (xs ++ ys) i = octetAt xs i := by
  simp only [octetAt, List.getD_eq_getElem?_getD, List.getElem?_append_left inside]

@[simp] theorem octetAt_set_ne (different : j ≠ i) (o : UInt8) :
    octetAt (xs.set j o) i = octetAt xs i := by
  simp only [octetAt, List.getD_eq_getElem?_getD, List.getElem?_set_ne different]

theorem octetAt_set_self (inside : i < xs.length) (o : UInt8) : octetAt (xs.set i o) i = o := by
  have present : (xs.set i o)[i]? = some o := List.getElem?_set_self inside
  rw [octetAt_of_getElem? present]

theorem octetAt_setWord_ne (first : j ≠ i) (second : j + 1 ≠ i) (w : UInt16) :
    octetAt (setWord xs j w) i = octetAt xs i := by
  rw [setWord, octetAt_set_ne second, octetAt_set_ne first]

/-- Resizing keeps the octets for which there is still room. -/
theorem octetAt_resize {size : Nat} (inside : i < size) :
    octetAt (resize xs size) i = octetAt xs i := by
  by_cases present : i < xs.length
  · have kept : i < (xs.take size).length := by
      rw [List.length_take]
      omega
    rw [resize, octetAt_append_left kept]
    simp only [octetAt, List.getD_eq_getElem?_getD, List.getElem?_take_of_lt inside]
  · have filled : (resize xs size)[i]? = some 0 := by
      rw [resize, List.getElem?_append_right (by rw [List.length_take]; omega),
        List.getElem?_replicate_of_lt (by rw [List.length_take]; omega)]
    rw [octetAt_of_getElem? filled, octetAt_of_le (by omega)]

theorem octetAt_overwrite_of_lt {offset : Nat} (before : i < offset) (data : Octets) :
    octetAt (overwrite xs offset data) i = octetAt xs i := by
  by_cases present : i < xs.length
  · have kept : i < (xs.take offset).length := by
      rw [List.length_take]
      omega
    rw [overwrite, List.append_assoc, octetAt_append_left kept]
    simp only [octetAt, List.getD_eq_getElem?_getD, List.getElem?_take_of_lt before]
  · rw [octetAt_of_le (by rw [length_overwrite]; omega), octetAt_of_le (by omega)]

/-- Data that reach from `offset` exactly to the end replace everything from there on. -/
theorem overwrite_of_length {offset : Nat} {data : Octets}
    (size : xs.length = offset + data.length) :
    overwrite xs offset data = xs.take offset ++ data := by
  have room : data.take (xs.length - offset) = data := List.take_of_length_le (by omega)
  have none : xs.drop (offset + data.length) = [] := List.drop_of_length_le (by omega)
  rw [overwrite, room, none, List.append_nil]

/-- Resizing and then cutting is resizing to the smaller size. -/
theorem take_resize_add (xs : Octets) (m n : Nat) :
    (resize xs (m + n)).take m = resize xs m := by
  have zeros : min (m - min (m + n) xs.length) (m + n - xs.length) = m - xs.length := by omega
  rw [resize, resize, List.take_append, List.take_take, List.length_take, List.take_replicate,
    zeros, Nat.min_eq_left (Nat.le_add_right m n)]

/-! ## Words -/

/-- The two octets of a word make up the word. -/
theorem join_ofWord (w : UInt16) :
    (w >>> 8).toUInt8.toUInt16 <<< 8 ||| w.toUInt8.toUInt16 = w := by
  have bound := w.toNat_lt
  have joined : w.toNat / 256 * 256 ||| w.toNat % 256 = w.toNat := by
    have disjoint := Nat.two_pow_add_eq_or_of_lt (Nat.mod_lt w.toNat (by decide : 0 < 2 ^ 8))
      (w.toNat / 256)
    have whole := Nat.div_add_mod w.toNat 256
    rw [Nat.mul_comm]
    exact disjoint.symm.trans whole
  apply UInt16.toNat_inj.mp
  simp only [UInt16.toNat_or, UInt16.toNat_shiftLeft, UInt8.toNat_toUInt16,
    UInt16.toNat_toUInt8, UInt16.toNat_shiftRight, UInt16.reduceToNat, Nat.reduceMod,
    Nat.shiftLeft_eq, Nat.shiftRight_eq_div_pow, Nat.reducePow]
  rw [Nat.mod_eq_of_lt (by omega : w.toNat / 256 < 256),
    Nat.mod_eq_of_lt (by omega : w.toNat / 256 * 256 < 65536), joined]

/-- The number of a word is made up of those of its two octets. -/
theorem toNat_join (high low : UInt8) :
    (high.toUInt16 <<< 8 ||| low.toUInt16).toNat = 256 * high.toNat + low.toNat := by
  have high_lt := high.toNat_lt
  have disjoint := Nat.two_pow_add_eq_or_of_lt low.toNat_lt high.toNat
  simp only [UInt16.toNat_or, UInt16.toNat_shiftLeft, UInt8.toNat_toUInt16,
    UInt16.reduceToNat, Nat.reduceMod, Nat.shiftLeft_eq, Nat.reducePow]
  rw [Nat.mod_eq_of_lt (by omega : high.toNat * 256 < 65536), Nat.mul_comm]
  exact disjoint.symm

theorem toNat_wordAt (xs : Octets) (i : Nat) :
    (xs.wordAt i).toNat = 256 * (xs.octetAt i).toNat + (xs.octetAt (i + 1)).toNat :=
  toNat_join _ _

/-- Without its second octet a word is a multiple of 256. -/
theorem toNat_wordAt_of_le (short : xs.length ≤ i + 1) :
    (wordAt xs i).toNat = 256 * (octetAt xs i).toNat := by
  rw [toNat_wordAt, octetAt_of_le short]
  rfl

/-- Two octets are the octets of the word that they make up. -/
theorem ofWord_join (high low : UInt8) :
    ofWord (high.toUInt16 <<< 8 ||| low.toUInt16) = [high, low] := by
  have high_lt := high.toNat_lt
  have low_lt := low.toNat_lt
  have value := toNat_join high low
  have upper : ((high.toUInt16 <<< 8 ||| low.toUInt16) >>> 8).toUInt8 = high := by
    apply UInt8.toNat_inj.mp
    simp only [UInt16.toNat_toUInt8, UInt16.toNat_shiftRight, value, UInt16.reduceToNat,
      Nat.reduceMod, Nat.shiftRight_eq_div_pow, Nat.reducePow]
    omega
  have lower : (high.toUInt16 <<< 8 ||| low.toUInt16).toUInt8 = low := by
    apply UInt8.toNat_inj.mp
    rw [UInt16.toNat_toUInt8, value]
    omega
  rw [ofWord, upper, lower]

/-- Two octets are those of the number that they make up. -/
theorem ofWord_ofNat {high low : UInt8} {n : Nat} (number : 256 * high.toNat + low.toNat = n) :
    ofWord (UInt16.ofNat n) = [high, low] := by
  rw [← number, ← toNat_join, UInt16.ofNat_toNat, ofWord_join]

theorem setWord_of_le (beyond : xs.length ≤ i) (w : UInt16) : setWord xs i w = xs := by
  rw [setWord, List.set_eq_of_length_le beyond, List.set_eq_of_length_le (Nat.le_succ_of_le beyond)]

/-- Where there is room for the first octet of a word, some word makes a difference. -/
theorem exists_octetAt_setWord_ne (inside : i < xs.length) :
    ∃ w, octetAt (setWord xs i w) i ≠ octetAt xs i := by
  let high := octetAt xs i + 1
  have first := congrArg List.head? (ofWord_join high 0)
  refine ⟨high.toUInt16 <<< 8 ||| (0 : UInt8).toUInt16, ?_⟩
  rw [setWord, octetAt_set_ne (Nat.succ_ne_self i), octetAt_set_self inside,
    Option.some.inj first]
  exact fun same => absurd (UInt8.add_eq_left.mp same) (by decide)

@[simp] theorem wordAt_ofWord_append (w : UInt16) (xs : Octets) :
    wordAt (ofWord w ++ xs) 0 = w := join_ofWord w

end SimplexControl.Octets
