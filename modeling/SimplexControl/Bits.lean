import SimplexControl.Octets

/-!
# Bit orders

A line carries the bits of an octet most significant first. The content of a frame is
serialised the other way round, least significant bit first, before it is put on the line.
`lowBits` gives the bits of a number in the second order; the lemmas say how a number grows by
a bit at either end.
-/

namespace SimplexControl

/-- The numeric value of a bit. -/
def bitValue (b : Bool) : Nat := if b then 1 else 0

/-- The lowest `n` bits of a number, least significant first. -/
def lowBits (n v : Nat) : List Bool := (List.range n).map v.testBit

/-- The bits of an octet, least significant first. -/
def lsbFirst (o : UInt8) : List Bool := lowBits 8 o.toNat

/-- The bits of an octet, most significant first. -/
def msbFirst (o : UInt8) : List Bool := (lsbFirst o).reverse

/-- The bits of an octet string in the order in which a line carries them. -/
def lineBits (xs : Octets) : List Bool := xs.flatMap msbFirst

/-- The bits of an octet string as frame content: least significant first in each octet. -/
def contentBits (xs : Octets) : List Bool := xs.flatMap lsbFirst

@[simp] theorem length_lowBits (n v : Nat) : (lowBits n v).length = n := by simp [lowBits]

@[simp] theorem length_lsbFirst (o : UInt8) : (lsbFirst o).length = 8 := by simp [lsbFirst]

@[simp] theorem length_msbFirst (o : UInt8) : (msbFirst o).length = 8 := by simp [msbFirst]

/-- A bit put below a number comes first. -/
theorem lowBits_double_add (n v : Nat) (b : Bool) :
    lowBits (n + 1) (2 * v + bitValue b) = b :: lowBits n v := by
  have zeroth : (2 * v + bitValue b).testBit 0 = b := by
    cases b <;> simp [bitValue, Nat.testBit_zero]
  have half : (2 * v + bitValue b) / 2 = v := by
    cases b <;> simp only [bitValue, if_true, Bool.false_eq_true, if_false] <;> omega
  have later (i : Nat) : (2 * v + bitValue b).testBit (i + 1) = v.testBit i := by
    rw [Nat.testBit_succ, half]
  simp only [lowBits, List.range_succ_eq_map, List.map_cons, List.map_map, zeroth]
  congr 1
  exact List.map_congr_left fun i _ => later i

theorem double_half_add (v : Nat) : 2 * (v / 2) + bitValue (v.testBit 0) = v := by
  have lowest : bitValue (v.testBit 0) = v % 2 := by
    rw [Nat.testBit_zero]
    rcases Nat.mod_two_eq_zero_or_one v with even | odd
    · rw [even]; rfl
    · rw [odd]; rfl
  rw [lowest, Nat.div_add_mod]

/-- A bit put above a number comes last. -/
theorem lowBits_add_shiftLeft {n v : Nat} (h : v < 1 <<< n) (b : Bool) :
    lowBits (n + 1) (v + bitValue b <<< n) = lowBits n v ++ [b] := by
  rw [Nat.one_shiftLeft] at h
  have swapped : v + bitValue b <<< n = 2 ^ n * bitValue b + v := by
    rw [Nat.shiftLeft_eq, Nat.add_comm, Nat.mul_comm]
  have below : (List.range n).map (2 ^ n * bitValue b + v).testBit = lowBits n v := by
    refine List.map_congr_left fun i hi => ?_
    rw [Nat.testBit_two_pow_mul_add _ h, if_pos (List.mem_range.mp hi)]
  have top : (2 ^ n * bitValue b + v).testBit n = b := by
    rw [Nat.testBit_two_pow_mul_add _ h, if_neg (Nat.lt_irrefl n), Nat.sub_self]
    cases b <;> rfl
  rw [swapped, lowBits, List.range_succ, List.map_append, below, List.map_cons, List.map_nil, top]

/-- An octet keeps the lowest eight bits of a number. -/
theorem lsbFirst_ofNat (v : Nat) : lsbFirst (UInt8.ofNat v) = lowBits 8 v := by
  refine List.map_congr_left fun i hi => ?_
  rw [UInt8.toNat_ofNat', Nat.testBit_mod_two_pow]
  simp [List.mem_range.mp hi]

/-- A shift to the right takes the lowest bits off. -/
theorem lowBits_shiftRight (n k v : Nat) : lowBits n (v >>> k) = (lowBits (n + k) v).drop k := by
  apply List.ext_getElem
  · simp
  · intro i _ _
    simp [lowBits, Nat.testBit_shiftRight]

/-- A shift to the left puts zeros below. -/
theorem lowBits_shiftLeft (n k v : Nat) :
    lowBits (n + k) (v <<< k) = List.replicate k false ++ lowBits n v := by
  induction k with
  | zero => simp
  | succ k ih =>
    have doubled : v <<< (k + 1) = 2 * (v <<< k) + bitValue false := Nat.shiftLeft_succ v k
    rw [doubled, ← Nat.add_assoc, lowBits_double_add, ih, List.replicate_succ, List.cons_append]

@[simp] theorem lineBits_nil : lineBits [] = [] := rfl

theorem lineBits_cons (o : UInt8) (xs : Octets) :
    lineBits (o :: xs) = msbFirst o ++ lineBits xs := by
  simp [lineBits]

@[simp] theorem length_lineBits (xs : Octets) : (lineBits xs).length = 8 * xs.length := by
  induction xs with
  | nil => rfl
  | cons o xs ih =>
    rw [lineBits_cons, List.length_append, ih, length_msbFirst, List.length_cons]
    omega

@[simp] theorem lineBits_append (xs ys : Octets) :
    lineBits (xs ++ ys) = lineBits xs ++ lineBits ys := by
  simp [lineBits]

theorem lineBits_take (xs : Octets) : ∀ n, lineBits (xs.take n) = (lineBits xs).take (8 * n) := by
  induction xs with
  | nil => simp
  | cons o xs ih =>
    intro n
    cases n with
    | zero => simp
    | succ n =>
      have first : 8 * (n + 1) = (msbFirst o).length + 8 * n := by rw [length_msbFirst]; omega
      rw [List.take_succ_cons, lineBits_cons, lineBits_cons, ih, first, List.take_length_add_append]

theorem lineBits_drop (xs : Octets) : ∀ n, lineBits (xs.drop n) = (lineBits xs).drop (8 * n) := by
  induction xs with
  | nil => simp
  | cons o xs ih =>
    intro n
    cases n with
    | zero => simp
    | succ n =>
      have first : 8 * (n + 1) = (msbFirst o).length + 8 * n := by rw [length_msbFirst]; omega
      rw [List.drop_succ_cons, lineBits_cons, ih, first, List.drop_length_add_append]

@[simp] theorem contentBits_nil : contentBits [] = [] := rfl

theorem contentBits_cons (o : UInt8) (xs : Octets) :
    contentBits (o :: xs) = lsbFirst o ++ contentBits xs := by
  simp [contentBits]

@[simp] theorem length_contentBits (xs : Octets) : (contentBits xs).length = 8 * xs.length := by
  induction xs with
  | nil => rfl
  | cons o xs ih =>
    rw [contentBits_cons, List.length_append, ih, length_lsbFirst, List.length_cons]
    omega

@[simp] theorem contentBits_append (xs ys : Octets) :
    contentBits (xs ++ ys) = contentBits xs ++ contentBits ys := by
  simp [contentBits]

end SimplexControl
