/-!
# Sizes

A size is held in a word of 64 bits. A sum of sizes that is checked has no value where it does not
fit in its word, and one that is not checked wraps around. A program can be built to stop there
instead; such a program does the same wherever the sum fits.
-/

namespace SimplexControl

/-- A size, if it can be represented in 64 bits. -/
def representable (n : Nat) : Option Nat := if n < UInt64.size then some n else none

/-- What a sum of sizes comes to that is not checked. -/
def wrapped (n : Nat) : Nat := n % UInt64.size

theorem representable_of_lt {n : Nat} (fits : n < UInt64.size) : representable n = some n :=
  if_pos fits

theorem representable_of_le {n : Nat} (large : UInt64.size ≤ n) : representable n = none :=
  if_neg (Nat.not_lt.mpr large)

theorem wrapped_of_lt {n : Nat} (fits : n < UInt64.size) : wrapped n = n := Nat.mod_eq_of_lt fits

/-- A sum that is too large by less than a second turn comes out below what was added. -/
theorem wrapped_lt_of_le {m n : Nat} (word : n < UInt64.size) (large : UInt64.size ≤ m + n) :
    wrapped (m + n) < m := by
  rw [wrapped, Nat.mod_eq_sub_mod large]
  exact Nat.lt_of_le_of_lt (Nat.mod_le _ _) (by omega)

end SimplexControl
