/-!
# Octet strings

A header field sits at a fixed offset of an octet string that may be too short to hold it.
Reading beyond the end gives zero and writing there does nothing, so the operations below are
total and never change the length of a string, `resize` apart.
-/

namespace SimplexControl

/-- A string of octets in transmission order. -/
abbrev Octets := List UInt8

namespace Octets

/-- The octet at `offset`, zero beyond the end. -/
def octetAt (xs : Octets) (offset : Nat) : UInt8 := xs.getD offset 0

/-- The octet pair at `offset` as a big-endian word; each absent octet counts as zero. -/
def wordAt (xs : Octets) (offset : Nat) : UInt16 :=
  (octetAt xs offset).toUInt16 <<< 8 ||| (octetAt xs (offset + 1)).toUInt16

/-- The big-endian octet pair of a word. -/
def ofWord (w : UInt16) : Octets := [(w >>> 8).toUInt8, w.toUInt8]

/-- Stores a word at `offset`, each of its two octets only where there is room for it. -/
def setWord (xs : Octets) (offset : Nat) (w : UInt16) : Octets :=
  (xs.set offset (w >>> 8).toUInt8).set (offset + 1) w.toUInt8

/-- Cuts the string to `size` octets, or fills it up to that size with zeros. -/
def resize (xs : Octets) (size : Nat) : Octets :=
  xs.take size ++ List.replicate (size - xs.length) 0

/-- Writes `data` from `offset` on, as far as the string reaches. -/
def overwrite (xs : Octets) (offset : Nat) (data : Octets) : Octets :=
  xs.take offset ++ data.take (xs.length - offset) ++ xs.drop (offset + data.length)

@[simp] theorem length_resize (xs : Octets) (size : Nat) : (resize xs size).length = size := by
  simp only [resize, List.length_append, List.length_take, List.length_replicate]
  omega

@[simp] theorem length_setWord (xs : Octets) (offset : Nat) (w : UInt16) :
    (setWord xs offset w).length = xs.length := by
  simp [setWord]

@[simp] theorem length_overwrite (xs : Octets) (offset : Nat) (data : Octets) :
    (overwrite xs offset data).length = xs.length := by
  simp only [overwrite, List.length_append, List.length_take, List.length_drop]
  omega

end Octets

end SimplexControl
