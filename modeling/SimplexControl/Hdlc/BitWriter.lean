import SimplexControl.Hdlc.Stuffing

/-!
# Writing bits into a buffer

A writer fills the octets of a buffer most significant bit first. It may start inside the first
octet, whose bits before the start it keeps, and it drops everything past the end of the
buffer, noting that it did. The octet in progress is held as a number of `filled` bits.
-/

namespace SimplexControl.Hdlc

/-- A place in an octet: 7 is the most significant bit, the one that comes first. -/
abbrev BitPosition := Fin 8

/-- The place of the first bit of an octet. -/
def octetAligned : BitPosition := 7

/-- A writer and what it has written. -/
structure BitWriter where
  /-- The number of octets of the buffer. -/
  capacity : Nat
  /-- The octets that are full. -/
  octets : Array UInt8
  /-- The bits of the octet in progress, the first of them in the highest place. -/
  value : Nat
  /-- How many bits the octet in progress has. -/
  filled : Nat
  /-- How many ones in a row the content ends in. -/
  ones : Nat
  /-- Whether a bit has found no room. -/
  exhausted : Bool

namespace BitWriter

/-- A writer at a place of the first octet of a buffer. -/
def start (buffer : Octets) (position : BitPosition) : BitWriter where
  capacity := buffer.length
  octets := #[]
  value := (buffer.octetAt 0).toNat >>> (position.val + 1)
  filled := 7 - position.val
  ones := 0
  exhausted := false

/-- Writes one bit. -/
def push (w : BitWriter) (b : Bool) : BitWriter :=
  if w.octets.size < w.capacity then
    let value := 2 * w.value + bitValue b
    if w.filled = 7 then
      { w with octets := w.octets.push (UInt8.ofNat value), value := 0, filled := 0 }
    else { w with value := value, filled := w.filled + 1 }
  else { w with exhausted := true }

/-- Writes one bit of content, and a stuffed zero if five ones are complete. -/
def pushContent (w : BitWriter) (b : Bool) : BitWriter :=
  if b then
    let w := w.push true
    if w.ones + 1 = stuffAfter then { w.push false with ones := 0 }
    else { w with ones := w.ones + 1 }
  else { w.push false with ones := 0 }

/-- Writes an octet of content. -/
def pushOctet (w : BitWriter) (o : UInt8) : BitWriter := (lsbFirst o).foldl pushContent w

/-- Writes a flag, which is never stuffed. -/
def pushFlag (w : BitWriter) : BitWriter := { flag.foldl push w with ones := 0 }

/-- The number of octets that hold something, the one in progress included. -/
def size (w : BitWriter) : Nat := w.octets.size + if w.filled = 0 then 0 else 1

/-- The place of the next bit. -/
def position (w : BitWriter) : BitPosition := ⟨7 - w.filled, by omega⟩

/-- The octet in progress with its free places zero, if one has been begun. -/
def lastOctet (w : BitWriter) : Octets :=
  if w.filled = 0 then [] else [UInt8.ofNat (w.value <<< (8 - w.filled))]

/-- What has become of the buffer that the writer was started on. -/
def onto (w : BitWriter) (buffer : Octets) : Octets :=
  if w.exhausted then w.octets.toList
  else w.octets.toList ++ w.lastOctet ++ buffer.drop w.size

/-! ## What has been written -/

/-- The bits written so far, those kept from before the start included. -/
def bits (w : BitWriter) : List Bool :=
  lineBits w.octets.toList ++ (lowBits w.filled w.value).reverse

/-- The octet in progress is never full. -/
theorem filled_push {w : BitWriter} (b : Bool) (h : w.filled < 8) : (w.push b).filled < 8 := by
  unfold push
  split
  · split
    · exact Nat.zero_lt_succ 7
    · show w.filled + 1 < 8
      omega
  · exact h

/-- A bit that finds room comes behind the bits before it. -/
theorem bits_push {w : BitWriter} (b : Bool) (room : w.octets.size < w.capacity) :
    (w.push b).bits = w.bits ++ [b] := by
  unfold push
  rw [if_pos room]
  split
  case isTrue full =>
    have grown := lowBits_double_add 7 w.value b
    have none : lowBits 0 0 = [] := rfl
    simp only [bits, Array.toList_push, lineBits_append, full]
    simp only [lineBits, List.flatMap_cons, List.flatMap_nil, List.append_nil, msbFirst,
      lsbFirst_ofNat, grown, List.reverse_cons, List.append_assoc, none,
      List.reverse_nil]
  case isFalse =>
    simp only [bits, lowBits_double_add, List.reverse_cons, List.append_assoc]

/-- A bit that finds no room leaves nothing but the note that there was none. -/
theorem push_of_full {w : BitWriter} (b : Bool) (full : w.capacity ≤ w.octets.size) :
    w.push b = { w with exhausted := true } := by
  rw [push, if_neg (Nat.not_lt.mpr full)]

end BitWriter

end SimplexControl.Hdlc
