import SimplexControl.Bits

/-!
# Frame check sequence

The 16-bit check sequence of HDLC: the remainder modulo `x^16 + x^12 + x^5 + 1`, taken least
significant bit first with the register preset to ones, complemented, and sent low octet
first. `ofOctets` reads a table with an entry for each octet; `ofBits` is the definition bit
by bit.
-/

namespace SimplexControl.Fcs

/-- The generator polynomial, lowest power in the highest bit. -/
def generator : UInt16 := 0x8408

/-- The register before the first bit. -/
def preset : UInt16 := 0xFFFF

/-- Shifts the register by one bit; a one that falls out brings the generator in. -/
def shift (r : UInt16) : UInt16 :=
  if r &&& 1 = 1 then (r >>> 1) ^^^ generator else r >>> 1

/-- Takes one bit of the message into the register. -/
def takeBit (r : UInt16) (b : Bool) : UInt16 := shift (r ^^^ if b then 1 else 0)

/-- The check sequence of a string of bits. -/
def ofBits (bits : List Bool) : UInt16 := ~~~ bits.foldl takeBit preset

/-- Entry `i` is what eight shifts make of the register `i`. -/
def table : Vector UInt16 256 := Vector.ofFn fun i => Nat.repeat shift 8 (UInt16.ofNat i)

/-- Takes one octet of the message into the register. -/
def takeOctet (r : UInt16) (o : UInt8) : UInt16 :=
  (r >>> 8) ^^^ table.get (r ^^^ o.toUInt16).toUInt8.toFin

/-- The check sequence of an octet string. -/
def ofOctets (xs : Octets) : UInt16 := ~~~ xs.foldl takeOctet preset

/-- A check sequence in the order in which its octets are sent, the low one first. -/
def octets (v : UInt16) : Octets := [v.toUInt8, (v >>> 8).toUInt8]

/-- The check sequence that two received octets stand for. -/
def ofReceived (low high : UInt8) : UInt16 := low.toUInt16 ||| high.toUInt16 <<< 8

/-- A message followed by its check sequence. -/
def sealed (xs : Octets) : Octets := xs ++ octets (ofOctets xs)

@[simp] theorem length_octets (v : UInt16) : (octets v).length = 2 := rfl

end SimplexControl.Fcs
