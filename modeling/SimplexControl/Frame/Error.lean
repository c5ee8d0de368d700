/-!
# Why a frame is refused

`EncodeError` says why a frame cannot be sized or put on the line, `DecodeError` why received
octets are no frame. Each has one function that words it.
-/

namespace SimplexControl

/-- The lower-case hexadecimal digits of a number, filled with zeros up to `width`. -/
def hexDigits (width n : Nat) : String :=
  let digits := Nat.toDigits 16 n
  String.ofList (List.replicate (width - digits.length) '0' ++ digits)

/-- The words for an information field above its maximum. -/
def infoTooLargeText (size max : Nat) : String :=
  s!"information field of {size} octets exceeds maximum of {max}"

/-- Why a frame cannot be sized or encoded. -/
inductive EncodeError
  | infoTooLarge (size max : Nat)
  | bufferTooSmall (required available : Nat)
  | invalidBitPosition (position : Nat)
deriving DecidableEq, Repr

/-- Why received octets are not taken as a frame. -/
inductive DecodeError
  | noFlag
  | incompleteFrame
  | frameTooShort (size : Nat)
  | misaligned (bits : Nat)
  | fcsMismatch (expected received : UInt16)
  | infoTooLarge (size max : Nat)
  | lengthMismatch (declared available : Nat)
  | truncated (size : Nat)
deriving DecidableEq, Repr

/-- The words for an encoding error. -/
def EncodeError.message : EncodeError → String
  | .infoTooLarge size max => infoTooLargeText size max
  | .bufferTooSmall required available =>
    s!"output buffer of {available} octets too small, {required} required"
  | .invalidBitPosition position => s!"bit position {position} out of range 0-7"

/-- The words for a decoding error. -/
def DecodeError.message : DecodeError → String
  | .noFlag => "no flag sequence found"
  | .incompleteFrame => "input ended before closing flag"
  | .frameTooShort size => s!"frame of {size} octets is shorter than the minimum"
  | .misaligned bits => s!"frame of {bits} bits is not octet aligned"
  | .fcsMismatch expected received =>
    let e := hexDigits 4 expected.toNat
    let r := hexDigits 4 received.toNat
    s!"FCS mismatch: expected 0x{e}, received 0x{r}"
  | .infoTooLarge size max => infoTooLargeText size max
  | .lengthMismatch declared available =>
    s!"declared length {declared} does not match {available} available octets"
  | .truncated size => s!"input of {size} octets is truncated"

end SimplexControl
