import SimplexControl.Octets

/-!
# Client identifications

A client of the control protocol is named by seven bits, by an extended identification of one
more octet, or by a manufacturer's identification of five more octets. The eighth bit of the
first octet is free for other use, and `ClientId.write` and `ClientId.parse?` carry it along.
-/

namespace SimplexControl

/-- The identification of a client that a manufacturer defines. -/
@[ext]
structure NonStandardId where
  /-- The country code. -/
  country : UInt8
  /-- The extension of the country code. -/
  countryExtension : UInt8
  /-- The code of the manufacturer. -/
  manufacturer : UInt16
  /-- The client among those of the manufacturer. -/
  client : UInt8
deriving DecidableEq, Repr

/-- The identification of a client. -/
inductive ClientId
  | standard (id : UInt8)
  | extended (id : UInt8)
  | nonStandard (id : NonStandardId)
deriving DecidableEq, Repr

namespace ClientId

/-- The marker in place of a client ID that an extended identification follows. -/
def extendedMarker : UInt8 := 0x7E

/-- The marker in place of a client ID that a manufacturer's identification follows. -/
def nonStandardMarker : UInt8 := 0x7F

/-- The seven bits of an octet that name a client. -/
def idMask : UInt8 := 0x7F

/-- The bit of the first octet that is no part of the identification. -/
def highBit : UInt8 := 0x80

/-- The client that manages the others. -/
def cme : ClientId := .standard 0

/-- The client of far end camera control. -/
def cameraControl : ClientId := .standard 1

/-- The standard identification with this number, unless it is one of the markers or above. -/
def standard? (n : UInt8) : Option ClientId :=
  if n < extendedMarker then some (.standard n) else none

/-- The seven bits that open the identification on the line. -/
def raw : ClientId → UInt8
  | .standard id => id &&& idMask
  | .extended _ => extendedMarker
  | .nonStandard _ => nonStandardMarker

/-- Whether the identification can be written and read back. -/
def isValid : ClientId → Bool
  | .standard id => id < extendedMarker
  | _ => true

/-- How many octets of an extended identification follow its marker. -/
def extendedSize : Nat := 1

/-- How many octets of a manufacturer's identification follow its marker. -/
def nonStandardSize : Nat := 5

/-- How many octets follow the first one; its high bit is ignored. -/
def extensionSize (first : UInt8) : Nat :=
  if first &&& idMask = extendedMarker then extendedSize
  else if first &&& idMask = nonStandardMarker then nonStandardSize
  else 0

/-- How many octets the identification takes. -/
def size (id : ClientId) : Nat := 1 + extensionSize id.raw

/-- The octets that follow the first one. -/
def extension : ClientId → Octets
  | .standard _ => []
  | .extended id => [id]
  | .nonStandard id =>
    [id.country, id.countryExtension] ++ Octets.ofWord id.manufacturer ++ [id.client]

/-- The octets of the identification, with the high bit of `flags` in the first one. -/
def write (id : ClientId) (flags : UInt8) : Octets :=
  (flags &&& highBit ||| id.raw) :: id.extension

/-- Puts the octets of the identification at the end of a buffer, one after another. -/
def writeTo (id : ClientId) (buffer : Octets) (flags : UInt8) : Octets :=
  let marked := buffer.concat (flags &&& highBit ||| id.raw)
  match id with
  | .standard _ => marked
  | .extended id => marked.concat id
  | .nonStandard id =>
    ((marked.concat id.country).concat id.countryExtension ++
      Octets.ofWord id.manufacturer).concat id.client

/-- An identification read from the start of some octets. -/
structure Parsed where
  /-- The identification. -/
  id : ClientId
  /-- The high bit of its first octet. -/
  high : Bool
  /-- The octets that it takes. -/
  size : Nat
deriving DecidableEq, Repr

/-- Reads what the first octet announces from the octets behind it. -/
def parseExtension? (first : UInt8) (rest : Octets) : Option ClientId :=
  if first &&& idMask = extendedMarker then
    match rest with
    | id :: _ => some (.extended id)
    | [] => none
  else if first &&& idMask = nonStandardMarker then
    match rest with
    | country :: countryExtension :: high :: low :: client :: _ =>
      some (.nonStandard ⟨country, countryExtension, Octets.wordAt [high, low] 0, client⟩)
    | _ => none
  else some (.standard (first &&& idMask))

/-- Reads an identification from the start of some octets, if they hold the whole of it. -/
def parse? : Octets → Option Parsed
  | [] => none
  | first :: rest =>
    (parseExtension? first rest).map fun id => ⟨id, first &&& highBit ≠ 0, id.size⟩

/-- The fields of an identification in the order in which they decide a comparison. -/
def key : ClientId → List Nat
  | .standard id => [0, id.toNat]
  | .extended id => [1, id.toNat]
  | .nonStandard id =>
    [2, id.country.toNat, id.countryExtension.toNat, id.manufacturer.toNat, id.client.toNat]

instance : LT ClientId := ⟨fun a b => a.key < b.key⟩

instance (a b : ClientId) : Decidable (a < b) := inferInstanceAs (Decidable (a.key < b.key))

/-- Standard identifications come first and a manufacturer's last; then the fields decide. -/
def compare (a b : ClientId) : Ordering := if a < b then .lt else if b < a then .gt else .eq

/-- The identification with the names of its parts, as messages show it. -/
def describe : ClientId → String
  | .standard id => s!"Standard({id.toNat})"
  | .extended id => s!"Extended({id.toNat})"
  | .nonStandard id =>
    "NonStandard(H224NonStandardClientId \x7b " ++
      ", ".intercalate
        [s!"country_code: {id.country.toNat}",
          s!"country_code_extension: {id.countryExtension.toNat}",
          s!"manufacturer_code: {id.manufacturer.toNat}",
          s!"manufacturer_client_id: {id.client.toNat}"] ++ " \x7d)"

theorem writeTo_eq (id : ClientId) (buffer : Octets) (flags : UInt8) :
    id.writeTo buffer flags = buffer ++ id.write flags := by
  cases id <;> simp [writeTo, write, extension]

theorem key_inj {a b : ClientId} : a.key = b.key ↔ a = b := by
  cases a <;> cases b <;> simp [key, UInt8.toNat_inj, UInt16.toNat_inj, NonStandardId.ext_iff]

end ClientId

end SimplexControl
