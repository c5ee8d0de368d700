import SimplexControl.ClientId
import SimplexControl.Frame.Basic

/-!
# Control protocol data units

A PDU is a view of a Q.922 frame: each field is read from and written to the information field,
which holds the destination and the source address, the client identification, the segmentation
octet and the client data. The identification has a size of its own, so segmentation octet and
client data move with it. An octet that the information field is too short for reads as zero,
and writing it does nothing.
-/

namespace SimplexControl

/-- A PDU in the frame that carries it. -/
structure Pdu where
  /-- The frame. -/
  frame : Frame
deriving DecidableEq, Repr

namespace Pdu

/-- The terminal address that means every terminal. -/
def broadcast : UInt16 := 0

/-- The high order address octet of every PDU. -/
def highAddress : UInt8 := 0x00

/-- The low order address octet of a PDU of high priority. -/
def highPriorityAddress : UInt8 := 0x71

/-- The low order address octet of a PDU of low priority. -/
def lowPriorityAddress : UInt8 := 0x61

/-- The control field of every PDU: unnumbered information. -/
def unnumberedInformation : UInt8 := 0x03

/-- Where the destination address lies. -/
def destinationOffset : Nat := 0

/-- Where the source address lies. -/
def sourceOffset : Nat := 2

/-- Where the client identification begins. -/
def clientOffset : Nat := 4

/-- Where the segmentation octet lies if the identification opens with this octet. -/
def segmentOffset (first : UInt8) : Nat := clientOffset + 1 + ClientId.extensionSize first

/-- The size of the header if the identification opens with this octet. -/
def headerSizeFor (first : UInt8) : Nat := segmentOffset first + 1

/-- The size of the header with the shortest identification. -/
def shortestHeader : Nat := clientOffset + 2

/-- The size of the header with the longest identification. -/
def longestHeader : Nat := shortestHeader + ClientId.nonStandardSize

/-- The largest area of client data that fits behind every header. -/
def largestData : Nat := Frame.largestInfo - longestHeader

/-- The area of client data of a PDU for which no size is asked. -/
def defaultDataSize : Nat := 254

/-! ## Octets of the information field -/

/-- The octet at an offset of the information field. -/
def octetAt (p : Pdu) (offset : Nat) : UInt8 := Octets.octetAt p.frame.info offset

/-- Writes the octet at an offset of the information field. -/
def setOctet (p : Pdu) (offset : Nat) (o : UInt8) : Pdu :=
  ⟨{ p.frame with info := p.frame.info.set offset o }⟩

/-- The word at an offset of the information field. -/
def wordAt (p : Pdu) (offset : Nat) : UInt16 := Octets.wordAt p.frame.info offset

/-- Writes the word at an offset of the information field. -/
def setWord (p : Pdu) (offset : Nat) (w : UInt16) : Pdu :=
  ⟨{ p.frame with info := p.frame.info.setWord offset w }⟩

/-! ## Priority and addresses -/

/-- Whether the PDU has high priority. -/
def highPriority (p : Pdu) : Bool := p.frame.low = highPriorityAddress

/-- Gives the PDU high or low priority. -/
def setHighPriority (p : Pdu) (v : Bool) : Pdu :=
  let low := if v then highPriorityAddress else lowPriorityAddress
  ⟨{ p.frame with high := highAddress, low := low }⟩

/-- The address of the terminal that the PDU is for. -/
def destination (p : Pdu) : UInt16 := p.wordAt destinationOffset

/-- Sets the destination address. -/
def setDestination (p : Pdu) (address : UInt16) : Pdu := p.setWord destinationOffset address

/-- The address of the terminal that the PDU is from. -/
def source (p : Pdu) : UInt16 := p.wordAt sourceOffset

/-- Sets the source address. -/
def setSource (p : Pdu) (address : UInt16) : Pdu := p.setWord sourceOffset address

/-! ## Client identification -/

/-- The seven bits that open the client identification. -/
def rawClient (p : Pdu) : UInt8 := p.octetAt clientOffset &&& ClientId.idMask

/-- The size of the header. -/
def headerSize (p : Pdu) : Nat := headerSizeFor p.rawClient

/-- The size of the client data area. -/
def dataSize (p : Pdu) : Nat := p.frame.info.length - p.headerSize

/-- Sets the seven bits that open the client identification. The information field grows or
shrinks with the identification, so that the client data area keeps its size as far as the
maximum of the frame allows. -/
def setRawClient (p : Pdu) (raw : UInt8) : Pdu :=
  let room := if p.frame.info.length ≤ clientOffset then p.frame.clampInfoSize shortestHeader
    else p.frame
  let marked := setOctet ⟨room⟩ clientOffset (raw &&& ClientId.idMask)
  ⟨marked.frame.clampInfoSize (headerSizeFor raw + p.dataSize)⟩

/-- The octet of an extended identification, 0 in any other. -/
def extendedId (p : Pdu) : UInt8 :=
  if p.rawClient = ClientId.extendedMarker then p.octetAt (clientOffset + 1) else 0

/-- Sets the octet of an extended identification and leaves any other as it is. -/
def setExtendedId (p : Pdu) (id : UInt8) : Pdu :=
  if p.rawClient = ClientId.extendedMarker then p.setOctet (clientOffset + 1) id else p

/-- A manufacturer's identification, all zeros in place of any other. -/
def nonStandardId (p : Pdu) : NonStandardId :=
  if p.rawClient = ClientId.nonStandardMarker then
    ⟨p.octetAt (clientOffset + 1), p.octetAt (clientOffset + 2), p.wordAt (clientOffset + 3),
      p.octetAt (clientOffset + 5)⟩
  else ⟨0, 0, 0, 0⟩

/-- Sets a manufacturer's identification and leaves any other as it is. -/
def setNonStandardId (p : Pdu) (id : NonStandardId) : Pdu :=
  if p.rawClient = ClientId.nonStandardMarker then
    (((p.setOctet (clientOffset + 1) id.country).setOctet (clientOffset + 2)
      id.countryExtension).setWord (clientOffset + 3) id.manufacturer).setOctet
      (clientOffset + 5) id.client
  else p

/-- The whole client identification. -/
def client (p : Pdu) : ClientId :=
  if p.rawClient = ClientId.extendedMarker then .extended p.extendedId
  else if p.rawClient = ClientId.nonStandardMarker then .nonStandard p.nonStandardId
  else .standard p.rawClient

/-- Sets the whole client identification. -/
def setClient (p : Pdu) (id : ClientId) : Pdu :=
  let marked := p.setRawClient id.raw
  match id with
  | .standard _ => marked
  | .extended id => marked.setExtendedId id
  | .nonStandard id => marked.setNonStandardId id

/-! ## Segmentation -/

/-- A flag of the segmentation octet. -/
inductive SegmentFlag
  /-- Begin of a segmented message. -/
  | bs
  /-- End of a segmented message. -/
  | es
  /-- The higher control bit. -/
  | c1
  /-- The lower control bit. -/
  | c0
deriving DecidableEq, Repr

/-- The bit of a flag in the segmentation octet. -/
def SegmentFlag.mask : SegmentFlag → UInt8
  | .bs => 0x80
  | .es => 0x40
  | .c1 => 0x20
  | .c0 => 0x10

/-- The bits of the segment number in the segmentation octet. -/
def segmentNumberMask : UInt8 := 0x0F

/-- The segmentation octet. -/
def segmentOctet (p : Pdu) : UInt8 := p.octetAt (segmentOffset p.rawClient)

/-- Writes the segmentation octet. -/
def setSegmentOctet (p : Pdu) (o : UInt8) : Pdu := p.setOctet (segmentOffset p.rawClient) o

/-- Whether a flag of the segmentation octet is set. -/
def segmentFlag (p : Pdu) (flag : SegmentFlag) : Bool := p.segmentOctet &&& flag.mask ≠ 0

/-- Sets or clears a flag of the segmentation octet. -/
def setSegmentFlag (p : Pdu) (flag : SegmentFlag) (v : Bool) : Pdu :=
  p.setSegmentOctet
    (if v then p.segmentOctet ||| flag.mask else p.segmentOctet &&& ~~~ flag.mask)

/-- The segment number. -/
def segmentNumber (p : Pdu) : UInt8 := p.segmentOctet &&& segmentNumberMask

/-- Sets the segment number to the low four bits of an octet. -/
def setSegmentNumber (p : Pdu) (n : UInt8) : Pdu :=
  p.setSegmentOctet (p.segmentOctet &&& ~~~ segmentNumberMask ||| n &&& segmentNumberMask)

/-! ## Client data -/

/-- The client data, empty if the header is not complete. -/
def data (p : Pdu) : Octets := p.frame.info.drop p.headerSize

/-- Writes octets into the client data from `offset` on, as far as it reaches. -/
def writeData (p : Pdu) (offset : Nat) (octets : Octets) : Pdu :=
  ⟨p.frame.writeInfo (p.headerSize + offset) octets⟩

/-- Resizes the client data area, which keeps its common part and is filled with zeros. -/
def setDataSize (p : Pdu) (size : Nat) : Except EncodeError Pdu :=
  if UInt64.size ≤ p.headerSize + size then .error (.infoTooLarge size largestData)
  else (p.frame.setInfoSize (p.headerSize + size)).map Pdu.mk

/-- Gives the PDU these client data and no others. -/
def setData (p : Pdu) (octets : Octets) : Except EncodeError Pdu :=
  (p.setDataSize octets.length).map fun p => p.writeData 0 octets

/-! ## New PDUs -/

/-- A PDU of low priority from and to every terminal, under the identification of the managing
client, with cleared segmentation octet and an area of zeros of at most `largestData` octets. -/
def ofDataSize (size : Nat) : Pdu :=
  let frame := Frame.ofSize (shortestHeader + min size largestData)
  setHighPriority ⟨{ frame with control := unnumberedInformation }⟩ false

/-- A new PDU under the given identification. -/
def forClient (id : ClientId) (size : Nat) : Pdu := (ofDataSize size).setClient id

instance : Inhabited Pdu := ⟨ofDataSize defaultDataSize⟩

end Pdu

end SimplexControl
