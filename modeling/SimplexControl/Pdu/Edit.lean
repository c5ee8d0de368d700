import SimplexControl.Pdu.Basic

/-!
# Changing a PDU

Every field and the client data can be set, in any order. A refused edit leaves the PDU as it
is.
-/

namespace SimplexControl.Pdu

/-- A change to a PDU. -/
inductive Edit
  | highPriority (v : Bool)
  | destination (address : UInt16)
  | source (address : UInt16)
  | rawClient (raw : UInt8)
  | extendedId (id : UInt8)
  | nonStandardId (id : NonStandardId)
  | client (id : ClientId)
  | segmentFlag (flag : SegmentFlag) (v : Bool)
  | segmentNumber (n : UInt8)
  | dataSize (size : Nat)
  | data (octets : Octets)
  | writeData (offset : Nat) (octets : Octets)
deriving DecidableEq, Repr

/-- The PDU that an edit makes of a PDU. Only the client data can be refused. -/
def edit (p : Pdu) : Edit → Except EncodeError Pdu
  | .highPriority v => .ok (p.setHighPriority v)
  | .destination address => .ok (p.setDestination address)
  | .source address => .ok (p.setSource address)
  | .rawClient raw => .ok (p.setRawClient raw)
  | .extendedId id => .ok (p.setExtendedId id)
  | .nonStandardId id => .ok (p.setNonStandardId id)
  | .client id => .ok (p.setClient id)
  | .segmentFlag flag v => .ok (p.setSegmentFlag flag v)
  | .segmentNumber n => .ok (p.setSegmentNumber n)
  | .dataSize size => p.setDataSize size
  | .data octets => p.setData octets
  | .writeData offset octets => .ok (p.writeData offset octets)

/-- The PDU after an edit that may be refused. -/
def after (p : Pdu) (e : Edit) : Pdu := (p.edit e).toOption.getD p

end SimplexControl.Pdu
