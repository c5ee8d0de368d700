import SimplexControl.Frame.AnnexQ
import SimplexControl.Hdlc.Reception
import SimplexControl.Pdu.Basic

/-!
# Receiving PDUs

A frame is a PDU if its address octets and its control field are those of the protocol and if
its information field holds the whole header that the client identification asks for.
-/

namespace SimplexControl

/-- Why received octets are not taken as a PDU. -/
inductive PduError
  | frame (cause : DecodeError)
  | invalidAddress (high low : UInt8)
  | invalidControl (control : UInt8)
  | headerTruncated (required available : Nat)
deriving DecidableEq, Repr

/-- The words for an error in a PDU. -/
def PduError.message : PduError → String
  | .frame cause =>
    let inner := cause.message
    s!"Q.922 decode failed: {inner}"
  | .invalidAddress high low =>
    let h := hexDigits 2 high.toNat
    let l := hexDigits 2 low.toNat
    s!"invalid H.224 address octets 0x{h} 0x{l}"
  | .invalidControl control =>
    let c := hexDigits 2 control.toNat
    s!"invalid H.224 control field 0x{c}"
  | .headerTruncated required available =>
    s!"H.224 header needs {required} octets, information field has {available}"

/-- The error of a frame that lies behind one of a PDU. -/
def PduError.cause? : PduError → Option DecodeError
  | .frame cause => some cause
  | _ => none

/-- The ways in which a frame goes over the line. -/
inductive Framing
  /-- Between flags, with stuffed bits and a check sequence. -/
  | hdlc
  /-- Behind a length, for transports that delimit frames. -/
  | annexQ
deriving DecidableEq, Repr

/-- Reads the frame that `data` hold in the given framing. -/
def Frame.decode (f : Frame) : Framing → Octets → Except DecodeError Frame
  | .hdlc, data => f.decodeHdlc data
  | .annexQ, data => f.decodeAnnexQ data

namespace Pdu

/-- The header that an information field asks for by the octet that opens its identification. -/
def requiredHeader (info : Octets) : Nat :=
  match info[clientOffset]? with
  | some first => headerSizeFor first
  | none => shortestHeader

/-- Checks that a frame is a PDU: first the address, then the control field, then the header. -/
def check (f : Frame) : Except PduError Unit :=
  if f.high ≠ highAddress ∨ (f.low ≠ lowPriorityAddress ∧ f.low ≠ highPriorityAddress) then
    .error (.invalidAddress f.high f.low)
  else if f.control ≠ unnumberedInformation then .error (.invalidControl f.control)
  else if f.info.length < requiredHeader f.info then
    .error (.headerTruncated (requiredHeader f.info) f.info.length)
  else .ok ()

/-- Takes a frame as a PDU. -/
def ofFrame (f : Frame) : Except PduError Pdu := (check f).map fun _ => ⟨f⟩

/-- Reads the PDU that `data` hold. If no frame is found the PDU stays as it is; a frame that is
found is loaded also when it turns out to be no PDU. -/
def decode (p : Pdu) (framing : Framing) (data : Octets) : Except PduError Unit × Pdu :=
  match p.frame.decode framing data with
  | .error cause => (.error (.frame cause), p)
  | .ok frame => (check frame, ⟨frame⟩)

end Pdu

end SimplexControl
