import SimplexControl.Frame.AnnexQ
import SimplexControl.Hdlc.Reception

/-!
# Changing a frame

Everything that can be done to a frame once it exists, as one type of edits. A refused edit
leaves the frame as it is.
-/

namespace SimplexControl.Frame

/-- A change to a frame. -/
inductive Edit
  | high (o : UInt8)
  | low (o : UInt8)
  | control (o : UInt8)
  | writeInfo (offset : Nat) (data : Octets)
  | infoSize (size : Nat)
  | decodeAnnexQ (data : Octets)
  | decodeHdlc (data : Octets)
deriving DecidableEq, Repr

/-- Why an edit is refused. -/
inductive EditError
  | encode (cause : EncodeError)
  | decode (cause : DecodeError)
deriving DecidableEq, Repr

/-- The frame that an edit makes of a frame. -/
def edit (f : Frame) : Edit → Except EditError Frame
  | .high o => .ok { f with high := o }
  | .low o => .ok { f with low := o }
  | .control o => .ok { f with control := o }
  | .writeInfo offset data => .ok (f.writeInfo offset data)
  | .infoSize size => (f.setInfoSize size).mapError .encode
  | .decodeAnnexQ data => (f.decodeAnnexQ data).mapError .decode
  | .decodeHdlc data => (f.decodeHdlc data).mapError .decode

/-- The frame after an edit that may be refused. -/
def after (f : Frame) (e : Edit) : Frame := (f.edit e).toOption.getD f

end SimplexControl.Frame
