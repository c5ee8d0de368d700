import SimplexControl.Frame.Basic

/-!
# Annex Q framing

Where the transport delimits frames itself, a frame goes out as a big-endian length of two
octets that counts header and information field, followed by these octets. Nothing may come
after them.
-/

namespace SimplexControl

namespace Frame

/-- The number of octets of the length field. -/
def annexQLengthSize : Nat := 2

/-- The size of a frame with its length field. -/
def annexQSize (f : Frame) : Nat := annexQLengthSize + f.octets.length

/-- A frame behind its length field. -/
def annexQ (f : Frame) : Octets :=
  Octets.ofWord (UInt16.ofNat f.octets.length) ++ f.octets

/-- Writes the frame to the start of a buffer and answers with the number of octets written. A
refused call leaves the buffer as it is. -/
def encodeAnnexQ (f : Frame) (buffer : Octets) : Written Nat :=
  if 65535 < f.octets.length then
    ⟨.error (.infoTooLarge f.info.length largestInfo), buffer⟩
  else if buffer.length < f.annexQSize then
    ⟨.error (.bufferTooSmall f.annexQSize buffer.length), buffer⟩
  else ⟨.ok f.annexQSize, f.annexQ ++ buffer.drop f.annexQSize⟩

/-- The frame in octets of its own. -/
def toAnnexQ (f : Frame) : Except EncodeError Octets :=
  let written := f.encodeAnnexQ (List.replicate f.annexQSize 0)
  written.result.map written.buffer.take

/-- Reads a frame that fills `data` exactly. -/
def decodeAnnexQ (f : Frame) (data : Octets) : Except DecodeError Frame :=
  let declared := (data.wordAt 0).toNat
  let body := data.drop annexQLengthSize
  if data.length < annexQLengthSize + headerSize then .error (.truncated data.length)
  else if declared < headerSize then .error (.frameTooShort declared)
  else if declared ≠ body.length then .error (.lengthMismatch declared body.length)
  else f.load body

theorem length_annexQ (f : Frame) : f.annexQ.length = f.annexQSize := by
  simp [annexQ, annexQSize, Octets.ofWord, annexQLengthSize]
  omega

end Frame

end SimplexControl
