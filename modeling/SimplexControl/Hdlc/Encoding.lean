import SimplexControl.Hdlc.BitWriter
import SimplexControl.Size

/-!
# Frames in HDLC framing

A frame may start at any bit of an octet, so frames can be packed without a gap: the answer of
an encoding tells where the next frame may start. `Frame.hdlcSize` bounds the octets that a
frame takes wherever it starts.
-/

namespace SimplexControl

namespace Hdlc

/-- The room that an encoded frame takes in its buffer. -/
structure Span where
  /-- The octets that it touches, a partly filled last one included. -/
  size : Nat
  /-- Where the next frame may start: 7 past a full octet, else a place in the last one. -/
  position : BitPosition
deriving DecidableEq, Repr

/-- The number of octets that are complete at the end of a span. -/
def Span.advance (s : Span) : Nat := if s.position = octetAligned then s.size else s.size - 1

/-- The octets that suffice for content of `n` octets: its bits and those of the check sequence
with a stuffed zero for each five of them, two flags, and seven bits before the start. There is
no bound if one of these sums cannot be represented. -/
def sizeBound (n : Nat) : Option Nat := do
  let checked ← representable (n + 2)
  let bits ← representable (checked * 8)
  let stuffed ← representable (bits + bits / stuffAfter)
  let total ← representable (stuffed + 23)
  return (total + 7) / 8

end Hdlc

namespace Frame

open Hdlc

/-- A number of octets that suffices for the frame, or 0 if it cannot be represented. -/
def hdlcSize (f : Frame) : Nat := (sizeBound f.octets.length).getD 0

/-- Writes the frame from a place of the first octet of a buffer on. If the buffer is too small
it has been filled with as much of the frame as fits. -/
def encodeHdlcFrom (f : Frame) (buffer : Octets) (position : BitPosition) : Written Span :=
  let opened := (BitWriter.start buffer position).pushFlag
  let w := ((Fcs.sealed f.octets).foldl BitWriter.pushOctet opened).pushFlag
  let result :=
    if w.exhausted then .error (.bufferTooSmall f.hdlcSize buffer.length)
    else .ok ⟨w.size, w.position⟩
  ⟨result, w.onto buffer⟩

/-- Writes the frame from bit `position` on; there are eight. -/
def encodeHdlcAt (f : Frame) (buffer : Octets) (position : Nat) : Written Span :=
  if h : position < 8 then f.encodeHdlcFrom buffer ⟨position, h⟩
  else ⟨.error (.invalidBitPosition position), buffer⟩

/-- Writes the frame to the start of a buffer and answers with the number of octets used. -/
def encodeHdlc (f : Frame) (buffer : Octets) : Written Nat :=
  let written := f.encodeHdlcFrom buffer octetAligned
  ⟨written.result.map Span.size, written.buffer⟩

/-- The frame in octets of its own, from a place of the first of them on. -/
def toHdlcFrom (f : Frame) (position : BitPosition) : Except EncodeError (Octets × BitPosition) :=
  let written := f.encodeHdlcFrom (List.replicate f.hdlcSize 0) position
  written.result.map fun span => (written.buffer.take span.size, span.position)

/-- The frame in octets of its own. -/
def toHdlc (f : Frame) : Except EncodeError Octets := (f.toHdlcFrom octetAligned).map Prod.fst

end Frame

namespace Hdlc

/-- The octets in use when packing has come to a bit of the first octet of what is left. -/
def occupied (buffer : Octets) (position : Nat) : Octets :=
  if position = octetAligned.val then [] else buffer.take 1

/-- Packs frames one after another, each from the bit at which the one before has ended, and
gives the answers and the octets in use. The first refusal ends the packing. -/
def pack : List Frame → Octets → Nat → List (Except EncodeError Span) × Octets
  | [], buffer, position => ([], occupied buffer position)
  | f :: frames, buffer, position =>
    let written := f.encodeHdlcAt buffer position
    match written.result with
    | .error e => ([.error e], occupied written.buffer position)
    | .ok span =>
      let rest := pack frames (written.buffer.drop span.advance) span.position
      (.ok span :: rest.1, written.buffer.take span.advance ++ rest.2)

end Hdlc

end SimplexControl
