import SimplexControl.Frame.Edit
import SimplexControl.Proofs.Framing
import SimplexControl.Proofs.Hdlc.Bounds

/-!
# A frame in one buffer

A frame lies in memory as its octets in a row, header first, beside its maximum. What is done to it
there indexes into the buffer and takes the size of the header from that of the buffer, so it fails
where an octet is not there or a size would be below zero. This never happens to the buffer of a
frame, which comes to what `Frame.edit` makes of the frame, refused or not. Only a size that cannot
be counted together with the header leaves a buffer that is not that of a frame.
-/

namespace SimplexControl

open Hdlc

/-- A frame as it lies in memory. -/
structure FrameBuffer where
  /-- The header and the information field. -/
  octets : Octets
  /-- The largest information field that resizing and decoding allow. -/
  maxInfo : Nat
deriving DecidableEq, Repr

namespace FrameBuffer

/-- Sets the octet at a place, which has to be there. -/
def setOctet (b : FrameBuffer) (place : Nat) (o : UInt8) : Option FrameBuffer :=
  if place < b.octets.length then some { b with octets := b.octets.set place o } else none

/-- Writes octets behind the header, which has to be there. -/
def writeInfo (b : FrameBuffer) (offset : Nat) (data : Octets) : Option FrameBuffer :=
  if Frame.headerSize ≤ b.octets.length then
    some { b with octets := b.octets.take Frame.headerSize ++
      Octets.overwrite (b.octets.drop Frame.headerSize) offset data }
  else none

/-- Makes room for an information field of this size, unless the maximum forbids it. The sum of the
sizes wraps around. -/
def setInfoSize (b : FrameBuffer) (size : Nat) : Except EncodeError Unit × FrameBuffer :=
  if b.maxInfo < size then (.error (.infoTooLarge size b.maxInfo), b)
  else (.ok (), { b with octets := b.octets.resize (wrapped (Frame.headerSize + size)) })

/-- Makes room in the same way where the program stops instead. -/
def setInfoSizeChecked (b : FrameBuffer) (size : Nat) :
    Option (Except EncodeError Unit × FrameBuffer) :=
  if b.maxInfo < size then some (.error (.infoTooLarge size b.maxInfo), b)
  else (representable (Frame.headerSize + size)).map fun total =>
    (.ok (), { b with octets := b.octets.resize total })

/-- Takes over received content, which has to hold a header. -/
def load (b : FrameBuffer) (content : Octets) :
    Option (Except DecodeError Unit × FrameBuffer) := do
  let size ← difference? content.length Frame.headerSize
  if b.maxInfo < size then some (.error (.infoTooLarge size b.maxInfo), b)
  else some (.ok (), { b with octets := content })

/-- Reads a frame that fills `data` exactly. -/
def decodeAnnexQ (b : FrameBuffer) (data : Octets) :
    Option (Except DecodeError Unit × FrameBuffer) :=
  let declared := (data.wordAt 0).toNat
  let body := data.drop Frame.annexQLengthSize
  if data.length < Frame.annexQLengthSize + Frame.headerSize then
    some (.error (.truncated data.length), b)
  else if declared < Frame.headerSize then some (.error (.frameTooShort declared), b)
  else if declared ≠ body.length then some (.error (.lengthMismatch declared body.length), b)
  else b.load body

/-- Reads the first frame found in `data`. -/
def decodeHdlc (b : FrameBuffer) (data : Octets) :
    Option (Except DecodeError Unit × FrameBuffer) :=
  match (Deframer.new b.maxInfo).feedUntilItem (lineBits data) with
  | (_, some (.ok content)) => b.load content
  | (_, some (.error cause)) => some (.error cause, b)
  | (d, none) => some (.error (if d.sawFlag then .incompleteFrame else .noFlag), b)

/-- Makes an edit, and gives its answer and the frame afterwards. -/
def edit (b : FrameBuffer) : Frame.Edit → Option (Except Frame.EditError Unit × FrameBuffer)
  | .high o => (b.setOctet 0 o).map (.ok (), ·)
  | .low o => (b.setOctet 1 o).map (.ok (), ·)
  | .control o => (b.setOctet 2 o).map (.ok (), ·)
  | .writeInfo offset data => (b.writeInfo offset data).map (.ok (), ·)
  | .infoSize size => some ((b.setInfoSize size).map (·.mapError .encode) id)
  | .decodeAnnexQ data => (b.decodeAnnexQ data).map (·.map (·.mapError .decode) id)
  | .decodeHdlc data => (b.decodeHdlc data).map (·.map (·.mapError .decode) id)

/-- Makes edits one after another, whether they are refused or not. -/
def editAll (b : FrameBuffer) (edits : List Frame.Edit) : Option FrameBuffer :=
  edits.foldlM (fun b e => (b.edit e).map Prod.snd) b

variable {b : FrameBuffer} {size : Nat}

theorem setInfoSize_of_lt (large : b.maxInfo < size) :
    b.setInfoSize size = (.error (.infoTooLarge size b.maxInfo), b) := if_pos large

theorem setInfoSize_of_le (room : size ≤ b.maxInfo) :
    b.setInfoSize size =
      (.ok (), { b with octets := b.octets.resize (wrapped (Frame.headerSize + size)) }) :=
  if_neg (Nat.not_lt.mpr room)

/-- It makes no difference what becomes of a sum that fits. -/
theorem setInfoSizeChecked_eq
    (representable : size ≤ b.maxInfo → Frame.headerSize + size < UInt64.size) :
    b.setInfoSizeChecked size = some (b.setInfoSize size) := by
  rcases Nat.lt_or_ge b.maxInfo size with large | room
  · rw [setInfoSize_of_lt large]
    exact if_pos large
  · rw [setInfoSize_of_le room, setInfoSizeChecked, if_neg (Nat.not_lt.mpr room),
      representable_of_lt (representable room), wrapped_of_lt (representable room)]
    rfl

/-- A size that cannot be counted together with the header cuts the header, or stops the program. -/
theorem setInfoSize_cuts_header (room : size ≤ b.maxInfo) (word : size < UInt64.size)
    (large : UInt64.size ≤ Frame.headerSize + size) :
    b.setInfoSizeChecked size = none ∧
      ∃ cut, b.setInfoSize size = (.ok (), cut) ∧ cut.octets.length < Frame.headerSize := by
  refine ⟨?_, _, setInfoSize_of_le room, ?_⟩
  · rw [setInfoSizeChecked, if_neg (Nat.not_lt.mpr room), representable_of_le large]
    rfl
  · rw [Octets.length_resize]
    exact wrapped_lt_of_le word large

end FrameBuffer

namespace Frame

/-- The frame in memory. -/
def buffer (f : Frame) : FrameBuffer := ⟨f.octets, f.maxInfo⟩

/-- What a call answers, and the buffer that it leaves. -/
def answered {ε : Type} (f : Frame) (made : Except ε Frame) : Except ε Unit × FrameBuffer :=
  (made.map fun _ => (), (made.toOption.getD f).buffer)

variable {f : Frame}

theorem answered_mapError {ε ε' : Type} (f : Frame) (made : Except ε Frame) (word : ε → ε') :
    f.answered (made.mapError word) = (f.answered made).map (·.mapError word) id := by
  cases made <;> rfl

theorem setInfoSize_buffer (f : Frame) {size : Nat}
    (representable : size ≤ f.maxInfo → headerSize + size < UInt64.size) :
    f.buffer.setInfoSize size = f.answered (f.setInfoSize size) := by
  rcases Nat.lt_or_ge f.maxInfo size with large | room
  · rw [setInfoSize_of_lt large]
    exact FrameBuffer.setInfoSize_of_lt (b := f.buffer) large
  · have octets : f.buffer.octets.resize (headerSize + size) = _ := f.resize_octets size
    have fits := representable room
    rw [setInfoSize_of_le room fits, FrameBuffer.setInfoSize_of_le (b := f.buffer) room,
      wrapped_of_lt fits, octets]
    rfl

/-- Content with a header is loaded without fail. -/
theorem load_buffer (f : Frame) {content : Octets} (header : headerSize ≤ content.length) :
    f.buffer.load content = some (f.answered (f.load content)) := by
  match content, header with
  | high :: low :: control :: info, header =>
    rw [FrameBuffer.load, difference?_of_le header, load]
    show (if f.maxInfo < info.length then _ else _) = _
    split <;> rfl

theorem decodeAnnexQ_buffer (f : Frame) (data : Octets) :
    f.buffer.decodeAnnexQ data = some (f.answered (f.decodeAnnexQ data)) := by
  dsimp only [FrameBuffer.decodeAnnexQ, decodeAnnexQ]
  split
  · rfl
  next whole =>
  split
  · rfl
  split
  · rfl
  · refine f.load_buffer ?_
    rw [List.length_drop]
    omega

/-- What a deframer accepts holds a header. -/
theorem decodeHdlc_buffer (f : Frame) (data : Octets) :
    f.buffer.decodeHdlc data = some (f.answered (f.decodeHdlc data)) := by
  have first := Deframer.feedUntilItem_snd (Deframer.new f.maxInfo) (lineBits data)
  have same : f.buffer.maxInfo = f.maxInfo := rfl
  rw [FrameBuffer.decodeHdlc, decodeHdlc, same]
  rcases taken : (Deframer.new f.maxInfo).feedUntilItem (lineBits data) with
    ⟨d, none | cause | content⟩
  · rfl
  · rfl
  · rw [taken] at first
    have yielded := Deframer.reached_new.yielded_feed _ _ (List.mem_of_head? first.symm)
    exact f.load_buffer yielded.headerSize_le

/-- Under this maximum no size is asked for that cannot be counted together with the header. -/
def Edit.Representable (maxInfo : Nat) : Edit → Prop
  | .infoSize size => size ≤ maxInfo → headerSize + size < UInt64.size
  | _ => True

instance (maxInfo : Nat) : DecidablePred (Edit.Representable maxInfo)
  | .infoSize _ => inferInstanceAs (Decidable (_ → _))
  | .high _ | .low _ | .control _ | .writeInfo _ _ | .decodeAnnexQ _ | .decodeHdlc _ =>
    inferInstanceAs (Decidable True)

/-- In the buffer of a frame every edit has its octets, and comes to the same as for the frame. -/
theorem edit_buffer (f : Frame) {e : Edit} (representable : e.Representable f.maxInfo) :
    f.buffer.edit e = some ((f.edit e).map fun _ => (), (f.after e).buffer) := by
  show _ = some (f.answered (f.edit e))
  cases e with
  | high o => rfl
  | low o => rfl
  | control o => rfl
  | writeInfo offset data => rfl
  | infoSize size =>
    rw [FrameBuffer.edit, setInfoSize_buffer f representable, edit, answered_mapError]
  | decodeAnnexQ data =>
    rw [FrameBuffer.edit, decodeAnnexQ_buffer, edit, answered_mapError]
    rfl
  | decodeHdlc data =>
    rw [FrameBuffer.edit, decodeHdlc_buffer, edit, answered_mapError]
    rfl

theorem mapError_eq_ok_iff {α ε ε' : Type} {result : Except ε α} {word : ε → ε'} {a : α} :
    result.mapError word = .ok a ↔ result = .ok a := by
  cases result <;> simp [Except.mapError]

/-- Nothing changes the maximum. -/
theorem maxInfo_edit {g : Frame} {e : Edit} (done : f.edit e = .ok g) : g.maxInfo = f.maxInfo := by
  cases e with
  | high o | low o | control o | writeInfo offset data =>
    cases done
    rfl
  | infoSize size =>
    have made := mapError_eq_ok_iff.mp done
    rw [setInfoSize] at made
    split at made
    · cases made
    · cases made
      rfl
  | decodeAnnexQ data =>
    have read : f.decode .annexQ data = .ok g := mapError_eq_ok_iff.mp done
    exact (maxInfo_of_decode read).1
  | decodeHdlc data =>
    have read : f.decode .hdlc data = .ok g := mapError_eq_ok_iff.mp done
    exact (maxInfo_of_decode read).1

theorem after_of_ok {g : Frame} {e : Edit} (done : f.edit e = .ok g) : f.after e = g := by
  rw [after, done]
  rfl

/-- A refused edit changes nothing. -/
theorem after_of_error {e : Edit} {cause : EditError} (refused : f.edit e = .error cause) :
    f.after e = f := by
  rw [after, refused]
  rfl

theorem maxInfo_after (f : Frame) (e : Edit) : (f.after e).maxInfo = f.maxInfo := by
  cases done : f.edit e with
  | error cause => rw [after_of_error done]
  | ok g => rw [after_of_ok done, maxInfo_edit done]

theorem editAll_buffer (edits : List Edit) : ∀ f : Frame,
    (∀ e ∈ edits, e.Representable f.maxInfo) →
    f.buffer.editAll edits = some (edits.foldl Frame.after f).buffer := by
  induction edits with
  | nil => exact fun _ _ => rfl
  | cons e edits ih =>
    intro f representable
    obtain ⟨first, later⟩ := List.forall_mem_cons.mp representable
    rw [FrameBuffer.editAll, List.foldlM_cons, edit_buffer f first]
    exact ih (f.after e) ((maxInfo_after f e).symm ▸ later)

end Frame

end SimplexControl
