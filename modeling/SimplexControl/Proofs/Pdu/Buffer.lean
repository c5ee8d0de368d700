import SimplexControl.Pdu.Edit
import SimplexControl.Proofs.Frame.Buffer
import SimplexControl.Proofs.Pdu.Header

/-!
# Giving data to a PDU in one buffer

In memory data are given in two steps. The information field is resized for them, and then they are
copied over the area behind the header, which fails unless the area has their size. It always has,
and where the resizing is refused nothing is copied, so the buffer comes to that of `Pdu.after`.
-/

namespace SimplexControl

/-- The size of the header of the PDU in an information field. -/
def Pdu.headerSizeIn (info : Octets) : Nat :=
  headerSizeFor (info.octetAt clientOffset &&& ClientId.idMask)

namespace FrameBuffer

/-- The information field, which lies behind a header that has to be there. -/
def info? (b : FrameBuffer) : Option Octets :=
  if Frame.headerSize ≤ b.octets.length then some (b.octets.drop Frame.headerSize) else none

/-- Makes room for client data of this size. -/
def setDataSize (b : FrameBuffer) (size : Nat) :
    Option (Except EncodeError Unit × FrameBuffer) := do
  let info ← b.info?
  match representable (Pdu.headerSizeIn info + size) with
  | none => some (.error (.infoTooLarge size Pdu.largestData), b)
  | some total => some (b.setInfoSize total)

/-- Copies data over the client data, which have to be as many. -/
def copyData (b : FrameBuffer) (data : Octets) : Option FrameBuffer := do
  let info ← b.info?
  let header := Pdu.headerSizeIn info
  if (info.drop header).length = data.length then
    some { b with octets := b.octets.take (Frame.headerSize + header) ++ data }
  else none

/-- Gives the PDU in the buffer these client data and no others. -/
def setData (b : FrameBuffer) (data : Octets) :
    Option (Except EncodeError Unit × FrameBuffer) := do
  match ← b.setDataSize data.length with
  | (.error cause, b) => some (.error cause, b)
  | (.ok (), b) => (b.copyData data).map (.ok (), ·)

end FrameBuffer

namespace Pdu

variable {p : Pdu} {octets : Octets}

theorem info?_buffer (f : Frame) : f.buffer.info? = some f.info := by
  have header : Frame.headerSize ≤ f.octets.length := by
    rw [Frame.length_octets]
    exact Nat.le_add_right _ _
  exact if_pos header

theorem setDataSize_buffer {size : Nat} (representable : p.Representable size) :
    p.frame.buffer.setDataSize size =
      some (p.frame.answered ((p.setDataSize size).map Pdu.frame)) := by
  have same : headerSizeIn p.frame.info = p.headerSize := rfl
  rw [FrameBuffer.setDataSize, info?_buffer, Option.bind_eq_bind, Option.bind_some, same]
  by_cases wide : UInt64.size ≤ p.headerSize + size
  · rw [setDataSize, if_pos wide, representable_of_le wide]
    rfl
  · have unwrapped : (p.setDataSize size).map Pdu.frame =
        p.frame.setInfoSize (p.headerSize + size) := by
      rw [setDataSize, if_neg wide]
      cases p.frame.setInfoSize (p.headerSize + size) <;> rfl
    rw [representable_of_lt (Nat.not_le.mp wide), unwrapped,
      ← Frame.setInfoSize_buffer p.frame representable]

/-- Behind the header there is as much room as has been made. -/
theorem copyData_buffer {r : Pdu}
    (size : r.frame.info.length = r.headerSize + octets.length) :
    r.frame.buffer.copyData octets = some (r.writeData 0 octets).frame.buffer := by
  have same : headerSizeIn r.frame.info = r.headerSize := rfl
  have room : (r.frame.info.drop r.headerSize).length = octets.length := by
    rw [List.length_drop, size, Nat.add_sub_cancel_left]
  have front : r.frame.octets.take (Frame.headerSize + r.headerSize) =
      r.frame.high :: r.frame.low :: r.frame.control :: r.frame.info.take r.headerSize := by
    rw [Frame.headerSize, Nat.add_comm]
    rfl
  rw [FrameBuffer.copyData, info?_buffer, Option.bind_eq_bind, Option.bind_some]
  dsimp only
  rw [same, if_pos room, writeData, Nat.add_zero, Frame.writeInfo,
    Octets.overwrite_of_length size]
  exact congrArg (fun front => some (FrameBuffer.mk (front ++ octets) r.frame.maxInfo)) front

/-- In the buffer of its frame a PDU is given its data without fail. -/
theorem setData_buffer (representable : p.Representable octets.length) :
    p.frame.buffer.setData octets =
      some ((p.setData octets).map fun _ => (), (p.after (.data octets)).frame.buffer) := by
  rw [FrameBuffer.setData, setDataSize_buffer representable, Option.bind_eq_bind, Option.bind_some]
  cases resized : p.setDataSize octets.length with
  | error cause =>
    rw [after, edit, setData, resized]
    rfl
  | ok r =>
    have header : r.headerSize = p.headerSize := by
      obtain ⟨_, rfl⟩ := (setDataSize_eq_ok_iff representable).mp resized
      exact headerSize_resized (Nat.le_add_right _ _)
    have size : r.frame.info.length = r.headerSize + octets.length := by
      obtain ⟨_, rfl⟩ := (setDataSize_eq_ok_iff representable).mp resized
      rw [header]
      exact Octets.length_resize _ _
    have copied := copyData_buffer size
    rw [after, edit, setData, resized]
    show (r.frame.buffer.copyData octets).map _ = _
    rw [copied]
    rfl

end Pdu

end SimplexControl
