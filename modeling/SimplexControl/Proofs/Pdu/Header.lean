import SimplexControl.Pdu.Basic
import SimplexControl.Proofs.ClientId.Codec

/-!
# Header and client data

One octet of the information field decides how long the header is, and it lies in the header
itself. Resizing the client data area cuts or fills the information field behind this octet, so the
header keeps its size and the new data fit the area made for them.
-/

namespace SimplexControl.Pdu

theorem headerSizeFor_eq (first : UInt8) :
    headerSizeFor first = shortestHeader + ClientId.extensionSize first := by
  simp only [headerSizeFor, segmentOffset, clientOffset, shortestHeader]
  omega

theorem headerSizeFor_masked (first : UInt8) :
    headerSizeFor (first &&& ClientId.idMask) = headerSizeFor first := by
  rw [headerSizeFor_eq, headerSizeFor_eq, ClientId.extensionSize_masked]

theorem shortestHeader_le (first : UInt8) : shortestHeader ≤ headerSizeFor first := by
  rw [headerSizeFor_eq]
  exact Nat.le_add_right _ _

theorem headerSizeFor_le (first : UInt8) : headerSizeFor first ≤ longestHeader := by
  rw [headerSizeFor_eq, longestHeader]
  exact Nat.add_le_add_left (ClientId.extensionSize_le first) _

/-- The octet that decides the size of the header lies in it. -/
theorem clientOffset_lt_headerSize (p : Pdu) : clientOffset < p.headerSize :=
  Nat.lt_of_lt_of_le (by decide) (shortestHeader_le p.rawClient)

theorem headerSize_eq (p : Pdu) : p.headerSize = headerSizeFor (p.octetAt clientOffset) :=
  headerSizeFor_masked _

/-! ## The area behind the header -/

variable {p q : Pdu}

theorem wordAt_congr {i : Nat} (first : q.octetAt i = p.octetAt i)
    (second : q.octetAt (i + 1) = p.octetAt (i + 1)) : q.wordAt i = p.wordAt i := by
  show (q.octetAt i).toUInt16 <<< 8 ||| (q.octetAt (i + 1)).toUInt16 = _
  rw [first, second]
  rfl

/-- An octet of the header is the same wherever the information field is cut or filled behind the
header. -/
theorem octetAt_resized {i size : Nat} (inside : i < size) :
    octetAt ⟨{ p.frame with info := p.frame.info.resize size }⟩ i = p.octetAt i :=
  Octets.octetAt_resize inside

theorem headerSize_resized {size : Nat} (enough : p.headerSize ≤ size) :
    headerSize ⟨{ p.frame with info := p.frame.info.resize size }⟩ = p.headerSize := by
  have inside := Nat.lt_of_lt_of_le (clientOffset_lt_headerSize p) enough
  rw [headerSize_eq, octetAt_resized inside, ← headerSize_eq]

/-- Where the octet that opens the identification is there, it is replaced, and the area behind it
is cut or filled for the header that it asks for. -/
theorem setRawClient_eq (present : clientOffset < p.frame.info.length) (raw : UInt8) :
    p.setRawClient raw = ⟨{ p.frame with
      info := Octets.resize (p.frame.info.set clientOffset (raw &&& ClientId.idMask))
        (min (headerSizeFor raw + p.dataSize) p.frame.maxInfo) }⟩ := by
  rw [setRawClient, if_neg (Nat.not_le.mpr present)]
  rfl

/-- Client data of this size can be counted together with both headers if there is room for them. -/
def Representable (p : Pdu) (size : Nat) : Prop :=
  p.headerSize + size ≤ p.frame.maxInfo → Frame.headerSize + (p.headerSize + size) < UInt64.size

theorem representable_of_maxInfo (fits : Frame.headerSize + p.frame.maxInfo < UInt64.size)
    (size : Nat) : p.Representable size := by
  intro room
  omega

/-- Octets that lie in memory are fewer than half of the sizes, so they can always be counted
together with both headers. -/
theorem representable_of_lt_half {size : Nat} (half : size < 1 <<< 63) : p.Representable size := by
  intro _
  calc Frame.headerSize + (p.headerSize + size)
    _ ≤ Frame.headerSize + (longestHeader + 1 <<< 63) :=
      Nat.add_le_add_left (Nat.add_le_add (headerSizeFor_le p.rawClient) (Nat.le_of_lt half)) _
    _ < UInt64.size := by decide

theorem setDataSize_eq_ok_iff {size : Nat} (representable : p.Representable size) :
    p.setDataSize size = .ok q ↔
      p.headerSize + size ≤ p.frame.maxInfo ∧
        q = ⟨{ p.frame with info := p.frame.info.resize (p.headerSize + size) }⟩ := by
  rw [setDataSize]
  rcases Nat.lt_or_ge p.frame.maxInfo (p.headerSize + size) with large | room
  · rw [Frame.setInfoSize_of_lt large]
    split <;> simp [Except.map, Nat.not_le.mpr large]
  · have fits := representable room
    rw [if_neg (by omega), Frame.setInfoSize_of_le room fits]
    simp [Except.map, room, eq_comm]

/-- The area that is made for some data has their size. -/
theorem dataSize_of_setDataSize {size : Nat} (representable : p.Representable size)
    (made : p.setDataSize size = .ok q) : q.dataSize = size := by
  obtain ⟨_, rfl⟩ := (setDataSize_eq_ok_iff representable).mp made
  rw [dataSize, headerSize_resized (Nat.le_add_right _ _)]
  show (p.frame.info.resize _).length - _ = _
  rw [Octets.length_resize, Nat.add_sub_cancel_left]

/-- The PDU with other client data: the header, cut or filled to its size, and the data. -/
theorem setData_eq_ok_iff {octets : Octets} (representable : p.Representable octets.length) :
    p.setData octets = .ok q ↔
      p.headerSize + octets.length ≤ p.frame.maxInfo ∧
        q = ⟨{ p.frame with info := p.frame.info.resize p.headerSize ++ octets }⟩ := by
  have filled : writeData ⟨{ p.frame with
      info := p.frame.info.resize (p.headerSize + octets.length) }⟩ 0 octets =
      ⟨{ p.frame with info := p.frame.info.resize p.headerSize ++ octets }⟩ := by
    rw [writeData, headerSize_resized (Nat.le_add_right _ _), Nat.add_zero, Frame.writeInfo,
      Octets.overwrite_of_length (Octets.length_resize _ _), Octets.take_resize_add]
  rw [setData]
  constructor
  · intro made
    cases resized : p.setDataSize octets.length with
    | error cause =>
      rw [resized] at made
      cases made
    | ok r =>
      obtain ⟨room, rfl⟩ := (setDataSize_eq_ok_iff representable).mp resized
      rw [resized] at made
      cases made
      exact ⟨room, filled⟩
  · rintro ⟨room, rfl⟩
    rw [(setDataSize_eq_ok_iff representable).mpr ⟨room, rfl⟩]
    exact congrArg Except.ok filled

/-- A PDU does not get its data only because they are too large for it. -/
theorem cause_of_setData {octets : Octets} {cause : EncodeError}
    (refused : p.setData octets = .error cause) : ∃ size max, cause = .infoTooLarge size max := by
  rw [setData, setDataSize] at refused
  split at refused
  · cases refused
    exact ⟨_, _, rfl⟩
  · rw [Frame.setInfoSize] at refused
    split at refused
    · cases refused
      exact ⟨_, _, rfl⟩
    · cases refused

end SimplexControl.Pdu
