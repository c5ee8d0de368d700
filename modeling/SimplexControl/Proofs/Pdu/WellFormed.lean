import SimplexControl.Pdu.Decode
import SimplexControl.Pdu.Edit
import SimplexControl.Proofs.Pdu.Header

/-!
# What makes a frame a PDU, and what keeps it one

The size of the header hangs on one octet of the information field. A setter that leaves this
octet and the length alone leaves the header complete; the one that writes the octet resizes the
field for the new header, for which there is room under every maximum that the longest header
fits in. `Sound` is what all of them keep.
-/

namespace SimplexControl

namespace Pdu

variable {p q : Pdu}

/-- A frame that is a PDU. -/
structure WellFormed (p : Pdu) : Prop where
  high : p.frame.high = highAddress
  low : p.frame.low = lowPriorityAddress ∨ p.frame.low = highPriorityAddress
  control : p.frame.control = unnumberedInformation
  header : p.headerSize ≤ p.frame.info.length

/-- A header that is complete is the one that the information field asks for. -/
theorem requiredHeader_le_iff (f : Frame) :
    requiredHeader f.info ≤ f.info.length ↔ headerSize ⟨f⟩ ≤ f.info.length := by
  rw [headerSize_eq, requiredHeader, octetAt]
  split
  · next first present => rw [Octets.octetAt_of_getElem? present]
  · next absent =>
    rw [Octets.octetAt_of_le (List.getElem?_eq_none_iff.mp absent)]
    rfl

theorem check_eq_ok_iff {f : Frame} : check f = .ok () ↔ WellFormed ⟨f⟩ := by
  constructor
  · intro accepted
    unfold check at accepted
    split at accepted
    · cases accepted
    next address =>
    split at accepted
    · cases accepted
    next control =>
    split at accepted
    · cases accepted
    next header =>
    simp only [not_or, not_and, Decidable.not_not] at address control
    refine ⟨address.1, ?_, control, (requiredHeader_le_iff f).mp (Nat.not_lt.mp header)⟩
    by_cases low : f.low = lowPriorityAddress
    · exact .inl low
    · exact .inr (address.2 low)
  · rintro ⟨high, low, control, header⟩
    have address : ¬ (f.high ≠ highAddress ∨
        (f.low ≠ lowPriorityAddress ∧ f.low ≠ highPriorityAddress)) := by
      rintro (wrong | ⟨notLow, notHigh⟩)
      · exact wrong high
      · exact low.elim notLow notHigh
    have complete := (requiredHeader_le_iff f).mpr header
    rw [check, if_neg address, if_neg (not_not_intro control), if_neg (Nat.not_lt.mpr complete)]

theorem ofFrame_eq_ok_iff {f : Frame} : ofFrame f = .ok p ↔ p.frame = f ∧ p.WellFormed := by
  cases accepted : check f with
  | error cause =>
    have refused : ¬ WellFormed ⟨f⟩ := by
      rw [← check_eq_ok_iff, accepted]
      intro same
      cases same
    rw [ofFrame, accepted]
    constructor
    · intro same
      cases same
    · rintro ⟨rfl, wellFormed⟩
      exact absurd wellFormed refused
  | ok =>
    have wellFormed := check_eq_ok_iff.mp accepted
    rw [ofFrame, accepted]
    constructor
    · intro same
      cases same
      exact ⟨rfl, wellFormed⟩
    · rintro ⟨rfl, _⟩
      rfl

/-! ## Edits -/

/-- A PDU under this maximum. -/
structure Sound (maxInfo : Nat) (p : Pdu) : Prop where
  wellFormed : p.WellFormed
  maxInfo_eq : p.frame.maxInfo = maxInfo
  fits : p.frame.info.length ≤ maxInfo

namespace Sound

variable {maxInfo : Nat}

/-- Another information field for which the header is complete. -/
theorem withInfo (h : p.Sound maxInfo) {info : Octets}
    (header : headerSizeFor (info.octetAt clientOffset) ≤ info.length)
    (fits : info.length ≤ maxInfo) : Sound maxInfo ⟨{ p.frame with info := info }⟩ := by
  refine ⟨⟨h.wellFormed.high, h.wellFormed.low, h.wellFormed.control, ?_⟩, h.maxInfo_eq, fits⟩
  rw [headerSize_eq]
  exact header

theorem header (h : p.Sound maxInfo) :
    headerSizeFor (p.frame.info.octetAt clientOffset) ≤ p.frame.info.length := by
  have complete := h.wellFormed.header
  rwa [headerSize_eq] at complete

theorem clientOffset_lt (h : p.Sound maxInfo) : clientOffset < p.frame.info.length :=
  Nat.lt_of_lt_of_le (clientOffset_lt_headerSize p) h.wellFormed.header

theorem setOctet (h : p.Sound maxInfo) {offset : Nat} (other : offset ≠ clientOffset)
    (o : UInt8) : (p.setOctet offset o).Sound maxInfo := by
  apply h.withInfo
  · rw [Octets.octetAt_set_ne other, List.length_set]
    exact h.header
  · rw [List.length_set]
    exact h.fits

theorem setWord (h : p.Sound maxInfo) {offset : Nat} (first : offset ≠ clientOffset)
    (second : offset + 1 ≠ clientOffset) (w : UInt16) : (p.setWord offset w).Sound maxInfo := by
  apply h.withInfo
  · rw [Octets.octetAt_setWord_ne first second, Octets.length_setWord]
    exact h.header
  · rw [Octets.length_setWord]
    exact h.fits

theorem setHighPriority (h : p.Sound maxInfo) (v : Bool) :
    (p.setHighPriority v).Sound maxInfo := by
  refine ⟨⟨rfl, ?_, h.wellFormed.control, h.wellFormed.header⟩, h.maxInfo_eq, h.fits⟩
  cases v with
  | false => exact .inl rfl
  | true => exact .inr rfl

/-- A new identification has room for its header. -/
theorem headerSizeFor_le_room (h : p.Sound maxInfo) (room : longestHeader ≤ maxInfo) (raw : UInt8) :
    headerSizeFor raw ≤ min (headerSizeFor raw + p.dataSize) p.frame.maxInfo := by
  have longest := headerSizeFor_le raw
  rw [h.maxInfo_eq]
  omega

/-- A new identification gets a header of its size. -/
theorem setRawClient (h : p.Sound maxInfo) (room : longestHeader ≤ maxInfo) (raw : UInt8) :
    (p.setRawClient raw).Sound maxInfo := by
  have enough := h.headerSizeFor_le_room room raw
  have inside : clientOffset < min (headerSizeFor raw + p.dataSize) p.frame.maxInfo :=
    Nat.lt_of_lt_of_le (by decide) (Nat.le_trans (shortestHeader_le raw) enough)
  rw [setRawClient_eq h.clientOffset_lt]
  apply h.withInfo
  · rw [Octets.octetAt_resize inside, Octets.octetAt_set_self h.clientOffset_lt,
      headerSizeFor_masked, Octets.length_resize]
    exact enough
  · rw [Octets.length_resize, h.maxInfo_eq]
    exact Nat.min_le_right _ _

theorem setExtendedId (h : p.Sound maxInfo) (id : UInt8) : (p.setExtendedId id).Sound maxInfo := by
  unfold Pdu.setExtendedId
  split
  · exact h.setOctet (by decide) id
  · exact h

theorem setNonStandardId (h : p.Sound maxInfo) (id : NonStandardId) :
    (p.setNonStandardId id).Sound maxInfo := by
  unfold Pdu.setNonStandardId
  split
  · apply setOctet _ (by decide)
    apply setWord _ (by decide) (by decide)
    apply setOctet _ (by decide)
    exact h.setOctet (by decide) _
  · exact h

theorem setClient (h : p.Sound maxInfo) (room : longestHeader ≤ maxInfo) (id : ClientId) :
    (p.setClient id).Sound maxInfo := by
  have marked := h.setRawClient room id.raw
  cases id with
  | standard _ => exact marked
  | extended id => exact marked.setExtendedId id
  | nonStandard id => exact marked.setNonStandardId id

theorem setSegmentOctet (h : p.Sound maxInfo) (o : UInt8) :
    (p.setSegmentOctet o).Sound maxInfo := by
  apply h.setOctet
  rw [segmentOffset]
  omega

theorem writeData (h : p.Sound maxInfo) (offset : Nat) (octets : Octets) :
    (p.writeData offset octets).Sound maxInfo := by
  have before : clientOffset < p.headerSize + offset :=
    Nat.lt_add_right offset (clientOffset_lt_headerSize p)
  apply h.withInfo
  · rw [Octets.octetAt_overwrite_of_lt before, Octets.length_overwrite]
    exact h.header
  · rw [Octets.length_overwrite]
    exact h.fits

section Representable

variable (representable : Frame.headerSize + maxInfo < UInt64.size)
include representable

theorem setDataSize (h : p.Sound maxInfo) {size : Nat} (made : p.setDataSize size = .ok q) :
    q.Sound maxInfo := by
  have counted : p.Representable size :=
    representable_of_maxInfo (h.maxInfo_eq.symm ▸ representable) size
  obtain ⟨room, rfl⟩ := (setDataSize_eq_ok_iff counted).mp made
  have inside : clientOffset < p.headerSize + size :=
    Nat.lt_add_right size (clientOffset_lt_headerSize p)
  apply h.withInfo
  · rw [Octets.octetAt_resize inside, Octets.length_resize, headerSize_eq]
    exact Nat.le_add_right _ _
  · rw [Octets.length_resize, ← h.maxInfo_eq]
    exact room

theorem setData (h : p.Sound maxInfo) {octets : Octets} (made : p.setData octets = .ok q) :
    q.Sound maxInfo := by
  cases resized : p.setDataSize octets.length with
  | error cause =>
    rw [Pdu.setData, resized] at made
    cases made
  | ok r =>
    rw [Pdu.setData, resized] at made
    cases made
    exact (h.setDataSize representable resized).writeData 0 octets

/-- Every edit keeps a PDU sound, one case for each kind of edit. -/
theorem edit (h : p.Sound maxInfo) (room : longestHeader ≤ maxInfo) {e : Edit}
    (made : p.edit e = .ok q) : q.Sound maxInfo := by
  cases e with
  | highPriority v => cases made; exact h.setHighPriority v
  | destination address => cases made; exact h.setWord (by decide) (by decide) address
  | source address => cases made; exact h.setWord (by decide) (by decide) address
  | rawClient raw => cases made; exact h.setRawClient room raw
  | extendedId id => cases made; exact h.setExtendedId id
  | nonStandardId id => cases made; exact h.setNonStandardId id
  | client id => cases made; exact h.setClient room id
  | segmentFlag flag v => cases made; exact h.setSegmentOctet _
  | segmentNumber n => cases made; exact h.setSegmentOctet _
  | dataSize size => exact h.setDataSize representable made
  | data octets => exact h.setData representable made
  | writeData offset octets => cases made; exact h.writeData offset octets

/-- A refused edit leaves the PDU as it is. -/
theorem after (h : p.Sound maxInfo) (room : longestHeader ≤ maxInfo) (e : Edit) :
    (p.after e).Sound maxInfo := by
  unfold Pdu.after
  cases made : p.edit e with
  | error cause => exact h
  | ok q => exact h.edit representable room made

end Representable

end Sound

end Pdu

end SimplexControl
