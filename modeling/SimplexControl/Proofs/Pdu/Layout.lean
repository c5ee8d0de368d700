import SimplexControl.Proofs.ClientId.Codec
import SimplexControl.Proofs.Pdu.Building

/-!
# The parts of a PDU

The check of received frames, the codec of identifications and the accessors each work out for
themselves where a part lies. They agree: a frame passes the check exactly if its octets are those
of some parts one after another, and then the accessors give back these parts.
-/

namespace SimplexControl

namespace ClientId

/-- The octet of an extended identification, 0 for any other. -/
def extendedPart : ClientId → UInt8
  | .extended id => id
  | _ => 0

/-- A manufacturer's identification, all zeros in place of any other. -/
def nonStandardPart : ClientId → NonStandardId
  | .nonStandard id => id
  | _ => ⟨0, 0, 0, 0⟩

/-- A valid identification is known by its seven bits and what follows them. -/
theorem eq_of_parts {id : ClientId} (valid : id.isValid) :
    (if id.raw = extendedMarker then .extended id.extendedPart
      else if id.raw = nonStandardMarker then .nonStandard id.nonStandardPart
      else .standard id.raw) = id := by
  cases id with
  | standard n =>
    obtain ⟨raw, notExtended, notNonStandard⟩ := standard_raw valid
    rw [raw, if_neg notExtended, if_neg notNonStandard]
  | extended id => rfl
  | nonStandard id => rfl

end ClientId

namespace Pdu

/-- Where a flag lies in the segmentation octet, above the four bits of the segment number. -/
def SegmentFlag.place : SegmentFlag → Nat
  | .bs => 7
  | .es => 6
  | .c1 => 5
  | .c0 => 4

/-- The parts of a PDU in the order in which they go over the line. -/
@[ext]
structure Layout where
  /-- Whether the priority is high. -/
  highPriority : Bool
  /-- The destination address. -/
  destination : UInt16
  /-- The source address. -/
  source : UInt16
  /-- The client identification. -/
  client : ClientId
  /-- The bit of the identification that is free for other use. -/
  marked : Bool
  /-- The segmentation octet. -/
  segment : UInt8
  /-- The client data. -/
  data : Octets
  /-- The identification can be read back. -/
  readable : client.isValid

namespace Layout

variable (l : Layout) (maxInfo : Nat)

/-- What lies in front of the segmentation octet: the addresses and the identification. -/
def front : Octets :=
  Octets.ofWord l.destination ++ Octets.ofWord l.source ++ l.client.write (ClientId.mark l.marked)

/-- The information field. -/
def info : Octets := l.front ++ [l.segment] ++ l.data

/-- All octets, those of the Q.922 header first. -/
def octets : Octets := [0x00, if l.highPriority then 0x71 else 0x61, 0x03] ++ l.info

/-- The PDU of these parts in a frame with this maximum. -/
def toPdu : Pdu := ⟨⟨0x00, if l.highPriority then 0x71 else 0x61, 0x03, l.info, maxInfo⟩⟩

theorem octets_toPdu : (l.toPdu maxInfo).frame.octets = l.octets := rfl

theorem length_front : l.front.length = segmentOffset l.client.raw := by
  simp only [front, List.length_append, Octets.ofWord, List.length_cons, List.length_nil,
    ClientId.length_write l.readable, ClientId.size, segmentOffset, clientOffset]
  omega

theorem length_info : l.info.length = headerSizeFor l.client.raw + l.data.length := by
  rw [info, List.length_append, List.length_append, length_front]
  rfl

/-! ## Reading the parts -/

@[simp] theorem highPriority_toPdu : (l.toPdu maxInfo).highPriority = l.highPriority := by
  cases priority : l.highPriority <;> simp [Pdu.highPriority, toPdu, priority] <;> decide

@[simp] theorem destination_toPdu : (l.toPdu maxInfo).destination = l.destination :=
  Octets.join_ofWord l.destination

@[simp] theorem source_toPdu : (l.toPdu maxInfo).source = l.source :=
  Octets.join_ofWord l.source

@[simp] theorem rawClient_toPdu : (l.toPdu maxInfo).rawClient = l.client.raw :=
  ClientId.mark_and_idMask _ l.client

@[simp] theorem extendedId_toPdu : (l.toPdu maxInfo).extendedId = l.client.extendedPart := by
  rw [extendedId, rawClient_toPdu]
  obtain ⟨_, _, _, client, _, _, _, readable⟩ := l
  cases client with
  | standard n =>
    obtain ⟨raw, notExtended, _⟩ := ClientId.standard_raw readable
    rw [raw, if_neg notExtended]
    rfl
  | extended id => rfl
  | nonStandard id => rfl

@[simp] theorem nonStandardId_toPdu :
    (l.toPdu maxInfo).nonStandardId = l.client.nonStandardPart := by
  rw [nonStandardId, rawClient_toPdu]
  obtain ⟨_, _, _, client, _, _, _, readable⟩ := l
  cases client with
  | standard n =>
    obtain ⟨raw, _, notNonStandard⟩ := ClientId.standard_raw readable
    rw [raw, if_neg notNonStandard]
    rfl
  | extended id => rfl
  | nonStandard id => exact NonStandardId.ext rfl rfl (Octets.join_ofWord id.manufacturer) rfl

@[simp] theorem client_toPdu : (l.toPdu maxInfo).client = l.client := by
  rw [Pdu.client, rawClient_toPdu, extendedId_toPdu, nonStandardId_toPdu,
    ClientId.eq_of_parts l.readable]

@[simp] theorem segmentOctet_toPdu : (l.toPdu maxInfo).segmentOctet = l.segment := by
  have present : l.info[l.front.length]? = some l.segment := by simp [info]
  rw [segmentOctet, rawClient_toPdu, ← length_front]
  exact Octets.octetAt_of_getElem? present

@[simp] theorem headerSize_toPdu : (l.toPdu maxInfo).headerSize = headerSizeFor l.client.raw := by
  rw [headerSize, rawClient_toPdu]

@[simp] theorem data_toPdu : (l.toPdu maxInfo).data = l.data := by
  have header : (l.front ++ [l.segment]).length = headerSizeFor l.client.raw := by
    rw [List.length_append, length_front]
    rfl
  rw [Pdu.data, headerSize_toPdu]
  exact List.drop_left' header

@[simp] theorem dataSize_toPdu : (l.toPdu maxInfo).dataSize = l.data.length := by
  rw [dataSize, headerSize_toPdu]
  show l.info.length - _ = _
  rw [length_info, Nat.add_sub_cancel_left]

end Layout

/-! ## The segmentation octet -/

theorem SegmentFlag.toNat_mask (flag : SegmentFlag) : flag.mask.toNat = 1 <<< flag.place := by
  cases flag <;> rfl

theorem segmentFlag_eq (p : Pdu) (flag : SegmentFlag) :
    p.segmentFlag flag = p.segmentOctet.toNat.testBit flag.place := by
  have some : flag.mask ≠ 0 := by cases flag <;> decide
  rw [segmentFlag, and_mask flag.toNat_mask]
  cases p.segmentOctet.toNat.testBit flag.place <;> simp [some]

theorem toNat_segmentNumber (p : Pdu) :
    p.segmentNumber.toNat = p.segmentOctet.toNat % 16 := by
  rw [segmentNumber, UInt8.toNat_and]
  exact Nat.and_two_pow_sub_one_eq_mod p.segmentOctet.toNat 4

/-! ## What is accepted -/

theorem wellFormed_toPdu (l : Layout) (maxInfo : Nat) : (l.toPdu maxInfo).WellFormed := by
  refine ⟨rfl, ?_, rfl, ?_⟩
  · cases priority : l.highPriority <;> simp [Layout.toPdu, priority] <;> decide
  · rw [l.headerSize_toPdu]
    show _ ≤ l.info.length
    rw [l.length_info]
    exact Nat.le_add_right _ _

/-- An information field with a complete header begins with two words, a valid identification and
an octet for the segmentation. -/
theorem exists_parts {info : Octets}
    (complete : headerSizeFor (info.octetAt clientOffset) ≤ info.length) :
    ∃ (destination source : UInt16) (id : ClientId) (marked : Bool) (segment : UInt8)
      (data : Octets), id.isValid ∧
        info = Octets.ofWord destination ++ Octets.ofWord source ++
          id.write (ClientId.mark marked) ++ [segment] ++ data := by
  rw [headerSizeFor_eq, shortestHeader, clientOffset] at complete
  obtain ⟨d₁, d₂, s₁, s₂, first, rest, rfl⟩ :
      ∃ d₁ d₂ s₁ s₂ first rest, info = d₁ :: d₂ :: s₁ :: s₂ :: first :: rest := by
    have long : 5 ≤ info.length := by omega
    rcases info with _ | ⟨d₁, _ | ⟨d₂, _ | ⟨s₁, _ | ⟨s₂, _ | ⟨first, rest⟩⟩⟩⟩⟩ <;> simp at long
    exact ⟨d₁, d₂, s₁, s₂, first, rest, rfl⟩
  have present : 4 + 2 + ClientId.extensionSize first ≤ 5 + rest.length := by
    simp only [List.length_cons] at complete
    exact Nat.le_trans complete (by omega)
  have enough : ClientId.extensionSize first ≤ rest.length := by omega
  obtain ⟨id, marked, behind, valid, whole, count⟩ := ClientId.exists_write_append enough
  -- behind the identification the header still has room for the segmentation octet
  obtain ⟨segment, data, rfl⟩ : ∃ segment data, behind = segment :: data := by
    cases behind with
    | nil =>
      rw [List.length_nil] at count
      omega
    | cons segment data => exact ⟨segment, data, rfl⟩
  refine ⟨d₁.toUInt16 <<< 8 ||| d₂.toUInt16, s₁.toUInt16 <<< 8 ||| s₂.toUInt16, id, marked,
    segment, data, valid, ?_⟩
  rw [Octets.ofWord_join, Octets.ofWord_join, ← whole]
  simp

/-- A PDU is made up of parts. -/
theorem WellFormed.exists_layout {p : Pdu} (h : p.WellFormed) :
    ∃ l : Layout, p = l.toPdu p.frame.maxInfo := by
  obtain ⟨⟨high, low, control, info, maxInfo⟩⟩ := p
  obtain ⟨rfl, priority, rfl, header⟩ := h
  rw [headerSize_eq] at header
  obtain ⟨destination, source, client, marked, segment, data, readable, rfl⟩ :=
    exists_parts header
  let l : Layout := {
    highPriority := low = highPriorityAddress
    destination, source, client, marked, segment, data, readable }
  have address : low = if l.highPriority then 0x71 else 0x61 := by
    rcases priority with rfl | rfl <;> rfl
  refine ⟨l, ?_⟩
  rw [Layout.toPdu, ← address]
  rfl

/-- The octets of some parts are those of one PDU under each maximum. -/
theorem eq_toPdu_of_octets {f : Frame} {l : Layout} (same : f.octets = l.octets) :
    (⟨f⟩ : Pdu) = l.toPdu f.maxInfo :=
  congrArg Pdu.mk (Frame.octets_inj.mp (same.trans (l.octets_toPdu f.maxInfo).symm))

theorem wellFormed_iff_exists_layout {f : Frame} :
    WellFormed ⟨f⟩ ↔ ∃ l : Layout, f.octets = l.octets := by
  constructor
  · intro h
    obtain ⟨l, same⟩ := h.exists_layout
    exact ⟨l, congrArg (fun p => p.frame.octets) same⟩
  · rintro ⟨l, same⟩
    rw [eq_toPdu_of_octets same]
    exact wellFormed_toPdu l f.maxInfo

/-- Every accessor gives back its part. -/
structure Shows (p : Pdu) (l : Layout) : Prop where
  highPriority : p.highPriority = l.highPriority
  destination : p.destination = l.destination
  source : p.source = l.source
  rawClient : p.rawClient = l.client.raw
  client : p.client = l.client
  extendedId : p.extendedId = l.client.extendedPart
  nonStandardId : p.nonStandardId = l.client.nonStandardPart
  segmentFlag (flag : SegmentFlag) : p.segmentFlag flag = l.segment.toNat.testBit flag.place
  segmentNumber : p.segmentNumber.toNat = l.segment.toNat % 16
  data : p.data = l.data
  size : p.headerSize + p.dataSize = p.frame.info.length

theorem shows_toPdu (l : Layout) (maxInfo : Nat) : (l.toPdu maxInfo).Shows l where
  highPriority := l.highPriority_toPdu maxInfo
  destination := l.destination_toPdu maxInfo
  source := l.source_toPdu maxInfo
  rawClient := l.rawClient_toPdu maxInfo
  client := l.client_toPdu maxInfo
  extendedId := l.extendedId_toPdu maxInfo
  nonStandardId := l.nonStandardId_toPdu maxInfo
  segmentFlag flag := by rw [segmentFlag_eq, l.segmentOctet_toPdu]
  segmentNumber := by rw [toNat_segmentNumber, l.segmentOctet_toPdu]
  data := l.data_toPdu maxInfo
  size := by
    rw [l.headerSize_toPdu, l.dataSize_toPdu]
    exact l.length_info.symm

variable {q : Frame} {l : Layout}

theorem exists_ofFrame_iff :
    (∃ p, ofFrame q = .ok p) ↔ ∃ l : Layout, q.octets = l.octets := by
  rw [← wellFormed_iff_exists_layout]
  constructor
  · rintro ⟨p, taken⟩
    obtain ⟨rfl, wellFormed⟩ := ofFrame_eq_ok_iff.mp taken
    exact wellFormed
  · exact fun wellFormed => ⟨⟨q⟩, ofFrame_eq_ok_iff.mpr ⟨rfl, wellFormed⟩⟩

theorem ofFrame_of_octets (same : q.octets = l.octets) :
    ∃ p, ofFrame q = .ok p ∧ p.frame = q ∧ p.Shows l := by
  have made : (⟨q⟩ : Pdu) = l.toPdu q.maxInfo := eq_toPdu_of_octets same
  refine ⟨⟨q⟩, ofFrame_eq_ok_iff.mpr ⟨rfl, ?_⟩, rfl, ?_⟩
  · rw [made]
    exact wellFormed_toPdu l q.maxInfo
  · rw [made]
    exact shows_toPdu l q.maxInfo

/-- Received octets are refused with the frame, or the frame is held and checked. -/
theorem accepted_decode_iff {inbox : Pdu} {framing : Framing} {data : Octets} :
    (inbox.decode framing data).1 = .ok () ↔
      ∃ f, inbox.frame.decode framing data = .ok f ∧ ∃ l : Layout, f.octets = l.octets := by
  cases read : inbox.frame.decode framing data with
  | error cause =>
    rw [decode, read]
    constructor
    · intro accepted
      cases accepted
    · rintro ⟨f, found, _⟩
      cases found
  | ok f =>
    rw [decode_of_frame read, check_eq_ok_iff, wellFormed_iff_exists_layout]
    constructor
    · exact fun layout => ⟨f, rfl, layout⟩
    · rintro ⟨_, found, layout⟩
      cases found
      exact layout

/-- A frame is taken as a PDU exactly if its octets are those of some parts, and the accessors of
the PDU give back these parts. Octets that are received are accepted exactly if a frame is found in
them that is such a one, and then it is this frame that is held. -/
theorem accepts_exactly_layouts (q : Frame) :
    ((∃ p, ofFrame q = .ok p) ↔ ∃ l : Layout, q.octets = l.octets) ∧
      (∀ l : Layout, q.octets = l.octets → ∃ p, ofFrame q = .ok p ∧ p.frame = q ∧ p.Shows l) ∧
      ∀ (inbox : Pdu) (framing : Framing) (data : Octets),
        ((inbox.decode framing data).1 = .ok () ↔
          ∃ f, inbox.frame.decode framing data = .ok f ∧ ∃ l : Layout, f.octets = l.octets) ∧
        ∀ f, inbox.frame.decode framing data = .ok f → (inbox.decode framing data).2 = ⟨f⟩ := by
  refine ⟨exists_ofFrame_iff, fun l same => ofFrame_of_octets same, ?_⟩
  intro inbox framing data
  refine ⟨accepted_decode_iff, fun f read => ?_⟩
  rw [decode_of_frame read]

/-- A client of a manufacturer whose free bit is set, as a frame and as received octets. -/
theorem accepts_exactly_layouts_marked :
    let l : Layout := ⟨true, 0x1234, 0xABCD, .nonStandard ⟨0xB5, 0x00, 0x1234, 0x07⟩, true, 0x9A,
      [0x55], rfl⟩
    let q : Frame := ⟨0x00, 0x71, 0x03,
      [0x12, 0x34, 0xAB, 0xCD, 0xFF, 0xB5, 0x00, 0x12, 0x34, 0x07, 0x9A, 0x55], 12⟩
    q.octets = l.octets ∧ (∃ p, ofFrame q = .ok p ∧ p.frame = q ∧ p.Shows l) ∧
      ((default : Pdu).decode .annexQ q.annexQ).1 = .ok () ∧
      ((default : Pdu).decode .annexQ (q.annexQ.take 13)).1 ≠ .ok () := by
  intro l q
  have same : q.octets = l.octets := by decide
  obtain ⟨_, shown, received⟩ := accepts_exactly_layouts q
  have read : (default : Pdu).frame.decode .annexQ q.annexQ =
      .ok { q with maxInfo := Frame.largestInfo } := by decide
  refine ⟨same, shown l same, (received default .annexQ q.annexQ).1.mpr ⟨_, read, l, same⟩, ?_⟩
  decide

end Pdu

end SimplexControl
