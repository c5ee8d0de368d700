import SimplexControl.Proofs.Pdu.Fields

/-!
# Giving a PDU another identification

The area of client data moves with the identification and keeps its size where the new header
leaves room for it. Where it does not, the area is cut to the maximum of the frame, and the setter
has no answer that could tell.
-/

namespace SimplexControl

namespace Pdu

variable {p : Pdu} {maxInfo : Nat}

namespace Sound

/-! ## The octet that opens the identification -/

theorem length_setRawClient (h : p.Sound maxInfo) (raw : UInt8) :
    (p.setRawClient raw).frame.info.length = min (headerSizeFor raw + p.dataSize) maxInfo := by
  rw [setRawClient_eq h.clientOffset_lt, ← h.maxInfo_eq]
  exact Octets.length_resize _ _

/-- The octets up to the one that opens the identification, this one included. -/
theorem octetAt_setRawClient (h : p.Sound maxInfo) (room : longestHeader ≤ maxInfo) (raw : UInt8)
    {i : Nat} (inside : i ≤ clientOffset) :
    (p.setRawClient raw).octetAt i =
      Octets.octetAt (p.frame.info.set clientOffset (raw &&& ClientId.idMask)) i := by
  have enough := h.headerSizeFor_le_room room raw
  have shortest := shortestHeader_le raw
  rw [setRawClient_eq h.clientOffset_lt]
  apply Octets.octetAt_resize
  rw [shortestHeader] at shortest
  omega

theorem rawClient_setRawClient (h : p.Sound maxInfo) (room : longestHeader ≤ maxInfo)
    (raw : UInt8) : (p.setRawClient raw).rawClient = raw &&& ClientId.idMask := by
  rw [rawClient, h.octetAt_setRawClient room raw (Nat.le_refl _),
    Octets.octetAt_set_self h.clientOffset_lt]
  exact ClientId.and_idMask_of_lt (ClientId.and_idMask_lt raw)

/-- The area keeps its size as far as the new header leaves room. -/
theorem dataSize_setRawClient (h : p.Sound maxInfo) (room : longestHeader ≤ maxInfo)
    (raw : UInt8) :
    (p.setRawClient raw).dataSize = min p.dataSize (maxInfo - headerSizeFor raw) := by
  rw [dataSize, headerSize, h.rawClient_setRawClient room, headerSizeFor_masked,
    h.length_setRawClient]
  omega

theorem wordAt_setRawClient (h : p.Sound maxInfo) (room : longestHeader ≤ maxInfo) (raw : UInt8)
    {i : Nat} (inside : i + 1 < clientOffset) : (p.setRawClient raw).wordAt i = p.wordAt i := by
  have kept (j : Nat) (before : j < clientOffset) : (p.setRawClient raw).octetAt j = p.octetAt j := by
    rw [h.octetAt_setRawClient room raw (Nat.le_of_lt before)]
    exact Octets.octetAt_set_ne (Nat.ne_of_gt before) _
  exact wordAt_congr (kept i (Nat.lt_of_succ_lt inside)) (kept (i + 1) inside)

theorem highPriority_setRawClient (h : p.Sound maxInfo) (raw : UInt8) :
    (p.setRawClient raw).highPriority = p.highPriority := by
  rw [setRawClient_eq h.clientOffset_lt]
  rfl

end Sound

/-! ## The whole identification -/

/-- The parts with another identification. -/
def Layout.withClient (l : Layout) {id : ClientId} (valid : id.isValid) : Layout :=
  { l with client := id, readable := valid }

/-- Behind the octet that opens an identification its other octets are set, one case for each kind
of identification. -/
theorem Layout.setClient_of_setRawClient {l : Layout} {id : ClientId} (valid : id.isValid)
    (raw : l.client.raw = id.raw) (opened : p.setRawClient id.raw = l.toPdu maxInfo) :
    p.setClient id = (l.withClient valid).toPdu maxInfo := by
  cases id with
  | standard n =>
    obtain ⟨own, notExtended, notNonStandard⟩ := ClientId.standard_raw valid
    rw [own] at raw
    have client : l.client = .standard n := by
      rw [← ClientId.eq_of_parts l.readable, raw, if_neg notExtended, if_neg notNonStandard]
    have same : l.withClient valid = l := Layout.ext rfl rfl rfl client.symm rfl rfl rfl
    rw [same]
    exact opened
  | extended id =>
    obtain ⟨old, client⟩ := (ClientId.raw_eq_extendedMarker_iff l.readable).mp raw
    have same : l.withClient valid = l.setField .extendedId id := by
      refine Layout.ext rfl rfl rfl ?_ rfl rfl rfl
      show _ = l.client.withExtendedPart id
      rw [client]
      rfl
    rw [same, ← l.setExtendedId_toPdu, ← opened]
    rfl
  | nonStandard id =>
    obtain ⟨old, client⟩ := (ClientId.raw_eq_nonStandardMarker_iff l.readable).mp raw
    have same : l.withClient valid = l.setField .nonStandardId id := by
      refine Layout.ext rfl rfl rfl ?_ rfl rfl rfl
      show _ = l.client.withNonStandardPart id
      rw [client]
      rfl
    rw [same, ← l.setNonStandardId_toPdu, ← opened]
    rfl

/-- A renamed PDU has the parts that it had, apart from the identification and the area of client
data, which is cut to the room behind the new header. -/
theorem Sound.exists_setClient (h : p.Sound maxInfo) (room : longestHeader ≤ maxInfo)
    {id : ClientId} (valid : id.isValid) :
    ∃ l : Layout, p.setClient id = l.toPdu maxInfo ∧ l.client = id ∧
      l.highPriority = p.highPriority ∧ l.destination = p.destination ∧ l.source = p.source ∧
      l.data.length = min p.dataSize (maxInfo - headerSizeFor id.raw) := by
  have sound := h.setRawClient room id.raw
  obtain ⟨l, opened⟩ := sound.wellFormed.exists_layout
  rw [sound.maxInfo_eq] at opened
  have raw : l.client.raw = id.raw := by
    rw [← l.rawClient_toPdu maxInfo, ← opened, h.rawClient_setRawClient room,
      ClientId.and_idMask_of_lt id.raw_lt]
  refine ⟨l.withClient valid, Layout.setClient_of_setRawClient valid raw opened, rfl, ?_⟩
  show l.highPriority = _ ∧ l.destination = _ ∧ l.source = _ ∧ l.data.length = _
  rw [← l.highPriority_toPdu maxInfo, ← l.destination_toPdu maxInfo, ← l.source_toPdu maxInfo,
    ← l.dataSize_toPdu maxInfo, ← opened]
  exact ⟨h.highPriority_setRawClient id.raw, h.wordAt_setRawClient room id.raw (by decide),
    h.wordAt_setRawClient room id.raw (by decide), h.dataSize_setRawClient room id.raw⟩

theorem Sound.dataSize_setClient (h : p.Sound maxInfo) (room : longestHeader ≤ maxInfo)
    {id : ClientId} (valid : id.isValid) :
    (p.setClient id).dataSize = min p.dataSize (maxInfo - headerSizeFor id.raw) := by
  obtain ⟨l, made, _, _, _, _, size⟩ := h.exists_setClient room valid
  rw [made, l.dataSize_toPdu, size]

/-- A PDU that has been built takes every identification that can be read back, and its priority
and addresses stay. The area of client data is cut to the room behind the new header, so it keeps
its size exactly if header and data fit in a frame, as they do with any area that fits behind
every header. -/
theorem Built.setClient_keeps_iff_fits (built : Built p) {id : ClientId} (valid : id.isValid) :
    let q := p.setClient id
    q.client = id ∧ q.highPriority = p.highPriority ∧ q.destination = p.destination ∧
      q.source = p.source ∧ q.headerSize = headerSizeFor id.raw ∧
      q.dataSize = min p.dataSize (Frame.largestInfo - q.headerSize) ∧
      (q.dataSize = p.dataSize ↔ q.headerSize + p.dataSize ≤ Frame.largestInfo) ∧
      (p.dataSize ≤ largestData → q.dataSize = p.dataSize) := by
  obtain ⟨l, made, client, priority, destination, source, size⟩ :=
    built.sound.exists_setClient longestHeader_le_largestInfo valid
  have longest : headerSizeFor id.raw ≤ longestHeader := headerSizeFor_le id.raw
  have room := longestHeader_le_largestInfo
  simp only [made, Layout.client_toPdu, Layout.highPriority_toPdu, Layout.destination_toPdu,
    Layout.source_toPdu, Layout.headerSize_toPdu, Layout.dataSize_toPdu, client, size]
  refine ⟨trivial, priority, destination, source, trivial, trivial, ?_, ?_⟩
  · omega
  · intro small
    rw [largestData] at small
    omega

/-- A PDU of high priority with two octets of data under a client of a manufacturer. Under a shorter
identification the area of two octets begins where octets of the longer one were. -/
theorem Built.setClient_keeps_iff_fits_nonStandard :
    let id : ClientId := .nonStandard ⟨0xB5, 0x00, 0x1234, 0x07⟩
    let p := ((ofDataSize 2).after (.highPriority true)).after (.source 0xABCD)
    let q := p.setClient id
    Built p ∧ id.isValid ∧ q.client = id ∧ q.highPriority = true ∧ q.source = 0xABCD ∧
      q.dataSize = 2 ∧ (q.setClient (.extended 0x42)).frame.info =
        [0, 0, 0xAB, 0xCD, 0x7E, 0x42, 0x00, 0x12, 0x34] := by
  intro id p q
  have built : Built p := .edited (.edited (.ofSize 2) _) _
  have valid : id.isValid := rfl
  obtain ⟨client, priority, _, source, _, _, _, keeps⟩ := built.setClient_keeps_iff_fits valid
  have small : p.dataSize ≤ largestData := by decide
  exact ⟨built, valid, client, priority.trans (by decide), source.trans (by decide),
    (keeps small).trans (by decide), by decide⟩

/-- The largest area that a PDU of the managing client takes does not fit behind the header of an
extended client: one octet of it is lost. -/
theorem Built.setClient_loses_octet :
    let p := (ofDataSize 0).after (.dataSize 65526)
    (ofDataSize 0).setDataSize 65526 = .ok p ∧ Built p ∧ p.dataSize = 65526 ∧
      (ClientId.extended 1).isValid ∧ (p.setClient (.extended 1)).dataSize = 65525 := by
  intro p
  have header : (ofDataSize 0).headerSize = 6 := by decide
  have representable : (ofDataSize 0).Representable 65526 :=
    representable_of_maxInfo (by decide) 65526
  obtain ⟨q, given⟩ : ∃ q, (ofDataSize 0).setDataSize 65526 = .ok q :=
    ⟨_, (setDataSize_eq_ok_iff representable).mpr ⟨by rw [header]; decide, rfl⟩⟩
  have made : p = q := by
    show (ofDataSize 0).after _ = q
    rw [after, edit, given]
    rfl
  have built : Built p := .edited (.ofSize 0) _
  have size : p.dataSize = 65526 := made ▸ dataSize_of_setDataSize representable given
  have cut := built.sound.dataSize_setClient longestHeader_le_largestInfo
    (rfl : (ClientId.extended 1).isValid)
  rw [size] at cut
  exact ⟨made ▸ given, built, size, rfl, cut.trans (by decide)⟩

end Pdu

end SimplexControl
