import SimplexControl.Proofs.Framing
import SimplexControl.Proofs.Pdu.WellFormed

/-!
# PDUs that are built and edited

Whatever is done to a new PDU, it stays one: its frame passes the check of received frames, and
in both framings it arrives as it was sent, at whatever the receiver has read into before.
-/

namespace SimplexControl.Pdu

/-- A PDU that has been made and then edited, with refused edits among the others. -/
inductive Built : Pdu → Prop
  | ofSize (size : Nat) : Built (ofDataSize size)
  | standard : Built default
  | ofClient (id : ClientId) (size : Nat) : Built (forClient id size)
  | edited {p : Pdu} (h : Built p) (e : Edit) : Built (p.after e)

theorem longestHeader_le_largestInfo : longestHeader ≤ Frame.largestInfo := by decide

theorem sound_ofDataSize (size : Nat) : (ofDataSize size).Sound Frame.largestInfo := by
  have length : (ofDataSize size).frame.info.length =
      min (shortestHeader + min size largestData) Frame.largestInfo := List.length_replicate
  have first : (ofDataSize size).octetAt clientOffset = 0 := by
    simp only [octetAt, Octets.octetAt, ofDataSize, setHighPriority, Frame.ofSize,
      List.getD_eq_getElem?_getD, List.getElem?_replicate]
    split <;> rfl
  refine ⟨⟨rfl, .inl rfl, rfl, ?_⟩, rfl, ?_⟩
  · have shortest : headerSizeFor 0 = shortestHeader := by decide
    have room : shortestHeader ≤ Frame.largestInfo := by decide
    rw [headerSize_eq, first, shortest, length]
    omega
  · rw [length]
    exact Nat.min_le_right _ _

theorem Built.sound {p : Pdu} (h : Built p) : p.Sound Frame.largestInfo := by
  induction h with
  | ofSize size => exact sound_ofDataSize size
  | standard => exact sound_ofDataSize defaultDataSize
  | ofClient id size => exact (sound_ofDataSize size).setClient longestHeader_le_largestInfo id
  | edited _ e ih => exact ih.after (by decide) longestHeader_le_largestInfo e

/-! ## Reading -/

theorem decode_of_frame {p : Pdu} {framing : Framing} {data : Octets} {f : Frame}
    (read : p.frame.decode framing data = .ok f) : p.decode framing data = (check f, ⟨f⟩) := by
  rw [decode, read]

theorem maxInfo_decode (p : Pdu) (framing : Framing) (data : Octets) :
    (p.decode framing data).2.frame.maxInfo = p.frame.maxInfo := by
  cases read : p.frame.decode framing data with
  | error cause => rw [decode, read]
  | ok f =>
    rw [decode_of_frame read]
    exact (Frame.maxInfo_of_decode read).1

/-- The PDU after octets have been read into it one after another, with refused ones among the
others. -/
def afterReading (p : Pdu) (received : List (Framing × Octets)) : Pdu :=
  received.foldl (fun p data => (p.decode data.1 data.2).2) p

theorem maxInfo_afterReading (received : List (Framing × Octets)) : ∀ p : Pdu,
    (p.afterReading received).frame.maxInfo = p.frame.maxInfo := by
  induction received with
  | nil => intro p; rfl
  | cons data received ih =>
    intro p
    rw [afterReading, List.foldl_cons, ← afterReading, ih, maxInfo_decode]

/-- A PDU as it is read under the largest maximum. -/
def arrived (p : Pdu) : Pdu := ⟨{ p.frame with maxInfo := Frame.largestInfo }⟩

theorem WellFormed.arrived {p : Pdu} (h : p.WellFormed) : p.arrived.WellFormed :=
  ⟨h.high, h.low, h.control, h.header⟩

/-- The payload is read as the PDU, whatever was read before under the largest maximum. -/
def ReadFrom (p : Pdu) (framing : Framing) (payload : Octets) : Prop :=
  ∀ inbox : Pdu, inbox.frame.maxInfo = Frame.largestInfo →
    inbox.decode framing payload = (.ok (), p)

/-- Where the frame of a PDU is read, the PDU is. -/
theorem WellFormed.readFrom {p : Pdu} (h : p.WellFormed)
    (small : p.frame.info.length ≤ Frame.largestInfo) {framing : Framing} {payload : Octets}
    (read : ∀ g : Frame, framing.Allows g.maxInfo → p.frame.info.length ≤ g.maxInfo →
      g.decode framing payload = .ok { p.frame with maxInfo := g.maxInfo }) :
    p.arrived.ReadFrom framing payload := by
  intro inbox same
  have allowed : framing.Allows inbox.frame.maxInfo := same ▸ framing.allows_largestInfo
  have frame := read inbox.frame allowed (by rw [same]; exact small)
  rw [decode_of_frame frame, same]
  exact congrArg (·, p.arrived) (check_eq_ok_iff.mpr h.arrived)

variable {p inbox : Pdu} {framing : Framing} {position next : Hdlc.BitPosition} {payload : Octets}

/-- A payload is read as its PDU, accepted or not, by everyone who has room for its frame. -/
theorem decode_of_payload (encoded : p.frame.payload framing position = .ok (payload, next))
    (small : p.frame.info.length ≤ Frame.largestInfo)
    (same : inbox.frame.maxInfo = Frame.largestInfo) :
    inbox.decode framing payload = (check p.frame, p.arrived) := by
  have allowed : framing.Allows inbox.frame.maxInfo := same ▸ framing.allows_largestInfo
  have read := Frame.decode_of_payload encoded allowed (by rw [same]; exact small)
  rw [decode_of_frame read, same]
  rfl

/-- A payload whose frame is too large is refused, and nothing is done with it. -/
theorem decode_of_payload_of_large
    (encoded : p.frame.payload framing position = .ok (payload, next))
    (large : Frame.largestInfo < p.frame.info.length)
    (same : inbox.frame.maxInfo = Frame.largestInfo) :
    ∃ cause, inbox.decode framing payload = (.error (.frame cause), inbox) := by
  have allowed : framing.Allows inbox.frame.maxInfo := same ▸ framing.allows_largestInfo
  obtain ⟨cause, read⟩ :=
    Frame.decode_of_payload_of_large encoded allowed (by rw [same]; exact large)
  exact ⟨cause, by rw [decode, read]⟩

theorem Sound.arrived_eq {p : Pdu} (h : p.Sound Frame.largestInfo) : p.arrived = p := by
  rw [Pdu.arrived, ← h.maxInfo_eq]

/-- A PDU that has been built is one, and arrives in both framings as it is. -/
theorem Built.decode_encoded {p : Pdu} (built : Built p) (received : List (Framing × Octets)) :
    let q := afterReading default received
    ofFrame p.frame = .ok p ∧
      (∃ octets, p.frame.toAnnexQ = .ok octets ∧ q.decode .annexQ octets = (.ok (), p)) ∧
      ∃ octets, p.frame.toHdlc = .ok octets ∧ q.decode .hdlc octets = (.ok (), p) := by
  intro q
  have sound := built.sound
  have same : q.frame.maxInfo = Frame.largestInfo := maxInfo_afterReading received default
  refine ⟨ofFrame_eq_ok_iff.mpr ⟨rfl, sound.wellFormed⟩, ?_, ?_⟩
  · obtain ⟨octets, encoded, read⟩ := Frame.decode_toAnnexQ sound.fits
    have whole := sound.wellFormed.readFrom sound.fits (fun g _ => read g) q same
    rw [sound.arrived_eq] at whole
    exact ⟨octets, encoded, whole⟩
  · obtain ⟨octets, encoded, read⟩ := Frame.decode_toHdlc sound.fits
    have whole := sound.wellFormed.readFrom sound.fits read q same
    rw [sound.arrived_eq] at whole
    exact ⟨octets, encoded, whole⟩

/-- An identification that cannot be read back, then another one and a refused size, sent to a
receiver that has refused a frame. -/
theorem Built.decode_encoded_renamed :
    let p := ((forClient (.standard 0xFF) 1).after (.rawClient 0x7E)).after (.dataSize 70000)
    let q := afterReading default [(.annexQ, [0x00, 0x03, 0x00, 0x00, 0x00])]
    p.frame.info = [0, 0, 0, 0, 0x7E, 0, 0, 0] ∧ q ≠ default ∧
      ∃ octets, p.frame.toHdlc = .ok octets ∧ q.decode .hdlc octets = (.ok (), p) := by
  intro p q
  have built : Built p := .edited (.edited (.ofClient (.standard 0xFF) 1) _) _
  have read := built.decode_encoded [(.annexQ, [0x00, 0x03, 0x00, 0x00, 0x00])]
  exact ⟨by decide, by decide, read.2.2⟩

end SimplexControl.Pdu
