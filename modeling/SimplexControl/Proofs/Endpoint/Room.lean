import SimplexControl.Proofs.Endpoint.Refusals

/-!
# Room for every frame

The size bound of a frame is the one that its sums give, or 0 where one of them cannot be
represented. Octets of this number are enough wherever the frame starts, so that an endpoint in HDLC
framing sends the frame in whatever state the line is.
-/

namespace SimplexControl.Frame

open Hdlc

variable {f : Frame}

theorem encodeHdlcAt_of_sized (sized : f.hdlcSize ≠ 0) {buffer : Octets} {position : Nat}
    (room : f.hdlcSize ≤ buffer.length) (within : position < 8) :
    ∃ span, (f.encodeHdlcAt buffer position).result = .ok span := by
  obtain ⟨place, rfl⟩ : ∃ place : BitPosition, place.val = position := ⟨⟨position, within⟩, rfl⟩
  obtain ⟨_, _, written, _⟩ := encodeHdlcFrom_of_hdlcSize_le sized room place
  exact ⟨f.span place, by rw [encodeHdlcAt_val, written]⟩

theorem encodes_hdlc_of_sized (sized : f.hdlcSize ≠ 0) : f.Encodes .hdlc := by
  intro position
  obtain ⟨octets, encoded, _⟩ := toHdlcFrom_of_sized sized position
  exact ⟨_, encoded⟩

/-- No sum behind the size bound of a frame wraps. Where all of them can be represented, an encoding
has room in a buffer of this size whatever the frame is and wherever it starts, and there always are
octets of their own for it. An endpoint in HDLC framing then sends the frame whenever it transmits,
and nothing that is done to it fails in an encoding, unless the managing client has a message for
which there is no frame. -/
theorem hdlcSize_sufficient (f : Frame) :
    let checked := f.octets.length + 2
    let bits := checked * 8
    let stuffed := bits + bits / 5
    let total := stuffed + 23
    (UInt64.size ≤ checked ∨ UInt64.size ≤ bits ∨ UInt64.size ≤ stuffed ∨ UInt64.size ≤ total →
      f.hdlcSize = 0) ∧
      (total < UInt64.size →
        f.hdlcSize = (total + 7) / 8 ∧
        (∀ (buffer : Octets) (position : Nat), f.hdlcSize ≤ buffer.length → position < 8 →
          ∃ span, (f.encodeHdlcAt buffer position).result = .ok span) ∧
        (∃ octets, f.toHdlc = .ok octets) ∧
        ∀ e : Endpoint, e.config.framing = .hdlc →
          (e.transmit f).result =
            (if e.isTransmitting then .ok () else .error .transmitDisabled) ∧
          ∀ (op : Endpoint.Operation) (cause : EncodeError),
            (∀ id pdu, op = .sendPdu id pdu → pdu.frame = f) →
            (e.perform op).result = .error (.encode cause) →
              (∀ id pdu, op ≠ .sendPdu id pdu) ∧ ∃ size max, cause = .infoTooLarge size max) := by
  intro checked bits stuffed total
  have last : boundBits f.octets.length = total := rfl
  constructor
  · intro wraps
    rw [hdlcSize_eq, if_neg (by omega)]
  · intro fits
    have sized : f.hdlcSize ≠ 0 := hdlcSize_ne_zero_iff.mpr fits
    refine ⟨?_, fun buffer position => encodeHdlcAt_of_sized sized, ?_, fun e hdlc => ⟨?_, ?_⟩⟩
    · rw [hdlcSize_eq, last, if_pos fits]
    · obtain ⟨octets, _, encoded, _⟩ := toHdlc_of_sized sized
      exact ⟨octets, encoded⟩
    · apply Endpoint.result_transmit
      rw [hdlc]
      exact encodes_hdlc_of_sized sized
    · intro op cause same failed
      apply Endpoint.cause_of_unencoded _ failed
      rintro id pdu rfl
      rw [hdlc, same id pdu rfl]
      exact encodes_hdlc_of_sized sized

/-- Ones without a zero among them from the last place of an octet on, and the same frame sent by a
camera where the frame before it has ended inside an octet. -/
theorem hdlcSize_sufficient_ones :
    let pdu : Pdu := ⟨⟨0xFF, 0xFF, 0xFF, List.replicate 9 0xFF, 9⟩⟩
    let camera : Entry := ⟨.plain .cameraControl 7, false, false⟩
    let e : Endpoint := ⟨⟨.hdlc, 254⟩, ⟨[camera]⟩, some ⟨0, 3⟩, default⟩
    pdu.frame.hdlcSize = 20 ∧
      (∃ span, (pdu.frame.encodeHdlcAt (List.replicate 20 0xFF) 0).result = .ok span) ∧
      (e.transmit pdu.frame).result = .ok () ∧
      ∀ cause, (e.perform (.sendPdu .cameraControl pdu)).result ≠ .error (.encode cause) := by
  intro pdu camera e
  obtain ⟨size, room, _, sends⟩ := (hdlcSize_sufficient pdu.frame).2 (by decide)
  obtain ⟨sent, only⟩ := sends e rfl
  have size' : pdu.frame.hdlcSize = 20 := size.trans (by decide)
  refine ⟨size', room _ _ ?_ (by decide), sent, fun cause failed => ?_⟩
  · rw [size', List.length_replicate]
  · refine (only (.sendPdu .cameraControl pdu) cause ?_ failed).1 _ _ rfl
    rintro _ _ ⟨⟩
    rfl

end SimplexControl.Frame
