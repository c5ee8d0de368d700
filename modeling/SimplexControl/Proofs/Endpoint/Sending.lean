import SimplexControl.Endpoint.Transmission
import SimplexControl.Proofs.Framing
import SimplexControl.Proofs.Pdu.Building
import SimplexControl.Proofs.Pdu.Managing

/-!
# What goes out

Whatever an endpoint sends leaves everything as it was except for its transmission. A frame that
is not too large goes out in one packet, whatever the place at which the frame before it ended,
and everyone with room for the frame reads it from the payload.
-/

namespace SimplexControl

/-! ## Operations in turn -/

namespace Reaction

variable {r : Reaction} {next : Endpoint → Reaction}

theorem andThen_of_error {cause : EndpointError} (failed : r.result = .error cause) :
    r.andThen next = r := by
  rw [andThen, failed]

theorem andThen_of_ok (done : r.result = .ok ()) :
    r.andThen next = ⟨(next r.endpoint).result, (next r.endpoint).endpoint,
      r.packets ++ (next r.endpoint).packets, r.notices ++ (next r.endpoint).notices⟩ := by
  rw [andThen, done]

/-- What is true of the packets of each operation is true of those of both. -/
theorem packets_andThen {Q : Packet → Prop} (first : ∀ p ∈ r.packets, Q p)
    (second : ∀ p ∈ (next r.endpoint).packets, Q p) : ∀ p ∈ (r.andThen next).packets, Q p := by
  cases done : r.result with
  | error cause => rwa [andThen_of_error done]
  | ok =>
    rw [andThen_of_ok done]
    exact List.forall_mem_append.mpr ⟨first, second⟩

/-- Two operations succeed together exactly if each of them does. -/
theorem result_andThen_iff : (r.andThen next).result = .ok () ↔
    r.result = .ok () ∧ (next r.endpoint).result = .ok () := by
  cases first : r.result with
  | error cause =>
    rw [andThen_of_error first, first]
    constructor
    · intro done
      cases done
    · rintro ⟨done, _⟩
      cases done
  | ok =>
    rw [andThen_of_ok first]
    exact ⟨fun done => ⟨rfl, done⟩, And.right⟩

end Reaction

namespace Endpoint

variable {e : Endpoint}

/-! ## What sending keeps -/

/-- The second endpoint is the first with another transmission, or none. -/
structure SameButTransmission (e e' : Endpoint) : Prop where
  config : e'.config = e.config
  registry : e'.registry = e.registry
  inbox : e'.inbox = e.inbox

namespace SameButTransmission

theorem refl (e : Endpoint) : SameButTransmission e e := ⟨rfl, rfl, rfl⟩

theorem trans {e₁ e₂ e₃ : Endpoint} (first : SameButTransmission e₁ e₂)
    (second : SameButTransmission e₂ e₃) : SameButTransmission e₁ e₃ :=
  ⟨second.config.trans first.config, second.registry.trans first.registry,
    second.inbox.trans first.inbox⟩

end SameButTransmission

theorem transmit_same (e : Endpoint) (f : Frame) :
    SameButTransmission e (e.transmit f).endpoint := by
  unfold transmit
  split
  · exact .refl e
  · split
    · exact .refl e
    · exact ⟨rfl, rfl, rfl⟩

theorem transmitCme_same (e : Endpoint) (data : Octets) :
    SameButTransmission e (e.transmitCme data).endpoint := by
  unfold transmitCme
  split
  · exact .refl e
  · exact transmit_same e _

theorem sendPdu_same (e : Endpoint) (id : ClientId) (pdu : Pdu) :
    SameButTransmission e (e.sendPdu id pdu).endpoint := by
  unfold sendPdu
  split
  · exact .refl e
  · split
    · exact .refl e
    · exact transmit_same e _

/-! ## The packet of a PDU -/

variable {t : Transmitter} {pdu : Pdu} {message : Octets}

/-- The frame of a PDU that is not too large gets a packet from which the PDU is read. -/
theorem transmit_of_small (running : e.transmitter = some t) (wellFormed : pdu.WellFormed)
    (small : pdu.frame.info.length ≤ Frame.largestInfo) :
    ∃ payload position,
      e.transmit pdu.frame =
        ⟨.ok (), { e with transmitter := some ⟨t.emitter, position⟩ },
          [⟨t.emitter, payload, true⟩], []⟩ ∧
      pdu.arrived.ReadFrom e.config.framing payload := by
  obtain ⟨payload, position, encoded, read⟩ :=
    Frame.decode_payload small e.config.framing t.position
  refine ⟨payload, position, ?_, wellFormed.readFrom small read⟩
  simp only [transmit, running, encoded]

theorem transmit_of_ok {f : Frame} (done : (e.transmit f).result = .ok ()) :
    ∃ t, e.transmitter = some t := by
  cases running : e.transmitter with
  | some t => exact ⟨t, rfl⟩
  | none =>
    rw [transmit, running] at done
    cases done

/-- A message of the managing client that is sent at all is one packet. -/
theorem transmitCme_of_ok (done : (e.transmitCme message).result = .ok ()) :
    ∃ payload, (e.transmitCme message).packets.map Packet.payload = [payload] ∧
      (Pdu.cme message).ReadFrom e.config.framing payload := by
  unfold transmitCme at done ⊢
  cases made : Pdu.ofCme message with
  | error cause =>
    rw [made] at done
    cases done
  | ok pdu =>
    rw [made] at done
    obtain ⟨rfl, small⟩ := Pdu.ofCme_eq_ok_iff.mp made
    obtain ⟨t, running⟩ := transmit_of_ok done
    obtain ⟨payload, position, sent, read⟩ :=
      transmit_of_small running (Pdu.wellFormed_cme message) small
    refine ⟨payload, ?_, read⟩
    show (e.transmit (Pdu.cme message).frame).packets.map Packet.payload = [payload]
    rw [sent]
    rfl

end Endpoint

end SimplexControl
