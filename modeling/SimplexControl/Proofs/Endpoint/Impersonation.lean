import SimplexControl.Proofs.Endpoint.Emission

/-!
# The identification that a client sends under

Who sends a PDU is decided by the identification in it, and nobody compares this identification
with the one that the sending client is registered under. A client that keeps to its own leaves
what the other side knows of the clients as it is; one that takes that of the managing client can
change it.
-/

namespace SimplexControl.Endpoint

variable {a e : Endpoint} {id : ClientId} {pdu : Pdu}

/-- A PDU of a client changes nothing that is known of the clients. -/
theorem registry_onPdu (notManaging : pdu.client ≠ .cme) :
    (e.onPdu pdu).endpoint.registry = e.registry := by
  by_cases everyone : pdu.destination = Pdu.broadcast
  · rw [onPdu_of_client everyone notManaging]
    rfl
  · rw [onPdu_ignored (.inl everyone)]
    rfl

section Payload

variable {framing : Framing} {position next : Hdlc.BitPosition} {payload : Octets}

/-- A payload is read under the identification of its PDU, if it is read as a PDU at all. -/
theorem exists_read_client_iff (encoded : pdu.frame.payload framing position = .ok (payload, next))
    {inbox : Pdu} (room : inbox.frame.maxInfo = Frame.largestInfo) :
    (∃ got, inbox.decode framing payload = (.ok (), got) ∧ got.client = id) ↔
      pdu.client = id ∧ pdu.WellFormed ∧ pdu.frame.info.length ≤ Frame.largestInfo := by
  by_cases small : pdu.frame.info.length ≤ Frame.largestInfo
  · rw [Pdu.decode_of_payload encoded small room]
    constructor
    · rintro ⟨got, read, own⟩
      obtain ⟨accepted, rfl⟩ := Prod.mk.inj read
      exact ⟨own, Pdu.check_eq_ok_iff.mp accepted, small⟩
    · rintro ⟨own, wellFormed, _⟩
      exact ⟨pdu.arrived, Prod.ext (Pdu.check_eq_ok_iff.mpr wellFormed) rfl, own⟩
  · obtain ⟨cause, refused⟩ := Pdu.decode_of_payload_of_large encoded (Nat.lt_of_not_le small) room
    rw [refused]
    constructor
    · rintro ⟨got, read, _⟩
      cases read
    · exact fun given => absurd given.2.2 small

/-- A payload that is not of the managing client changes nothing that is known of the clients,
whether it is accepted or refused. -/
theorem registry_receive (encoded : pdu.frame.payload e.config.framing position = .ok (payload, next))
    (room : e.inbox.frame.maxInfo = Frame.largestInfo) (notManaging : pdu.client ≠ .cme) :
    (e.receive payload).endpoint.registry = e.registry := by
  have notManaging' : pdu.arrived.client ≠ .cme := notManaging
  rw [receive]
  by_cases small : pdu.frame.info.length ≤ Frame.largestInfo
  · rw [Pdu.decode_of_payload encoded small room]
    cases Pdu.check pdu.frame with
    | error cause => rfl
    | ok => exact registry_onPdu notManaging'
  · obtain ⟨cause, refused⟩ := Pdu.decode_of_payload_of_large encoded (Nat.lt_of_not_le small) room
    rw [refused]
    rfl

end Payload

/-- Only a registered client can send. -/
theorem contains_of_sendPdu (done : (a.sendPdu id pdu).result = .ok ()) :
    a.registry.contains id := by
  cases registered : a.registry.contains id with
  | true => rfl
  | false =>
    rw [sendPdu, registered] at done
    cases done

/-- What a client sends is read under the identification that the PDU gives, which nobody has
compared with that of the client. If it is the client's own, the other side keeps what it knows
of the clients. -/
theorem client_of_sendPdu (reached : Reachable a) (done : (a.sendPdu id pdu).result = .ok ()) :
    ∃ packet, (a.sendPdu id pdu).packets = [packet] ∧
      (∀ inbox : Pdu, inbox.frame.maxInfo = Frame.largestInfo →
        ((∃ got, inbox.decode a.config.framing packet.payload = (.ok (), got) ∧
            got.client = id) ↔
          pdu.client = id ∧ pdu.WellFormed ∧ pdu.frame.info.length ≤ Frame.largestInfo)) ∧
      (pdu.client = id → ∀ b, Reachable b → b.config.framing = a.config.framing →
        (b.receive packet.payload).endpoint.registry = b.registry) := by
  obtain ⟨t, payload, position, encoded, sent⟩ := (SendsAll.sendPdu a id pdu).packets_of_ok done
  refine ⟨_, sent, fun inbox room => exists_read_client_iff encoded room, ?_⟩
  intro own b reached' sameFraming
  have registered : id ∈ a.registry.ids := Registry.contains_iff.mp (contains_of_sendPdu done)
  have notManaging : pdu.client ≠ .cme := by
    rw [own]
    exact (reached.sound.registry.usable id registered).1
  rw [← sameFraming] at encoded
  exact registry_receive encoded reached'.sound.inbox notManaging

/-- A camera that sends as a camera, to a side that has been told of it. -/
theorem client_of_sendPdu_own :
    let camera := Client.plain .cameraControl 0
    let a := (new ⟨.annexQ, 3⟩).after [.addClient camera, .startTransmit 0]
    let b := (new ⟨.annexQ, 3⟩).after [.addClient camera, .onCmeMessage [0x01, 0x00, 1, 0x01]]
    let pdu := Pdu.forClient .cameraControl 1
    (a.sendPdu .cameraControl pdu).result = .ok () ∧ ∃ packet got,
      (a.sendPdu .cameraControl pdu).packets = [packet] ∧
      (default : Pdu).decode .annexQ packet.payload = (.ok (), got) ∧
      got.client = .cameraControl ∧
      (b.receive packet.payload).endpoint.registry.entries = [⟨camera, true, false⟩] := by
  intro camera a b pdu
  have wellFormed : pdu.WellFormed := Pdu.check_eq_ok_iff.mp (by decide)
  have done : (a.sendPdu .cameraControl pdu).result = .ok () := by decide
  have told : b.registry.entries = [⟨camera, true, false⟩] := by decide
  have framing : a.config.framing = .annexQ := by decide
  have same : b.config.framing = a.config.framing := by decide
  obtain ⟨packet, sent, read, kept⟩ :=
    client_of_sendPdu (a := a) (Reachable.after (.new ⟨.annexQ, 3⟩)) done
  obtain ⟨got, decoded, own⟩ := (read default rfl).mpr ⟨by decide, wellFormed, by decide⟩
  rw [framing] at decoded
  refine ⟨done, packet, got, sent, decoded, own, ?_⟩
  rw [kept (by decide) b (Reachable.after (.new ⟨.annexQ, 3⟩)) same, told]

/-- A camera that sends an empty client list as the managing client: the other side takes it that
there are no cameras any more. -/
theorem client_of_sendPdu_forged_list :
    let camera := Client.plain .cameraControl 0
    let a := (new ⟨.annexQ, 3⟩).after [.addClient camera, .startTransmit 0]
    let b := (new ⟨.annexQ, 3⟩).after [.addClient camera, .onCmeMessage [0x01, 0x00, 1, 0x01]]
    let pdu := (Pdu.ofDataSize 0).after (.data [0x01, 0x00, 0])
    let packet : Packet := ⟨0, [0x00, 0x0C, 0x00, 0x61, 0x03, 0, 0, 0, 0, 0, 0, 0x01, 0x00, 0], true⟩
    a.registry.contains .cameraControl ∧ Pdu.ofFrame pdu.frame = .ok pdu ∧
      (a.sendPdu .cameraControl pdu).result = .ok () ∧
      (a.sendPdu .cameraControl pdu).packets = [packet] ∧
      (default : Pdu).decode .annexQ packet.payload = (.ok (), pdu) ∧ pdu.client = .cme ∧
      b.registry.entries = [⟨camera, true, false⟩] ∧
      (b.receive packet.payload).endpoint.registry.entries = [⟨camera, false, false⟩] := by
  decide

end SimplexControl.Endpoint
