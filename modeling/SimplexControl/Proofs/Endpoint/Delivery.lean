import SimplexControl.Proofs.Endpoint.Reachable

/-!
# From a client to its counterpart

A PDU that a client sends is one packet, wherever in an octet the frame before it ended, and the
other side hands it to the client of the identification that it names, changed in nothing but the
maximum of its frame. Everyone else is left alone.
-/

namespace SimplexControl.Endpoint

variable {a b : Endpoint} {id : ClientId} {f : Frame} {pdu : Pdu}

/-- A registered client can send every PDU that is within the limits. -/
theorem sendPdu_of_small (running : a.isTransmitting) (registered : a.registry.contains id)
    (wellFormed : pdu.WellFormed) (fits : pdu.dataSize ≤ a.config.maxData)
    (small : pdu.frame.info.length ≤ Frame.largestInfo) :
    ∃ packet, (a.sendPdu id pdu).result = .ok () ∧ (a.sendPdu id pdu).packets = [packet] ∧
      pdu.arrived.ReadFrom a.config.framing packet.payload := by
  obtain ⟨t, started⟩ := Option.isSome_iff_exists.mp running
  obtain ⟨payload, position, sent, read⟩ := transmit_of_small started wellFormed small
  have passed : a.sendPdu id pdu = a.transmit pdu.frame := by
    rw [sendPdu, registered, if_neg (by simp), if_neg (Nat.not_lt.mpr fits)]
  rw [passed, sent]
  exact ⟨_, rfl, rfl, read⟩

/-- A PDU is taken in silence, or it is a request to the managing client and the answer decides. -/
theorem onPdu_cases (e : Endpoint) (pdu : Pdu) :
    (e.onPdu pdu).result = .ok () ∧ (e.onPdu pdu).packets = [] ∨
      pdu.destination = Pdu.broadcast ∧ pdu.client = .cme ∧ ∃ code,
        pdu.data.take 2 = cmeHead code .command ∧ e.onPdu pdu = unlessDisabled (e.answer code) := by
  by_cases everyone : pdu.destination = Pdu.broadcast
  · by_cases managing : pdu.client = .cme
    · rw [onPdu_of_cme everyone managing]
      rcases onCmeMessage_cases e pdu.data with taken | request
      · exact .inl taken
      · exact .inr ⟨everyone, managing, request⟩
    · rw [onPdu_of_client everyone managing]
      exact .inl ⟨rfl, rfl⟩
  · rw [onPdu_ignored (.inl everyone)]
    exact .inl ⟨rfl, rfl⟩

/-- What a client sends reaches the client of the identification that it names, and no other. -/
theorem receive_sendPdu (reached : Reachable b) (same : b.config.framing = a.config.framing)
    (running : a.isTransmitting) (registered : a.registry.contains id)
    (accepted : Pdu.ofFrame f = .ok pdu) (fits : pdu.dataSize ≤ a.config.maxData)
    (small : f.info.length ≤ Frame.largestInfo) :
    ∃ packet inbox, (a.sendPdu id pdu).result = .ok () ∧
      (a.sendPdu id pdu).packets = [packet] ∧ inbox.frame.octets = f.octets ∧
      let got := b.receive packet.payload
      let read := { b with inbox := inbox }
      (got.result = .ok () ∨
        pdu.destination = Pdu.broadcast ∧ pdu.client = .cme ∧ ∃ code,
          pdu.data.take 2 = cmeHead code .command ∧
            got = unlessDisabled (read.answer code)) ∧
      (∀ entry, pdu.destination = Pdu.broadcast → pdu.client ≠ .cme →
        b.registry.find? pdu.client = some entry →
          got = ⟨.ok (), read, [], [entry.notice (.message inbox)]⟩) ∧
      (pdu.destination ≠ Pdu.broadcast ∨
          pdu.client ≠ .cme ∧ ¬ b.registry.contains pdu.client →
        got = ⟨.ok (), read, [], []⟩) := by
  obtain ⟨rfl, wellFormed⟩ := Pdu.ofFrame_eq_ok_iff.mp accepted
  obtain ⟨packet, done, sent, arrives⟩ :=
    sendPdu_of_small running registered wellFormed fits small
  rw [← same] at arrives
  refine ⟨packet, pdu.arrived, done, sent, rfl, ?_⟩
  dsimp only
  rw [receive_of_readFrom arrives reached.sound.inbox]
  refine ⟨(onPdu_cases _ pdu.arrived).imp_left And.left, ?_, ?_⟩
  · intro entry everyone notManaging found
    have toAll : pdu.arrived.destination = Pdu.broadcast := everyone
    have toClient : pdu.arrived.client ≠ .cme := notManaging
    have registeredThere : b.registry.find? pdu.arrived.client = some entry := found
    rw [onPdu_of_client toAll toClient, Registry.notice?, registeredThere]
    rfl
  · intro ignored
    have left : pdu.arrived.destination ≠ Pdu.broadcast ∨
        pdu.arrived.client ≠ .cme ∧ ¬ b.registry.contains pdu.arrived.client := ignored
    exact onPdu_ignored left

/-- A PDU of a camera that starts inside an octet, and a client that waits for it. -/
theorem receive_sendPdu_inside_octet :
    let camera := Client.plain .cameraControl 7
    let a := { (new .standard).after [.addClient camera] with transmitter := some ⟨0, 3⟩ }
    let b := (new .standard).after [.addClient camera]
    let pdu := Pdu.forClient .cameraControl 1
    a.isTransmitting ∧ ∃ packet inbox, (a.sendPdu .cameraControl pdu).packets = [packet] ∧
      inbox.frame.octets = pdu.frame.octets ∧
      b.receive packet.payload =
        ⟨.ok (), { b with inbox := inbox }, [], [⟨7, .message inbox⟩]⟩ := by
  intro camera a b pdu
  have running : a.isTransmitting := rfl
  have same : b.config.framing = a.config.framing := rfl
  have registered : a.registry.contains .cameraControl := by decide
  have accepted : Pdu.ofFrame pdu.frame = .ok pdu := by decide
  have waiting : b.registry.find? pdu.client = some ⟨camera, false, false⟩ := by decide
  obtain ⟨packet, inbox, _, sent, octets, _, handed, _⟩ := receive_sendPdu
    (Reachable.after (.new .standard)) same running registered accepted (by decide) (by decide)
  exact ⟨running, packet, inbox, sent, octets, handed _ (by decide) (by decide) waiting⟩

/-- A running transmission on which a request cannot be answered, for the extra capabilities of
a client are too large. -/
theorem receive_sendPdu_unanswered :
    let a := (new ⟨.annexQ, 2⟩).after [.addClient (.plain .cameraControl 0), .startTransmit 0]
    let b := (new ⟨.annexQ, 2⟩).after
      [.startTransmit 0, .addClient ⟨.cameraControl, 0, true, some [1, 2]⟩]
    let pdu := (Pdu.ofDataSize 0).after (.data [0x02, 0xFF])
    (a.isTransmitting ∧ a.registry.contains .cameraControl ∧ Pdu.ofFrame pdu.frame = .ok pdu ∧
      pdu.dataSize ≤ a.config.maxData ∧ pdu.frame.info.length ≤ Frame.largestInfo) ∧
      ∃ packet, (a.sendPdu .cameraControl pdu).packets = [packet] ∧
        (b.receive packet.payload).result = .error (.dataTooLarge 5 2) := by
  intro a b pdu
  refine ⟨by decide,
    ⟨0, [0x00, 0x0B, 0x00, 0x61, 0x03, 0, 0, 0, 0, 0, 0, 0x02, 0xFF], true⟩, ?_, ?_⟩
  · decide
  · decide

end SimplexControl.Endpoint
