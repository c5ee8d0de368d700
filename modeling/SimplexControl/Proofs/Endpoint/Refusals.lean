import SimplexControl.Proofs.Endpoint.Delivery

/-!
# Why an operation fails

What comes in is never the reason for a failure unless it cannot be decoded: at most the answer to
it fails. No operation fails in an encoding as long as the line takes the PDUs that clients send,
unless the managing client has a message for which no frame is large enough.
-/

namespace SimplexControl.Endpoint

variable {e : Endpoint}

/-! ## What comes in -/

/-- What answers a request is made up of messages. -/
theorem Composed.answer (e : Endpoint) (code : CmeCode) :
    ∃ queue, e.Composed queue (e.answer code) := by
  cases code with
  | clientList => exact ⟨_, sendClientList e⟩
  | extraCapabilities => exact ⟨_, sendExtraCapabilities e⟩

theorem OnlySends.answer (e : Endpoint) (code : CmeCode) :
    e.OnlySends (Endpoint.unlessDisabled (e.answer code)) := by
  obtain ⟨_, composed⟩ := Composed.answer e code
  exact composed.onlySends.unlessDisabled

theorem unsent_of_onCmeMessage {data : Octets} {cause : EndpointError}
    (failed : (e.onCmeMessage data).result = .error cause) : cause.Unsent := by
  rcases onCmeMessage_cases e data with ⟨taken, _⟩ | ⟨code, _, answered⟩
  · rw [taken] at failed
    cases failed
  · rw [answered] at failed
    exact (OnlySends.answer e code).unsent cause failed

/-- A PDU that comes in is never the reason for a failure, the answer to it is. -/
theorem unsent_of_onPdu {pdu : Pdu} {cause : EndpointError}
    (failed : (e.onPdu pdu).result = .error cause) : cause.Unsent := by
  rcases onPdu_cases e pdu with ⟨taken, _⟩ | ⟨_, _, code, _, answered⟩
  · rw [taken] at failed
    cases failed
  · rw [answered] at failed
    exact (OnlySends.answer e code).unsent cause failed

/-! ## Failures of an encoding -/

/-- A PDU in a frame that gets a payload is not refused by an encoding. -/
theorem sendPdu_not_unencoded {id : ClientId} {pdu : Pdu}
    (encodes : pdu.frame.Encodes e.config.framing) (cause : EncodeError) :
    (e.sendPdu id pdu).result ≠ .error (.encode cause) := by
  unfold sendPdu
  split
  · nofun
  split
  · nofun
  · rw [result_transmit encodes]
    split <;> nofun

/-- If the line takes every PDU that clients send, an encoding fails only where the managing client
has a message for which no frame is large enough, one case for each operation. -/
theorem cause_of_unencoded {op : Operation} {cause : EncodeError}
    (encodes : ∀ id pdu, op = .sendPdu id pdu → pdu.frame.Encodes e.config.framing)
    (failed : (e.perform op).result = .error (.encode cause)) :
    (∀ id pdu, op ≠ .sendPdu id pdu) ∧ ∃ size max, cause = .infoTooLarge size max := by
  have tooLarge (unsent : (EndpointError.encode cause).Unsent) :
      ∃ size max, cause = .infoTooLarge size max := by
    cases unsent
    exact ⟨_, _, rfl⟩
  have composed {queue : List Frame} {r : Reaction} (h : e.Composed queue r)
      (failed : r.result = .error (.encode cause)) : ∃ size max, cause = .infoTooLarge size max :=
    tooLarge (h.onlySends.unsent _ failed)
  cases op with
  | addClient client =>
    rw [perform, addClient] at failed
    split at failed <;> cases failed
  | removeClient id => cases failed
  | startTransmit emitter =>
    exact ⟨nofun, tooLarge ((OnlySends.startTransmit e emitter).unsent _ failed)⟩
  | stopTransmit => cases failed
  | sendClientList => exact ⟨nofun, composed (.sendClientList e) failed⟩
  | sendExtraCapabilities => exact ⟨nofun, composed (.sendExtraCapabilities e) failed⟩
  | sendExtraCapabilitiesOf id octets =>
    exact ⟨nofun, composed (.sendExtraCapabilitiesOf e id octets) failed⟩
  | requestClientList => exact ⟨nofun, composed (.message e _) failed⟩
  | requestExtraCapabilities id => exact ⟨nofun, composed (.requestExtraCapabilities e id) failed⟩
  | sendPdu id pdu => exact absurd failed (sendPdu_not_unencoded (encodes id pdu rfl) cause)
  | receive payload =>
    refine ⟨nofun, ?_⟩
    rcases read : e.inbox.decode e.config.framing payload with ⟨undecoded | _, inbox⟩
    · rw [perform, receive_of_undecoded read] at failed
      cases failed
    · rw [perform, receive_of_decoded read] at failed
      exact tooLarge (unsent_of_onPdu failed)
  | onPdu pdu => exact ⟨nofun, tooLarge (unsent_of_onPdu failed)⟩
  | onCmeMessage data => exact ⟨nofun, tooLarge (unsent_of_onCmeMessage failed)⟩
  | onClientList data =>
    rw [perform, onClientList_eq] at failed
    cases failed
  | onClientListCommand =>
    exact ⟨nofun, tooLarge ((OnlySends.answer e .clientList).unsent _ failed)⟩
  | onExtraCapabilities data =>
    rw [perform, onExtraCapabilities_eq] at failed
    split at failed <;> cases failed
  | onExtraCapabilitiesCommand =>
    exact ⟨nofun, tooLarge ((OnlySends.answer e .extraCapabilities).unsent _ failed)⟩

end SimplexControl.Endpoint
