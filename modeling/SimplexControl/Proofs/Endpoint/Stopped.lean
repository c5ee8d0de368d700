import SimplexControl.Proofs.Endpoint.Refusals
import SimplexControl.Proofs.Endpoint.Starting

/-!
# Requests while transmission is stopped

A request that comes in while transmission is stopped is to be ignored: its answer cannot be sent,
and that is made a success. But an answer can also fail because it is too large, and for extra
capabilities this is looked at first. So it hangs on the first client that has some whether a
request for them is ignored or fails. Nothing is sent and nothing changes either way.
-/

namespace SimplexControl.Endpoint

variable {e : Endpoint} {payload : Octets} {code : CmeCode}

/-- The payload is read as a request to the managing client that is for everyone. -/
def Requests (e : Endpoint) (payload : Octets) (code : CmeCode) : Prop :=
  ∃ pdu, e.inbox.decode e.config.framing payload = (.ok (), pdu) ∧
    pdu.destination = Pdu.broadcast ∧ pdu.client = .cme ∧ pdu.data.take 2 = cmeHead code .command

/-- The extra capabilities that would be sent first are not too large. -/
def FirstSendable (e : Endpoint) : Prop :=
  ∀ c ∈ e.registry.extraCapabilities.head?, Sendable e.config c.1 c.2

/-! ## Answers -/

theorem result_unlessDisabled {r : Reaction} : (unlessDisabled r).result = .ok () ↔
    r.result = .ok () ∨ r.result = .error .transmitDisabled := by
  unfold unlessDisabled
  split
  · next disabled => simp [disabled]
  · next enabled => exact ⟨.inl, fun done => done.resolve_right (enabled ·)⟩

theorem doAll_of_error {first : Endpoint → Reaction} {later : List (Endpoint → Reaction)}
    {cause : EndpointError} (failed : (first e).result = .error cause) :
    e.doAll (first :: later) = first e := Reaction.andThen_of_error failed

theorem sendClientList_of_stopped (stopped : e.transmitter = none) :
    e.sendClientList = e.refuse .transmitDisabled := if_pos (by simp [stopped])

/-- Extra capabilities are refused for want of a transmission only if the first of them could be
sent. If there are none nothing is refused. -/
theorem sendExtraCapabilities_of_stopped (sound : e.registry.Sound)
    (stopped : e.transmitter = none) :
    e.sendExtraCapabilities.result = .ok () ∨
        e.sendExtraCapabilities.result = .error .transmitDisabled ↔ e.FirstSendable := by
  unfold sendExtraCapabilities FirstSendable
  cases present : e.registry.extraCapabilities with
  | nil => exact ⟨fun _ => nofun, fun _ => .inl rfl⟩
  | cons c caps =>
    obtain ⟨id, octets⟩ := c
    have first : (id, octets) ∈ e.registry.extraCapabilities := present ▸ List.mem_cons_self
    obtain ⟨_, entry, found, announced⟩ := sound.of_mem_extraCapabilities first
    have sendable : (e.sendExtraCapabilitiesOf id octets).result = e.lineResult ↔
        Sendable e.config id octets := sendExtraCapabilitiesOf_eq_lineResult_iff found announced
    rw [lineResult_of_stopped stopped] at sendable
    -- Where nothing is sent the first of them fails, and all of them with it.
    have sends := (Composed.sendExtraCapabilitiesOf e id octets).sendsAll
    cases result : (e.sendExtraCapabilitiesOf id octets).result with
    | ok =>
      have sent := sends.complete.mp result
      rw [(sends.idle stopped).1] at sent
      cases sent
    | error cause =>
      rw [List.map_cons, doAll_of_error result]
      simp [← sendable, result]

theorem result_answer_of_stopped (sound : e.registry.Sound) (stopped : e.transmitter = none) :
    (unlessDisabled (e.answer code)).result = .ok () ↔
      (code = .extraCapabilities → e.FirstSendable) := by
  rw [result_unlessDisabled]
  cases code with
  | clientList =>
    have disabled : (e.answer .clientList).result = .error .transmitDisabled := by
      rw [answer, sendClientList_of_stopped stopped]
      rfl
    exact ⟨fun _ => nofun, fun _ => .inr disabled⟩
  | extraCapabilities =>
    rw [answer, sendExtraCapabilities_of_stopped sound stopped]
    exact ⟨fun able _ => able, fun able => able rfl⟩

/-! ## Payloads -/

theorem exists_requests (room : e.inbox.frame.maxInfo = Frame.largestInfo) (code : CmeCode) :
    ∃ payload, e.Requests payload code := by
  have small : (Pdu.cme (cmeHead code .command)).frame.info.length ≤ Frame.largestInfo := by
    rw [Pdu.length_info_cme]
    exact (by decide : 6 + 2 ≤ Frame.largestInfo)
  obtain ⟨payload, _, _, read⟩ :=
    Frame.decode_payload small e.config.framing Hdlc.octetAligned
  have read := (Pdu.wellFormed_cme (cmeHead code .command)).readFrom small read
  refine ⟨payload, _, read e.inbox room, Pdu.destination_cme _, Pdu.client_cme _, ?_⟩
  show (Pdu.cme (cmeHead code .command)).data.take 2 = _
  rw [Pdu.data_cme]
  rfl

/-- A request does nothing but what answering it does. -/
theorem receive_of_requests (request : e.Requests payload code) :
    ∃ inbox, e.receive payload = unlessDisabled ({ e with inbox := inbox }.answer code) := by
  obtain ⟨pdu, read, everyone, managing, head⟩ := request
  refine ⟨pdu, ?_⟩
  rw [receive_of_decoded read, onPdu_of_cme everyone managing, onCmeMessage, head]
  cases code <;> rfl

/-- What is received is taken, or it cannot be decoded, or it is a request. -/
theorem receive_cases (e : Endpoint) (payload : Octets) :
    (e.receive payload).result = .ok () ∨
      (∃ cause, (e.receive payload).result = .error (.decode cause)) ∨
      ∃ code, e.Requests payload code := by
  rcases read : e.inbox.decode e.config.framing payload with ⟨cause | _, inbox⟩
  · rw [receive_of_undecoded read]
    exact .inr (.inl ⟨cause, rfl⟩)
  · rcases onPdu_cases { e with inbox := inbox } inbox with
      ⟨taken, _⟩ | ⟨everyone, managing, code, head, _⟩
    · rw [receive_of_decoded read]
      exact .inl taken
    · exact .inr (.inr ⟨code, inbox, read, everyone, managing, head⟩)

/-- While transmission is stopped, a request succeeds unless it is one for extra capabilities of
which the first are too large. -/
theorem result_receive_of_stopped (sound : e.registry.Sound) (stopped : e.transmitter = none)
    (request : e.Requests payload code) :
    (e.receive payload).result = .ok () ↔ (code = .extraCapabilities → e.FirstSendable) := by
  obtain ⟨inbox, answered⟩ := receive_of_requests request
  rw [answered]
  exact result_answer_of_stopped (e := { e with inbox := inbox }) sound stopped

/-- A request changes no client, tells none anything and is never taken for undecodable. -/
theorem onlySends_of_requests (request : e.Requests payload code) :
    (e.receive payload).endpoint.registry = e.registry ∧ (e.receive payload).notices = [] ∧
      ∀ cause, (e.receive payload).result ≠ .error (.decode cause) := by
  obtain ⟨inbox, answered⟩ := receive_of_requests request
  have sends := OnlySends.answer { e with inbox := inbox } code
  rw [answered]
  refine ⟨sends.same.registry, sends.untold, fun cause undecoded => ?_⟩
  cases sends.unsent _ undecoded

/-- While transmission is stopped, nothing that comes in is answered, and a request changes nothing.
Everything is taken that can be decoded, and all requests are ignored, exactly if the extra
capabilities that would be sent first are not too large. If they are, then a request for them
fails, and nothing else does. -/
theorem receive_stopped (reached : Reachable e) (stopped : e.transmitter = none) :
    (∀ payload, (e.receive payload).packets = [] ∧ ∀ code, e.Requests payload code →
      (e.receive payload).endpoint.registry = e.registry ∧ (e.receive payload).notices = []) ∧
      ((∀ payload, ((e.receive payload).result = .ok () ∨
          ∃ cause, (e.receive payload).result = .error (.decode cause)) ∧
        ∀ code, e.Requests payload code → (e.receive payload).result = .ok ()) ↔
          e.FirstSendable) ∧
      ∀ payload, ((e.receive payload).result ≠ .ok () ∧
          ∀ cause, (e.receive payload).result ≠ .error (.decode cause)) ↔
        e.Requests payload .extraCapabilities ∧ ¬ e.FirstSendable := by
  have answered {payload : Octets} {code : CmeCode} (request : e.Requests payload code) :=
    result_receive_of_stopped reached.sound.registry stopped request
  refine ⟨fun payload => ⟨?_, fun code request => ?_⟩, ⟨fun harmless => ?_, ?_⟩, fun payload => ?_⟩
  · exact ((Sends.receive e payload).idle stopped).1
  · obtain ⟨same, untold, _⟩ := onlySends_of_requests request
    exact ⟨same, untold⟩
  · -- Some payload is a request for extra capabilities, and that one is ignored as well.
    obtain ⟨payload, request⟩ := exists_requests reached.sound.inbox .extraCapabilities
    exact (answered request).mp ((harmless payload).2 _ request) rfl
  · intro able payload
    have ignored (code : CmeCode) (request : e.Requests payload code) :=
      (answered request).mpr fun _ => able
    refine ⟨?_, ignored⟩
    rcases receive_cases e payload with taken | undecoded | ⟨code, request⟩
    · exact .inl taken
    · exact .inr undecoded
    · exact .inl (ignored code request)
  · constructor
    · rintro ⟨failed, decoded⟩
      rcases receive_cases e payload with taken | ⟨cause, undecoded⟩ | ⟨code, request⟩
      · exact absurd taken failed
      · exact absurd undecoded (decoded cause)
      · rw [Ne, answered request, Classical.not_imp] at failed
        obtain ⟨rfl, unable⟩ := failed
        exact ⟨request, unable⟩
    · rintro ⟨request, unable⟩
      obtain ⟨_, _, decoded⟩ := onlySends_of_requests request
      exact ⟨fun ignored => unable ((answered request).mp ignored rfl), decoded⟩

/-- A camera whose extra capabilities are just small enough. -/
theorem receive_stopped_camera :
    let e := (new ⟨.annexQ, 5⟩).after [.addClient ⟨.cameraControl, 0, true, some [1, 2]⟩]
    let payload : Octets := [0, 11, 0, 0x61, 3, 0, 0, 0, 0, 0, 0, 2, 0xFF]
    Reachable e ∧ e.transmitter = none ∧ e.FirstSendable ∧
      e.Requests payload .extraCapabilities ∧ (e.receive payload).result = .ok () ∧
      (e.receive payload).packets = [] ∧ (e.receive payload).endpoint.registry = e.registry := by
  intro e payload
  have reached : Reachable e := Reachable.after (.new _)
  have stopped : e.transmitter = none := by decide
  have able : e.FirstSendable := by
    rintro c ⟨⟩
    exact ⟨by decide, by decide⟩
  have request : e.Requests payload .extraCapabilities :=
    ⟨(e.inbox.decode .annexQ payload).2, by decide, by decide, by decide, by decide⟩
  obtain ⟨silent, harmless, _⟩ := receive_stopped reached stopped
  exact ⟨reached, stopped, able, request, (harmless.mpr able payload).2 _ request,
    (silent payload).1, ((silent payload).2 _ request).1⟩

/-- The same camera where they are too large: the request fails though nothing can be sent. -/
theorem receive_stopped_fails :
    let e := (new ⟨.annexQ, 2⟩).after [.addClient ⟨.cameraControl, 0, true, some [1, 2]⟩]
    let payload : Octets := [0, 11, 0, 0x61, 3, 0, 0, 0, 0, 0, 0, 2, 0xFF]
    Reachable e ∧ e.transmitter = none ∧ e.Requests payload .extraCapabilities ∧
      (e.receive payload).result = .error (.dataTooLarge 5 2) := by
  intro e payload
  have request : e.Requests payload .extraCapabilities :=
    ⟨(e.inbox.decode .annexQ payload).2, by decide, by decide, by decide, by decide⟩
  exact ⟨Reachable.after (.new _), by decide, request, by decide⟩

end SimplexControl.Endpoint
