import SimplexControl.Proofs.Endpoint.Reachable

/-!
# Frames that go out in turn

Every operation has frames to send, none or several, and sends them one after another until one
is refused. While a transmission runs, its packets are therefore those of a sequence of frames,
each of which begins where the one before it has ended, whatever is done in between.
-/

namespace SimplexControl

namespace Transmitter

variable {framing : Framing} {t t' t'' : Transmitter} {frames frames' : List Frame}
  {packets packets' : List Packet}

/-- The frames go out in these packets, each from the place at which the one before has ended. -/
inductive Carries (framing : Framing) :
    Transmitter → List Frame → List Packet → Transmitter → Prop
  | nil (t : Transmitter) : Carries framing t [] [] t
  | cons {t t' : Transmitter} {f : Frame} {frames : List Frame} {packets : List Packet}
      {payload : Octets} {position : Hdlc.BitPosition}
      (encoded : f.payload framing t.position = .ok (payload, position))
      (rest : Carries framing ⟨t.emitter, position⟩ frames packets t') :
      Carries framing t (f :: frames) (⟨t.emitter, payload, true⟩ :: packets) t'

theorem Carries.append (first : Carries framing t frames packets t')
    (second : Carries framing t' frames' packets' t'') :
    Carries framing t (frames ++ frames') (packets ++ packets') t'' := by
  induction first with
  | nil => exact second
  | cons encoded _ ih => exact .cons encoded (ih second)

theorem Carries.single {f : Frame} {payload : Octets} {position : Hdlc.BitPosition}
    (encoded : f.payload framing t.position = .ok (payload, position)) :
    Carries framing t [f] [⟨t.emitter, payload, true⟩] ⟨t.emitter, position⟩ :=
  .cons encoded (.nil _)

end Transmitter

namespace Endpoint

open Transmitter

/-! ## Reactions that send -/

/-- Of the frames in a queue the reaction sends as many as it has packets, in order. -/
structure Sends (e : Endpoint) (queue : List Frame) (r : Reaction) : Prop where
  config : r.endpoint.config = e.config
  atMost : r.packets.length ≤ queue.length
  idle : e.transmitter = none → r.packets = [] ∧ r.endpoint.transmitter = none
  running : ∀ t, e.transmitter = some t → ∃ t', r.endpoint.transmitter = some t' ∧
    t.Carries e.config.framing (queue.take r.packets.length) r.packets t'

/-- The reaction has succeeded exactly if the whole queue went out. -/
structure SendsAll (e : Endpoint) (queue : List Frame) (r : Reaction) : Prop
    extends Sends e queue r where
  complete : r.result = .ok () ↔ r.packets.length = queue.length

variable {e : Endpoint} {queue queue' : List Frame} {r : Reaction}

/-- Nothing is sent, and the transmission stays as it is. -/
theorem Sends.silent (queue : List Frame) (config : r.endpoint.config = e.config)
    (transmitter : r.endpoint.transmitter = e.transmitter) (none : r.packets = []) :
    e.Sends queue r := by
  refine ⟨config, ?_, ?_, ?_⟩
  · simp [none]
  · exact fun idle => ⟨none, transmitter.trans idle⟩
  · intro t running
    refine ⟨t, transmitter.trans running, ?_⟩
    rw [none]
    exact .nil t

theorem SendsAll.done (e : Endpoint) : e.SendsAll [] e.done :=
  ⟨.silent [] rfl rfl rfl, by simp [Endpoint.done]⟩

theorem SendsAll.refuse (e : Endpoint) (some : queue ≠ []) (cause : EndpointError) :
    e.SendsAll queue (e.refuse cause) :=
  ⟨.silent queue rfl rfl rfl, by simpa [Endpoint.refuse, eq_comm] using some⟩

/-- What one operation sends goes before what the next one sends. -/
theorem SendsAll.andThen {next : Endpoint → Reaction} (first : e.SendsAll queue r)
    (second : r.endpoint.SendsAll queue' (next r.endpoint)) :
    e.SendsAll (queue ++ queue') (r.andThen next) := by
  cases result : r.result with
  | error cause =>
    -- The first queue has not gone out whole, so nothing of the second one has begun.
    have part : r.packets.length ≠ queue.length := by simp [← first.complete, result]
    have less := first.atMost
    rw [Reaction.andThen_of_error result]
    refine ⟨⟨first.config, ?_, first.idle, ?_⟩, ?_⟩
    · rw [List.length_append]
      omega
    · rw [List.take_append_of_le_length less]
      exact first.running
    · rw [List.length_append, result]
      constructor
      · intro done
        cases done
      · omega
  | ok =>
    have whole : r.packets.length = queue.length := first.complete.mp result
    have taken : (queue ++ queue').take (r.packets ++ (next r.endpoint).packets).length =
        queue ++ queue'.take (next r.endpoint).packets.length := by
      rw [List.length_append, whole, List.take_length_add_append]
    rw [Reaction.andThen_of_ok result]
    refine ⟨⟨second.config.trans first.config, ?_, ?_, ?_⟩, ?_⟩
    · have := second.atMost
      simp only [List.length_append]
      omega
    · intro idle
      obtain ⟨none, idle'⟩ := first.idle idle
      obtain ⟨none', idle''⟩ := second.idle idle'
      exact ⟨by rw [none, none', List.append_nil], idle''⟩
    · intro t running
      obtain ⟨t', running', carried⟩ := first.running t running
      obtain ⟨t'', running'', carried'⟩ := second.running t' running'
      rw [whole, List.take_length] at carried
      rw [first.config] at carried'
      refine ⟨t'', running'', ?_⟩
      rw [taken]
      exact carried.append carried'
    · rw [List.length_append, List.length_append, whole, Nat.add_left_cancel_iff]
      exact second.complete

/-- A single frame that has gone out is one packet. -/
theorem SendsAll.packets_of_ok {f : Frame} (h : e.SendsAll [f] r) (done : r.result = .ok ()) :
    ∃ (t : Transmitter) (payload : Octets) (position : Hdlc.BitPosition),
      f.payload e.config.framing t.position = .ok (payload, position) ∧
        r.packets = [⟨t.emitter, payload, true⟩] := by
  have one : r.packets.length = 1 := h.complete.mp done
  cases running : e.transmitter with
  | none =>
    rw [(h.idle running).1] at one
    cases one
  | some t =>
    obtain ⟨t', _, carried⟩ := h.running t running
    rw [one, List.take_succ_cons, List.take_zero] at carried
    generalize r.packets = packets at carried
    cases carried with
    | cons encoded rest =>
      cases rest
      exact ⟨t, _, _, encoded, rfl⟩

/-- A single frame that is refused leaves the transmission as it is. -/
theorem SendsAll.silent_of_error {f : Frame} {cause : EndpointError} (h : e.SendsAll [f] r)
    (failed : r.result = .error cause) :
    r.packets = [] ∧ r.endpoint.transmitter = e.transmitter := by
  have notOne : r.packets.length ≠ 1 := by simpa [failed] using h.complete.not
  have most : r.packets.length ≤ 1 := h.atMost
  have silent : r.packets = [] := List.eq_nil_of_length_eq_zero (by omega)
  refine ⟨silent, ?_⟩
  cases running : e.transmitter with
  | none => exact (h.idle running).2
  | some t =>
    obtain ⟨t', running', carried⟩ := h.running t running
    rw [silent] at carried
    cases carried
    exact running'

theorem SendsAll.transmit (e : Endpoint) (f : Frame) : e.SendsAll [f] (e.transmit f) := by
  unfold Endpoint.transmit
  cases running : e.transmitter with
  | none => exact .refuse e (List.cons_ne_nil f []) _
  | some t =>
    dsimp only
    cases encoded : f.payload e.config.framing t.position with
    | error cause => exact .refuse e (List.cons_ne_nil f []) _
    | ok sent =>
      refine ⟨⟨rfl, Nat.le_refl 1, ?_, ?_⟩, by simp⟩
      · intro idle
        rw [running] at idle
        cases idle
      · intro t' running'
        rw [running] at running'
        cases running'
        exact ⟨_, rfl, .single encoded⟩

theorem SendsAll.transmitCme (e : Endpoint) (message : Octets) :
    e.SendsAll [(Pdu.cme message).frame] (e.transmitCme message) := by
  unfold Endpoint.transmitCme
  cases made : Pdu.ofCme message with
  | error cause => exact .refuse e (List.cons_ne_nil _ []) _
  | ok pdu =>
    obtain ⟨rfl, _⟩ := Pdu.ofCme_eq_ok_iff.mp made
    exact .transmit e _

/-- What is made up of messages sends their frames. -/
theorem Composed.sendsAll (h : e.Composed queue r) : e.SendsAll queue r := by
  induction h with
  | done e => exact .done e
  | refuse e some => exact .refuse e some _
  | message e message => exact .transmitCme e message
  | andThen _ _ ih ih' => exact ih.andThen ih'

theorem SendsAll.sendPdu (e : Endpoint) (id : ClientId) (pdu : Pdu) :
    e.SendsAll [pdu.frame] (e.sendPdu id pdu) := by
  unfold Endpoint.sendPdu
  split
  · exact .refuse e (List.cons_ne_nil _ []) _
  · split
    · exact .refuse e (List.cons_ne_nil _ []) _
    · exact .transmit e _

end Endpoint

/-! ## What comes in and is answered -/

namespace Registry

/-- The frames that answer a message of the managing client, if it is a request. -/
def answerFrames (r : Registry) (data : Octets) : List Frame :=
  if data.take 2 = cmeHead .clientList .command then [r.listFrame]
  else if data.take 2 = cmeHead .extraCapabilities .command then r.capabilitiesFrames
  else []

/-- The frames that answer a PDU. -/
def pduFrames (r : Registry) (pdu : Pdu) : List Frame :=
  if pdu.destination = Pdu.broadcast ∧ pdu.client = .cme then r.answerFrames pdu.data else []

end Registry

namespace Endpoint

open Transmitter

variable {e : Endpoint}

theorem Sends.unlessDisabled {queue : List Frame} {r : Reaction} (h : e.Sends queue r) :
    e.Sends queue (unlessDisabled r) := by
  unfold Endpoint.unlessDisabled
  split
  · exact ⟨h.config, h.atMost, h.idle, h.running⟩
  · exact h

theorem Sends.onCmeMessage (e : Endpoint) (data : Octets) :
    e.Sends (e.registry.answerFrames data) (e.onCmeMessage data) := by
  unfold Endpoint.onCmeMessage
  split
  · rw [onClientList_eq]
    exact .silent _ rfl rfl rfl
  split
  · next head =>
    rw [Registry.answerFrames, if_pos head]
    exact (Composed.sendClientList e).sendsAll.toSends.unlessDisabled
  next notList =>
  split
  · rw [onExtraCapabilities_eq]
    split <;> exact .silent _ rfl rfl rfl
  split
  · next head =>
    rw [Registry.answerFrames, if_neg notList, if_pos head]
    exact (Composed.sendExtraCapabilities e).sendsAll.toSends.unlessDisabled
  · exact .silent _ rfl rfl rfl

theorem Sends.onPdu (e : Endpoint) (pdu : Pdu) :
    e.Sends (e.registry.pduFrames pdu) (e.onPdu pdu) := by
  unfold Endpoint.onPdu
  split
  · exact .silent _ rfl rfl rfl
  next everyone =>
  split
  · next managing =>
    rw [Registry.pduFrames, if_pos ⟨not_not.mp everyone, managing⟩]
    exact .onCmeMessage e pdu.data
  · exact .silent _ rfl rfl rfl

/-! ## Operations -/

/-- The frames that an operation has to send, in order. -/
def queued (e : Endpoint) : Operation → List Frame
  | .addClient _ | .removeClient _ | .stopTransmit | .onClientList _ | .onExtraCapabilities _ => []
  | .startTransmit _ =>
    if e.transmitter.isSome then [] else e.registry.listFrame :: e.registry.capabilitiesFrames
  | .sendClientList | .onClientListCommand => [e.registry.listFrame]
  | .sendExtraCapabilities | .onExtraCapabilitiesCommand => e.registry.capabilitiesFrames
  | .sendExtraCapabilitiesOf id octets => [e.registry.capabilitiesFrame id octets]
  | .requestClientList => [(Pdu.cme (cmeHead .clientList .command)).frame]
  | .requestExtraCapabilities id =>
    [(Pdu.cme (cmeHead .extraCapabilities .command ++ e.registry.announcementOf id)).frame]
  | .sendPdu _ pdu => [pdu.frame]
  | .receive payload =>
    match e.inbox.decode e.config.framing payload with
    | (.error _, _) => []
    | (.ok _, pdu) => e.registry.pduFrames pdu
  | .onPdu pdu => e.registry.pduFrames pdu
  | .onCmeMessage data => e.registry.answerFrames data

/-- The frames that an operation sends, one in each of its packets. -/
def sent (e : Endpoint) (op : Operation) : List Frame :=
  (e.queued op).take (e.perform op).packets.length

/-- The frames that operations send one after another. -/
def sentBy (e : Endpoint) : List Operation → List Frame
  | [] => []
  | op :: ops => e.sent op ++ sentBy (e.perform op).endpoint ops

theorem Sends.receive (e : Endpoint) (payload : Octets) :
    e.Sends (e.queued (.receive payload)) (e.receive payload) := by
  simp only [Endpoint.receive, queued]
  rcases e.inbox.decode e.config.framing payload with ⟨cause | _, inbox⟩
  · exact .silent _ rfl rfl rfl
  · have answered := Sends.onPdu { e with inbox := inbox } inbox
    exact ⟨answered.config, answered.atMost, answered.idle, answered.running⟩

/-- Beginning and ending a transmission apart, an operation sends what it has to send, one case
for each operation. -/
theorem Sends.perform (e : Endpoint) {op : Operation} (noStop : op ≠ .stopTransmit)
    (noStart : ∀ emitter, op = .startTransmit emitter → e.transmitter.isSome) :
    e.Sends (e.queued op) (e.perform op) := by
  cases op with
  | addClient client =>
    show e.Sends [] (e.addClient client)
    unfold Endpoint.addClient
    split <;> exact .silent _ rfl rfl rfl
  | removeClient id => exact .silent _ rfl rfl rfl
  | startTransmit emitter =>
    have running := noStart emitter rfl
    show e.Sends (if e.transmitter.isSome then [] else _) (e.startTransmit emitter)
    rw [if_pos running, startTransmit_of_running running]
    exact (SendsAll.done e).toSends
  | stopTransmit => exact absurd rfl noStop
  | sendClientList => exact (Composed.sendClientList e).sendsAll.toSends
  | sendExtraCapabilities => exact (Composed.sendExtraCapabilities e).sendsAll.toSends
  | sendExtraCapabilitiesOf id octets =>
    exact (Composed.sendExtraCapabilitiesOf e id octets).sendsAll.toSends
  | requestClientList => exact (SendsAll.transmitCme e _).toSends
  | requestExtraCapabilities id => exact (Composed.requestExtraCapabilities e id).sendsAll.toSends
  | sendPdu id pdu => exact (SendsAll.sendPdu e id pdu).toSends
  | receive payload => exact .receive e payload
  | onPdu pdu => exact .onPdu e pdu
  | onCmeMessage data => exact .onCmeMessage e data
  | onClientList data =>
    show e.Sends [] (e.onClientList data)
    rw [onClientList_eq]
    exact .silent _ rfl rfl rfl
  | onClientListCommand => exact (Composed.sendClientList e).sendsAll.toSends.unlessDisabled
  | onExtraCapabilities data =>
    show e.Sends [] (e.onExtraCapabilities data)
    rw [onExtraCapabilities_eq]
    split <;> exact .silent _ rfl rfl rfl
  | onExtraCapabilitiesCommand =>
    exact (Composed.sendExtraCapabilities e).sendsAll.toSends.unlessDisabled

/-- A transmission begins with the announcement of the clients. -/
theorem SendsAll.startTransmit (idle : e.transmitter = none) (emitter : Nat) :
    (e.started emitter).SendsAll (e.queued (.startTransmit emitter)) (e.startTransmit emitter) := by
  have queue : e.queued (.startTransmit emitter) =
      (e.started emitter).registry.listFrame :: (e.started emitter).registry.capabilitiesFrames :=
    if_neg (by simp [idle])
  rw [startTransmit_of_idle idle, queue]
  exact (Composed.announcement (e.started emitter)).sendsAll

/-! ## Transmissions -/

variable {ops : List Operation}

/-- A transmission that is not stopped carries all that is sent in it. -/
theorem carries_run (going : .stopTransmit ∉ ops) : ∀ {e : Endpoint} {t : Transmitter},
    e.transmitter = some t → ∃ t', (e.after ops).transmitter = some t' ∧
      t.Carries e.config.framing (e.sentBy ops) ((e.run ops).flatMap Reaction.packets) t' := by
  induction ops with
  | nil => exact fun {e t} running => ⟨t, running, .nil t⟩
  | cons op ops ih =>
    intro e t running
    simp only [List.mem_cons, not_or] at going
    have step := Sends.perform e (Ne.symm going.1) fun _ _ => by simp [running]
    obtain ⟨t', running', carried⟩ := step.running t running
    obtain ⟨t'', running'', carried'⟩ := ih going.2 running'
    rw [step.config] at carried'
    exact ⟨t'', running'', carried.append carried'⟩

/-- A whole transmission carries its frames from the start of an octet on. -/
theorem carries_transmission (idle : e.transmitter = none) (emitter : Nat)
    (going : .stopTransmit ∉ ops) :
    ∃ t', (e.after (.startTransmit emitter :: ops)).transmitter = some t' ∧
      Carries e.config.framing ⟨emitter, Hdlc.octetAligned⟩
        (e.sentBy (.startTransmit emitter :: ops))
        ((e.run (.startTransmit emitter :: ops)).flatMap Reaction.packets) t' := by
  have begun := SendsAll.startTransmit idle emitter
  obtain ⟨t, running, carried⟩ := begun.running _ rfl
  obtain ⟨t', running', carried'⟩ := carries_run going running
  rw [begun.config] at carried'
  exact ⟨t', running', carried.append carried'⟩

end Endpoint

end SimplexControl
