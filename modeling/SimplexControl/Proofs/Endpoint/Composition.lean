import SimplexControl.Endpoint.Dispatch
import SimplexControl.Proofs.Endpoint.Sending

/-!
# How sending is made up

What an endpoint sends of its own accord is made up of messages of the managing client, one after
another up to one that is refused. So what holds of a message, of a refusal, and of two operations
in turn if it holds of each, holds of all of it: nothing changes but the transmission, no client is
told, and only a few causes keep a message from going out. The line is none of them, as it takes
every message for which there is a frame.
-/

namespace SimplexControl

/-- Why a message does not go out, however frames go over the line. -/
inductive EndpointError.Unsent : EndpointError → Prop
  | notRegistered (id : ClientId) : Unsent (.notRegistered id)
  | transmitDisabled : Unsent .transmitDisabled
  | dataTooLarge (size max : Nat) : Unsent (.dataTooLarge size max)
  | messageTooLarge (size max : Nat) : Unsent (.encode (.infoTooLarge size max))

/-- The frame gets a payload from every place of an octet on. -/
def Frame.Encodes (f : Frame) (framing : Framing) : Prop :=
  ∀ position, ∃ sent, f.payload framing position = .ok sent

theorem Frame.encodes_of_small {f : Frame} (small : f.info.length ≤ largestInfo)
    (framing : Framing) : f.Encodes framing := by
  intro position
  obtain ⟨octets, next, encoded⟩ := payload_of_small small framing position
  exact ⟨(octets, next), encoded⟩

/-! ## Messages of the managing client -/

namespace Registry

/-- What announces the client of an identification. -/
def announcementOf (r : Registry) (id : ClientId) : Octets :=
  (r.find? id).elim (id.write 0) (·.client.announcement)

/-- The frame with the list of all clients. -/
def listFrame (r : Registry) : Frame := (Pdu.cme r.clientListMessage).frame

/-- The frame with the extra capabilities of a client. -/
def capabilitiesFrame (r : Registry) (id : ClientId) (octets : Octets) : Frame :=
  (Pdu.cme (cmeHead .extraCapabilities .response ++ r.announcementOf id ++ octets)).frame

/-- The frames with the extra capabilities of every client that has some. -/
def capabilitiesFrames (r : Registry) : List Frame :=
  r.extraCapabilities.map fun c => r.capabilitiesFrame c.1 c.2

end Registry

namespace Endpoint

/-- The reaction is made up of messages of the managing client, whose frames are in the queue. What
is refused has left something in the queue. -/
inductive Composed : Endpoint → List Frame → Reaction → Prop
  | done (e : Endpoint) : Composed e [] e.done
  | refuse (e : Endpoint) {queue : List Frame} {cause : EndpointError} (some : queue ≠ [])
      (unsent : cause.Unsent) : Composed e queue (e.refuse cause)
  | message (e : Endpoint) (message : Octets) :
      Composed e [(Pdu.cme message).frame] (e.transmitCme message)
  | andThen {e : Endpoint} {queue queue' : List Frame} {r : Reaction}
      {next : Endpoint → Reaction} (first : Composed e queue r)
      (second : Composed r.endpoint queue' (next r.endpoint)) :
      Composed e (queue ++ queue') (r.andThen next)

variable {e : Endpoint} {queue : List Frame} {r : Reaction}

/-! ## Single frames -/

/-- No client is told of a frame that goes out. -/
theorem notices_transmit (e : Endpoint) (f : Frame) : (e.transmit f).notices = [] := by
  unfold transmit
  cases e.transmitter with
  | none => rfl
  | some t =>
    dsimp only
    cases f.payload e.config.framing t.position <;> rfl

/-- A frame that gets a payload goes out whenever a transmission runs. -/
theorem result_transmit {f : Frame} (encodes : f.Encodes e.config.framing) :
    (e.transmit f).result = if e.isTransmitting then .ok () else .error .transmitDisabled := by
  unfold transmit isTransmitting
  cases e.transmitter with
  | none => rfl
  | some t =>
    obtain ⟨sent, encoded⟩ := encodes t.position
    simp only [encoded]
    rfl

/-- Only want of a frame and want of a transmission keep a message from going out. -/
theorem unsent_of_transmitCme {message : Octets} {cause : EndpointError}
    (failed : (e.transmitCme message).result = .error cause) : cause.Unsent := by
  unfold transmitCme at failed
  cases made : Pdu.ofCme message with
  | error inner =>
    rw [made] at failed
    cases failed
    obtain ⟨size, max, rfl⟩ := Pdu.cause_of_setData made
    exact .messageTooLarge size max
  | ok pdu =>
    obtain ⟨rfl, small⟩ := Pdu.ofCme_eq_ok_iff.mp made
    rw [made] at failed
    dsimp only at failed
    rw [result_transmit (Frame.encodes_of_small small _)] at failed
    split at failed
    · cases failed
    · cases failed
      exact .transmitDisabled

theorem notices_transmitCme (e : Endpoint) (message : Octets) :
    (e.transmitCme message).notices = [] := by
  unfold transmitCme
  split
  · rfl
  · exact notices_transmit e _

theorem notices_sendPdu (e : Endpoint) (id : ClientId) (pdu : Pdu) :
    (e.sendPdu id pdu).notices = [] := by
  unfold sendPdu
  split
  · rfl
  split
  · rfl
  · exact notices_transmit e pdu.frame

/-! ## What holds of everything that is sent -/

/-- The reaction does nothing but send, and it is not the line that has kept it from that. -/
structure OnlySends (e : Endpoint) (r : Reaction) : Prop where
  same : SameButTransmission e r.endpoint
  untold : r.notices = []
  unsent : ∀ cause, r.result = .error cause → cause.Unsent

theorem OnlySends.andThen {next : Endpoint → Reaction} (first : e.OnlySends r)
    (second : r.endpoint.OnlySends (next r.endpoint)) : e.OnlySends (r.andThen next) := by
  cases result : r.result with
  | error cause => rwa [Reaction.andThen_of_error result]
  | ok =>
    rw [Reaction.andThen_of_ok result]
    exact ⟨first.same.trans second.same,
      List.append_eq_nil_iff.mpr ⟨first.untold, second.untold⟩, second.unsent⟩

theorem OnlySends.unlessDisabled (h : e.OnlySends r) : e.OnlySends (unlessDisabled r) := by
  unfold Endpoint.unlessDisabled
  split
  · exact ⟨h.same, h.untold, nofun⟩
  · exact h

theorem Composed.onlySends (h : e.Composed queue r) : e.OnlySends r := by
  induction h with
  | done e => exact ⟨.refl e, rfl, nofun⟩
  | refuse e some unsent =>
    refine ⟨.refl e, rfl, ?_⟩
    rintro _ ⟨⟩
    exact unsent
  | message e message =>
    exact ⟨transmitCme_same e message, notices_transmitCme e message,
      fun _ => unsent_of_transmitCme⟩
  | andThen _ _ ih ih' => exact ih.andThen ih'

namespace Composed

/-! ## What is sent -/

theorem sendClientList (e : Endpoint) : e.Composed [e.registry.listFrame] e.sendClientList := by
  unfold Endpoint.sendClientList
  split
  · exact .refuse e (List.cons_ne_nil _ []) .transmitDisabled
  split
  · exact .refuse e (List.cons_ne_nil _ []) (.dataTooLarge _ _)
  · exact .message e _

theorem sendExtraCapabilitiesOf (e : Endpoint) (id : ClientId) (octets : Octets) :
    e.Composed [e.registry.capabilitiesFrame id octets] (e.sendExtraCapabilitiesOf id octets) := by
  unfold Endpoint.sendExtraCapabilitiesOf Registry.capabilitiesFrame Registry.announcementOf
  cases e.registry.find? id with
  | none => exact .refuse e (List.cons_ne_nil _ []) (.notRegistered id)
  | some entry =>
    dsimp only [Option.elim_some]
    split
    · exact .refuse e (List.cons_ne_nil _ []) (.dataTooLarge _ _)
    · exact .message e _

theorem sendCapabilities {registry : Registry} (caps : List (ClientId × Octets)) :
    ∀ e : Endpoint, e.registry = registry →
      e.Composed (caps.map fun c => registry.capabilitiesFrame c.1 c.2)
        (e.doAll (caps.map fun (id, octets) e => e.sendExtraCapabilitiesOf id octets)) := by
  induction caps with
  | nil => exact fun e _ => .done e
  | cons c caps ih =>
    rintro e rfl
    have first := sendExtraCapabilitiesOf e c.1 c.2
    exact first.andThen (ih _ first.onlySends.same.registry)

theorem sendExtraCapabilities (e : Endpoint) :
    e.Composed e.registry.capabilitiesFrames e.sendExtraCapabilities :=
  sendCapabilities e.registry.extraCapabilities e rfl

theorem requestExtraCapabilities (e : Endpoint) (id : ClientId) :
    e.Composed [(Pdu.cme (cmeHead .extraCapabilities .command ++
      e.registry.announcementOf id)).frame] (e.requestExtraCapabilities id) := by
  unfold Endpoint.requestExtraCapabilities Registry.announcementOf
  cases e.registry.find? id with
  | none => exact .refuse e (List.cons_ne_nil _ []) (.notRegistered id)
  | some entry => exact .message e _

/-- The clients are announced by their list and then by their extra capabilities. -/
theorem announcement (e : Endpoint) :
    e.Composed (e.registry.listFrame :: e.registry.capabilitiesFrames)
      (e.sendClientList.andThen Endpoint.sendExtraCapabilities) := by
  have listed := sendClientList e
  have capable := sendExtraCapabilities e.sendClientList.endpoint
  rw [listed.onlySends.same.registry] at capable
  exact listed.andThen capable

end Composed

/-! ## The start of a transmission -/

/-- An endpoint that has just begun to transmit. -/
def started (e : Endpoint) (emitter : Nat) : Endpoint :=
  { e with transmitter := some ⟨emitter, Hdlc.octetAligned⟩ }

theorem startTransmit_of_running (running : e.isTransmitting) (emitter : Nat) :
    e.startTransmit emitter = e.done := if_pos running

theorem startTransmit_of_idle (idle : e.transmitter = none) (emitter : Nat) :
    e.startTransmit emitter =
      (e.started emitter).sendClientList.andThen Endpoint.sendExtraCapabilities := by
  rw [Endpoint.startTransmit, if_neg (by simp [idle])]
  rfl

/-- A start does nothing or begins a transmission with the announcement of the clients. -/
theorem startTransmit_cases (e : Endpoint) (emitter : Nat) :
    e.isTransmitting ∧ e.startTransmit emitter = e.done ∨
      e.transmitter = none ∧ (e.started emitter).Composed
        (e.registry.listFrame :: e.registry.capabilitiesFrames) (e.startTransmit emitter) := by
  cases transmitter : e.transmitter with
  | some t =>
    have running : e.isTransmitting := Option.isSome_iff_exists.mpr ⟨t, transmitter⟩
    exact .inl ⟨running, startTransmit_of_running running emitter⟩
  | none =>
    rw [startTransmit_of_idle transmitter]
    exact .inr ⟨rfl, .announcement (e.started emitter)⟩

theorem OnlySends.startTransmit (e : Endpoint) (emitter : Nat) :
    e.OnlySends (e.startTransmit emitter) := by
  rcases startTransmit_cases e emitter with ⟨_, still⟩ | ⟨_, composed⟩
  · rw [still]
    exact (Composed.done e).onlySends
  · have started : SameButTransmission e (e.started emitter) := ⟨rfl, rfl, rfl⟩
    obtain ⟨same, untold, unsent⟩ := composed.onlySends
    exact ⟨started.trans same, untold, unsent⟩

theorem startTransmit_same (e : Endpoint) (emitter : Nat) :
    SameButTransmission e (e.startTransmit emitter).endpoint :=
  (OnlySends.startTransmit e emitter).same

end Endpoint

end SimplexControl
