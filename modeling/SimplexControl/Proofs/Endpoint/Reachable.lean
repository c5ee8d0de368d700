import SimplexControl.Endpoint.Operation
import SimplexControl.Proofs.Endpoint.Composition
import SimplexControl.Proofs.Endpoint.Listening

/-!
# Endpoints that can come about

An endpoint begins without clients, and then anything may be done to it, in any order and with
failures among the rest. What always holds of it is that its registry is in order and that its
inbox has room for every frame.
-/

namespace SimplexControl.Endpoint

/-- An endpoint with some past. -/
inductive Reachable : Endpoint → Prop
  | new (config : Config) : Reachable (new config)
  | perform {e : Endpoint} (h : Reachable e) (op : Operation) : Reachable (e.perform op).endpoint

/-- The endpoint after operations one after another, failed ones included. -/
def after (e : Endpoint) (ops : List Operation) : Endpoint :=
  ops.foldl (fun e op => (e.perform op).endpoint) e

theorem after_concat (e : Endpoint) (ops : List Operation) (op : Operation) :
    e.after (ops ++ [op]) = ((e.after ops).perform op).endpoint := by
  rw [after, List.foldl_concat]
  rfl

theorem Reachable.after {e : Endpoint} (h : Reachable e) {ops : List Operation} :
    Reachable (e.after ops) := by
  induction ops generalizing e with
  | nil => exact h
  | cons op ops ih => exact ih (h.perform op)

/-- What holds of an endpoint at any time. -/
structure Sound (e : Endpoint) : Prop where
  registry : e.registry.Sound
  inbox : e.inbox.frame.maxInfo = Frame.largestInfo

namespace Sound

variable {e e' : Endpoint}

theorem of_same (h : e.Sound) (same : SameButTransmission e e') : e'.Sound :=
  ⟨same.registry ▸ h.registry, same.inbox ▸ h.inbox⟩

/-- A report changes no client. -/
theorem notify (h : e.Sound) {registry : Registry}
    (same : registry.clients = e.registry.clients) (notices : List Notice) :
    (e.notify registry notices).endpoint.Sound :=
  ⟨h.registry.of_clients same, h.inbox⟩

theorem addClient (h : e.Sound) (client : Client) : (e.addClient client).endpoint.Sound := by
  unfold Endpoint.addClient
  split
  · exact h
  · next registry added => exact ⟨h.registry.register added, h.inbox⟩

theorem removeClient (h : e.Sound) (id : ClientId) : (e.removeClient id).endpoint.Sound :=
  ⟨h.registry.unregister id, h.inbox⟩

theorem onClientList (h : e.Sound) (data : Octets) : (e.onClientList data).endpoint.Sound := by
  rw [onClientList_eq]
  exact h.notify (by simp) _

theorem onExtraCapabilities (h : e.Sound) (data : Octets) :
    (e.onExtraCapabilities data).endpoint.Sound := by
  rw [onExtraCapabilities_eq]
  split
  · exact h
  · exact h.notify (by simp) _

theorem composed (h : e.Sound) {queue : List Frame} {r : Reaction}
    (composed : e.Composed queue r) :
    r.endpoint.Sound := h.of_same composed.onlySends.same

theorem onClientListCommand (h : e.Sound) : e.onClientListCommand.endpoint.Sound :=
  h.of_same (Composed.sendClientList e).onlySends.unlessDisabled.same

theorem onExtraCapabilitiesCommand (h : e.Sound) :
    e.onExtraCapabilitiesCommand.endpoint.Sound :=
  h.of_same (Composed.sendExtraCapabilities e).onlySends.unlessDisabled.same

theorem onCmeMessage (h : e.Sound) (data : Octets) : (e.onCmeMessage data).endpoint.Sound := by
  unfold Endpoint.onCmeMessage
  split
  · exact h.onClientList data
  split
  · exact h.onClientListCommand
  split
  · exact h.onExtraCapabilities data
  split
  · exact h.onExtraCapabilitiesCommand
  · exact h

theorem onPdu (h : e.Sound) (pdu : Pdu) : (e.onPdu pdu).endpoint.Sound := by
  unfold Endpoint.onPdu
  split
  · exact h
  split
  · exact h.onCmeMessage pdu.data
  · exact h.notify rfl _

theorem receive (h : e.Sound) (payload : Octets) : (e.receive payload).endpoint.Sound := by
  have same := Pdu.maxInfo_decode e.inbox e.config.framing payload
  unfold Endpoint.receive
  split
  · next cause inbox read =>
    rw [read] at same
    exact ⟨h.registry, same.trans h.inbox⟩
  · next inbox read =>
    rw [read] at same
    have loaded : Sound { e with inbox := inbox } := ⟨h.registry, same.trans h.inbox⟩
    exact loaded.onPdu inbox

/-- Everything that can be done to an endpoint keeps it sound, one case for each operation. -/
theorem perform (h : e.Sound) (op : Operation) : (e.perform op).endpoint.Sound := by
  cases op with
  | addClient client => exact h.addClient client
  | removeClient id => exact h.removeClient id
  | startTransmit emitter => exact h.of_same (startTransmit_same e emitter)
  | stopTransmit => exact h.of_same ⟨rfl, rfl, rfl⟩
  | sendClientList => exact h.composed (.sendClientList e)
  | sendExtraCapabilities => exact h.composed (.sendExtraCapabilities e)
  | sendExtraCapabilitiesOf id octets => exact h.composed (.sendExtraCapabilitiesOf e id octets)
  | requestClientList => exact h.composed (.message e (cmeHead .clientList .command))
  | requestExtraCapabilities id => exact h.composed (.requestExtraCapabilities e id)
  | sendPdu id pdu => exact h.of_same (sendPdu_same e id pdu)
  | receive payload => exact h.receive payload
  | onPdu pdu => exact h.onPdu pdu
  | onCmeMessage data => exact h.onCmeMessage data
  | onClientList data => exact h.onClientList data
  | onClientListCommand => exact h.onClientListCommand
  | onExtraCapabilities data => exact h.onExtraCapabilities data
  | onExtraCapabilitiesCommand => exact h.onExtraCapabilitiesCommand

end Sound

theorem Reachable.sound {e : Endpoint} (h : Reachable e) : e.Sound := by
  induction h with
  | new config => exact ⟨Registry.sound_empty, rfl⟩
  | perform _ op ih => exact ih.perform op

end SimplexControl.Endpoint
