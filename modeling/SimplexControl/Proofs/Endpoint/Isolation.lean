import Mathlib.Data.List.Forall2
import SimplexControl.Proofs.Endpoint.Refusals

/-!
# What payloads leave behind

Every payload is read into the inbox, where earlier ones have left their frames, refused frames
among them. Reading asks nothing of the inbox but how large a frame it takes, and nothing else
looks at it, so that endpoints with different inboxes react alike to all that is done to them.
A payload that cannot be decoded leaves nothing behind but what it has put into the inbox.
-/

namespace SimplexControl

/-! ## Reading -/

theorem Frame.decode_of_maxInfo {f g : Frame} (same : g.maxInfo = f.maxInfo) (framing : Framing)
    (data : Octets) : g.decode framing data = f.decode framing data := by
  cases framing with
  | hdlc => rw [decode, decode, decodeHdlc, decodeHdlc, same, load_of_maxInfo same]
  | annexQ => rw [decode, decode, decodeAnnexQ, decodeAnnexQ, load_of_maxInfo same]

/-- Without a frame each PDU stays as it is; with one, nothing of them is left. -/
theorem Pdu.decode_of_maxInfo {p q : Pdu} (same : q.frame.maxInfo = p.frame.maxInfo)
    (framing : Framing) (data : Octets) :
    (∃ cause, p.decode framing data = (.error (.frame cause), p) ∧
        q.decode framing data = (.error (.frame cause), q)) ∨
      q.decode framing data = p.decode framing data := by
  have alike := Frame.decode_of_maxInfo same framing data
  cases read : p.frame.decode framing data with
  | error cause =>
    rw [read] at alike
    exact .inl ⟨cause, by rw [decode, read], by rw [decode, alike]⟩
  | ok f =>
    rw [read] at alike
    exact .inr ((decode_of_frame alike).trans (decode_of_frame read).symm)

/-! ## Operations that do not look at the inbox -/

/-- The endpoint with another inbox. -/
def Endpoint.withInbox (e : Endpoint) (inbox : Pdu) : Endpoint := { e with inbox := inbox }

/-- The reaction of an endpoint with another inbox. -/
def Reaction.withInbox (r : Reaction) (inbox : Pdu) : Reaction :=
  { r with endpoint := r.endpoint.withInbox inbox }

@[simp] theorem Reaction.result_withInbox (r : Reaction) (inbox : Pdu) :
    (r.withInbox inbox).result = r.result := rfl

namespace Endpoint

section Fields

variable (e : Endpoint) (inbox : Pdu)

@[simp] theorem config_withInbox : (e.withInbox inbox).config = e.config := rfl

@[simp] theorem registry_withInbox : (e.withInbox inbox).registry = e.registry := rfl

@[simp] theorem transmitter_withInbox : (e.withInbox inbox).transmitter = e.transmitter := rfl

end Fields

/-- The operation neither looks at the inbox nor changes it. -/
def IgnoresInbox (op : Endpoint → Reaction) : Prop :=
  ∀ e inbox, op (e.withInbox inbox) = (op e).withInbox inbox

namespace IgnoresInbox

variable {op next : Endpoint → Reaction}

theorem andThen (first : IgnoresInbox op) (second : IgnoresInbox next) :
    IgnoresInbox fun e => (op e).andThen next := by
  intro e inbox
  show (op (e.withInbox inbox)).andThen next = ((op e).andThen next).withInbox inbox
  rw [first]
  cases result : (op e).result with
  | error cause =>
    have failed : ((op e).withInbox inbox).result = .error cause := result
    rw [Reaction.andThen_of_error result, Reaction.andThen_of_error failed]
  | ok =>
    have done : ((op e).withInbox inbox).result = .ok () := result
    have later : next ((op e).withInbox inbox).endpoint = (next (op e).endpoint).withInbox inbox :=
      second _ inbox
    rw [Reaction.andThen_of_ok result, Reaction.andThen_of_ok done, later]
    rfl

theorem doAll {ops : List (Endpoint → Reaction)} (each : ∀ op ∈ ops, IgnoresInbox op) :
    IgnoresInbox (·.doAll ops) := by
  induction ops with
  | nil => exact fun e inbox => rfl
  | cons op ops ih =>
    exact (each op List.mem_cons_self).andThen
      (ih fun op later => each op (List.mem_cons_of_mem _ later))

theorem unlessDisabled (ignores : IgnoresInbox op) :
    IgnoresInbox fun e => unlessDisabled (op e) := by
  intro e inbox
  show Endpoint.unlessDisabled (op (e.withInbox inbox)) =
    (Endpoint.unlessDisabled (op e)).withInbox inbox
  rw [ignores, Endpoint.unlessDisabled, Endpoint.unlessDisabled, Reaction.result_withInbox]
  split <;> rfl

theorem transmit (f : Frame) : IgnoresInbox (·.transmit f) := by
  intro e inbox
  show (e.withInbox inbox).transmit f = (e.transmit f).withInbox inbox
  rw [Endpoint.transmit, Endpoint.transmit, transmitter_withInbox, config_withInbox]
  cases e.transmitter with
  | none => rfl
  | some t =>
    dsimp only
    cases f.payload e.config.framing t.position <;> rfl

theorem transmitCme (data : Octets) : IgnoresInbox (·.transmitCme data) := by
  intro e inbox
  show (e.withInbox inbox).transmitCme data = (e.transmitCme data).withInbox inbox
  rw [Endpoint.transmitCme, Endpoint.transmitCme]
  cases Pdu.ofCme data with
  | error cause => rfl
  | ok pdu => exact transmit pdu.frame e inbox

theorem sendClientList : IgnoresInbox Endpoint.sendClientList := by
  intro e inbox
  rw [Endpoint.sendClientList, Endpoint.sendClientList, transmitter_withInbox,
    registry_withInbox]
  split
  · rfl
  split
  · rfl
  · exact transmitCme _ e inbox

theorem sendExtraCapabilitiesOf (id : ClientId) (octets : Octets) :
    IgnoresInbox (·.sendExtraCapabilitiesOf id octets) := by
  intro e inbox
  show (e.withInbox inbox).sendExtraCapabilitiesOf id octets =
    (e.sendExtraCapabilitiesOf id octets).withInbox inbox
  rw [Endpoint.sendExtraCapabilitiesOf, Endpoint.sendExtraCapabilitiesOf, registry_withInbox,
    config_withInbox]
  cases e.registry.find? id with
  | none => rfl
  | some entry =>
    dsimp only
    split
    · rfl
    · exact transmitCme _ e inbox

theorem sendExtraCapabilities : IgnoresInbox Endpoint.sendExtraCapabilities := by
  intro e inbox
  exact doAll (List.forall_mem_map.mpr fun c _ => sendExtraCapabilitiesOf c.1 c.2) e inbox

theorem requestExtraCapabilities (id : ClientId) :
    IgnoresInbox (·.requestExtraCapabilities id) := by
  intro e inbox
  show (e.withInbox inbox).requestExtraCapabilities id =
    (e.requestExtraCapabilities id).withInbox inbox
  rw [Endpoint.requestExtraCapabilities, Endpoint.requestExtraCapabilities, registry_withInbox]
  cases e.registry.find? id with
  | none => rfl
  | some entry => exact transmitCme _ e inbox

theorem sendPdu (id : ClientId) (pdu : Pdu) : IgnoresInbox (·.sendPdu id pdu) := by
  intro e inbox
  show (e.withInbox inbox).sendPdu id pdu = (e.sendPdu id pdu).withInbox inbox
  rw [Endpoint.sendPdu, Endpoint.sendPdu, registry_withInbox, config_withInbox]
  split
  · rfl
  split
  · rfl
  · exact transmit _ e inbox

theorem startTransmit (emitter : Nat) : IgnoresInbox (·.startTransmit emitter) := by
  intro e inbox
  show (e.withInbox inbox).startTransmit emitter = (e.startTransmit emitter).withInbox inbox
  rw [Endpoint.startTransmit, Endpoint.startTransmit, transmitter_withInbox]
  split
  · rfl
  · exact sendClientList.andThen sendExtraCapabilities
      { e with transmitter := some ⟨emitter, Hdlc.octetAligned⟩ } inbox

theorem addClient (client : Client) : IgnoresInbox (·.addClient client) := by
  intro e inbox
  show (e.withInbox inbox).addClient client = (e.addClient client).withInbox inbox
  rw [Endpoint.addClient, Endpoint.addClient, registry_withInbox]
  cases e.registry.register client <;> rfl

theorem onClientList (data : Octets) : IgnoresInbox (·.onClientList data) := by
  intro e inbox
  show (e.withInbox inbox).onClientList data = (e.onClientList data).withInbox inbox
  rw [onClientList_eq, onClientList_eq]
  rfl

theorem onExtraCapabilities (data : Octets) : IgnoresInbox (·.onExtraCapabilities data) := by
  intro e inbox
  show (e.withInbox inbox).onExtraCapabilities data =
    (e.onExtraCapabilities data).withInbox inbox
  rw [onExtraCapabilities_eq, onExtraCapabilities_eq]
  cases ClientId.parse? (data.drop 2) <;> rfl

theorem onCmeMessage (data : Octets) : IgnoresInbox (·.onCmeMessage data) := by
  intro e inbox
  show (e.withInbox inbox).onCmeMessage data = (e.onCmeMessage data).withInbox inbox
  unfold Endpoint.onCmeMessage
  split
  · exact onClientList data e inbox
  split
  · exact sendClientList.unlessDisabled e inbox
  split
  · exact onExtraCapabilities data e inbox
  split
  · exact sendExtraCapabilities.unlessDisabled e inbox
  · rfl

theorem onPdu (pdu : Pdu) : IgnoresInbox (·.onPdu pdu) := by
  intro e inbox
  show (e.withInbox inbox).onPdu pdu = (e.onPdu pdu).withInbox inbox
  unfold Endpoint.onPdu
  split
  · rfl
  split
  · exact onCmeMessage pdu.data e inbox
  · rfl

/-- Everything but a payload leaves the inbox alone, one case for each operation. -/
theorem perform {op : Operation} (notReceive : ∀ payload, op ≠ .receive payload) :
    IgnoresInbox (·.perform op) := by
  cases op with
  | addClient client => exact addClient client
  | removeClient id => exact fun e inbox => rfl
  | startTransmit emitter => exact startTransmit emitter
  | stopTransmit => exact fun e inbox => rfl
  | sendClientList => exact sendClientList
  | sendExtraCapabilities => exact sendExtraCapabilities
  | sendExtraCapabilitiesOf id octets => exact sendExtraCapabilitiesOf id octets
  | requestClientList => exact transmitCme (cmeHead .clientList .command)
  | requestExtraCapabilities id => exact requestExtraCapabilities id
  | sendPdu id pdu => exact sendPdu id pdu
  | receive payload => exact absurd rfl (notReceive payload)
  | onPdu pdu => exact onPdu pdu
  | onCmeMessage data => exact onCmeMessage data
  | onClientList data => exact onClientList data
  | onClientListCommand => exact sendClientList.unlessDisabled
  | onExtraCapabilities data => exact onExtraCapabilities data
  | onExtraCapabilitiesCommand => exact sendExtraCapabilities.unlessDisabled

end IgnoresInbox

/-! ## Endpoints with different inboxes -/

/-- The second endpoint is the first with another inbox. -/
structure SameButInbox (e e' : Endpoint) : Prop where
  config : e'.config = e.config
  registry : e'.registry = e.registry
  transmitter : e'.transmitter = e.transmitter

theorem SameButInbox.refl (e : Endpoint) : SameButInbox e e := ⟨rfl, rfl, rfl⟩

/-- With the same inbox they are equal. -/
theorem SameButInbox.withInbox {e e' : Endpoint} (same : SameButInbox e e') (inbox : Pdu) :
    e'.withInbox inbox = e.withInbox inbox := by
  rw [Endpoint.withInbox, Endpoint.withInbox, same.config, same.registry, same.transmitter]

end Endpoint

/-- Nothing but the inboxes of the endpoints tells the reactions apart. -/
structure Reaction.Alike (r r' : Reaction) : Prop where
  result : r'.result = r.result
  packets : r'.packets = r.packets
  notices : r'.notices = r.notices
  endpoint : Endpoint.SameButInbox r.endpoint r'.endpoint

theorem Reaction.Alike.refl (r : Reaction) : r.Alike r := ⟨rfl, rfl, rfl, .refl r.endpoint⟩

namespace Endpoint

variable {e e' : Endpoint}

theorem IgnoresInbox.alike {op : Endpoint → Reaction} (ignores : IgnoresInbox op)
    (same : SameButInbox e e') : (op e).Alike (op e') := by
  have other : op e' = (op e).withInbox e'.inbox := by
    rw [← ignores, ← same.withInbox]
    rfl
  rw [other]
  exact ⟨rfl, rfl, rfl, rfl, rfl, rfl⟩

namespace SameButInbox

/-- A payload is read alike into inboxes that take equally large frames. -/
theorem receive (same : SameButInbox e e')
    (room : e'.inbox.frame.maxInfo = e.inbox.frame.maxInfo) (payload : Octets) :
    (e.receive payload).Alike (e'.receive payload) := by
  rcases Pdu.decode_of_maxInfo room e.config.framing payload with ⟨cause, here, there⟩ | alike
  · rw [← same.config] at there
    rw [receive_of_undecoded here, receive_of_undecoded there]
    exact ⟨rfl, rfl, rfl, same⟩
  · -- Both read the same PDU, and with it in the inbox the endpoints are equal.
    suffices equal : e'.receive payload = e.receive payload by
      rw [equal]
      exact .refl _
    rcases read : e.inbox.decode e.config.framing payload with ⟨cause | _, inbox⟩
    · have there : e'.inbox.decode e'.config.framing payload = (.error cause, inbox) := by
        rw [same.config, alike, read]
      rw [receive_of_undecoded read, receive_of_undecoded there]
      exact congrArg (refuse · _) (same.withInbox inbox)
    · have there : e'.inbox.decode e'.config.framing payload = (.ok (), inbox) := by
        rw [same.config, alike, read]
      rw [receive_of_decoded read, receive_of_decoded there]
      exact congrArg (onPdu · inbox) (same.withInbox inbox)

/-- Whatever is done to two endpoints that differ in their inboxes, they do the same. -/
theorem perform (same : SameButInbox e e')
    (room : e'.inbox.frame.maxInfo = e.inbox.frame.maxInfo) (op : Operation) :
    (e.perform op).Alike (e'.perform op) := by
  by_cases incoming : ∃ payload, op = .receive payload
  · obtain ⟨payload, rfl⟩ := incoming
    exact same.receive room payload
  · have notReceive : ∀ payload, op ≠ .receive payload := fun payload is => incoming ⟨payload, is⟩
    exact (IgnoresInbox.perform notReceive).alike same

/-- And so they do in a whole run. -/
theorem run {ops : List Operation} : ∀ {e e' : Endpoint}, Reachable e → Reachable e' →
    SameButInbox e e' → List.Forall₂ Reaction.Alike (e.run ops) (e'.run ops) := by
  induction ops with
  | nil => exact fun _ _ _ => .nil
  | cons op ops ih =>
    intro e e' reached reached' same
    have room := reached'.sound.inbox.trans reached.sound.inbox.symm
    have step := same.perform room op
    exact .cons step (ih (reached.perform op) (reached'.perform op) step.endpoint)

end SameButInbox

end Endpoint

/-! ## Payloads that cannot be decoded -/

/-- The reaction has not failed for a payload that cannot be decoded. -/
def Reaction.NotUndecodable (r : Reaction) : Prop := ∀ cause, r.result ≠ .error (.decode cause)

theorem Reaction.NotUndecodable.onPdu (e : Endpoint) (pdu : Pdu) :
    (e.onPdu pdu).NotUndecodable := by
  intro cause failed
  cases Endpoint.unsent_of_onPdu failed

namespace Endpoint

variable {e : Endpoint} {payload : Octets}

/-- A payload that cannot be decoded is refused with nothing done but what is in the inbox. -/
theorem receive_of_undecodable {cause : PduError}
    (failed : (e.receive payload).result = .error (.decode cause)) :
    ∃ inbox, e.receive payload = (e.withInbox inbox).refuse (.decode cause) := by
  rcases read : e.inbox.decode e.config.framing payload with ⟨cause' | _, inbox⟩
  · rw [receive_of_undecoded read] at failed ⊢
    cases failed
    exact ⟨inbox, rfl⟩
  · rw [receive_of_decoded read] at failed
    exact absurd failed (Reaction.NotUndecodable.onPdu _ inbox cause)

/-- A payload that cannot be decoded does nothing. Endpoints that agree in all but what earlier
payloads have left in their inboxes react alike to the next payload, and in every run. -/
theorem receive_isolated (reached : Reachable e) (payload : Octets) :
    (∀ cause, (e.receive payload).result = .error (.decode cause) →
      (e.receive payload).notices = [] ∧ (e.receive payload).packets = [] ∧
        SameButInbox e (e.receive payload).endpoint) ∧
      ∀ e', Reachable e' → SameButInbox e e' →
        (e.receive payload).Alike (e'.receive payload) ∧
          ∀ ops, List.Forall₂ Reaction.Alike (e.run ops) (e'.run ops) := by
  refine ⟨fun cause failed => ?_, fun e' reached' same => ?_⟩
  · obtain ⟨inbox, refused⟩ := receive_of_undecodable failed
    rw [refused]
    exact ⟨rfl, rfl, rfl, rfl, rfl⟩
  · have room := reached'.sound.inbox.trans reached.sound.inbox.symm
    exact ⟨same.receive room payload, fun ops => same.run reached reached'⟩

/-- One side has heard a camera, the other one has refused a frame with a foreign address; then
both refuse a payload with no frame in it, and both take the camera. -/
theorem receive_isolated_after_refusal :
    let camera := Client.plain .cameraControl 7
    let heard : Octets := [0x00, 0x0B, 0x00, 0x61, 0x03, 0, 0, 0, 0, 0x01, 0xC0, 0x11, 0x22]
    let foreign : Octets := [0x00, 0x04, 0x55, 0x61, 0x03, 0xAB]
    let e := (new ⟨.annexQ, 254⟩).after [.addClient camera, .receive heard]
    let e' := (new ⟨.annexQ, 254⟩).after [.addClient camera, .receive foreign]
    e.inbox ≠ e'.inbox ∧ (e'.receive [0x00]).notices = [] ∧ (e'.receive [0x00]).packets = [] ∧
      (e.receive heard).notices.length = 1 ∧ (e.receive heard).Alike (e'.receive heard) := by
  intro camera heard foreign e e'
  have reached : Reachable e := Reachable.after (.new _)
  have reached' : Reachable e' := Reachable.after (.new _)
  have refused : (e'.receive [0x00]).result = .error (.decode (.frame (.truncated 1))) := by
    decide +kernel
  have same : SameButInbox e e' := ⟨by decide +kernel, by decide +kernel, by decide +kernel⟩
  obtain ⟨untold, silent, _⟩ := (receive_isolated reached' [0x00]).1 _ refused
  refine ⟨by decide +kernel, untold, silent, by decide +kernel, ?_⟩
  exact ((receive_isolated reached heard).2 e' reached' same).1

end Endpoint

end SimplexControl
