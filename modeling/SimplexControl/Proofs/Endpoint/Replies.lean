import Mathlib.Data.List.Perm.Basic
import Mathlib.Logic.Function.Basic
import SimplexControl.Proofs.Endpoint.Delivery
import SimplexControl.Proofs.Endpoint.Emission

/-!
# One round of replies

Nothing that comes in is answered but a request to the managing client, and all that an answer is
made of informs. What informs is taken without failure and is not answered, whoever takes it, and
so the exchange that a payload starts is over when the replies to it have arrived.
-/

namespace SimplexControl

/-- The payload is read as a message of the managing client that informs. -/
def Informs (framing : Framing) (payload : Octets) : Prop :=
  ∃ code message, message.take 2 = cmeHead code .response ∧
    (Pdu.cme message).ReadFrom framing payload

namespace Endpoint

variable {e : Endpoint} {payload : Octets}

/-! ## What is taken in silence -/

theorem onCmeMessage_of_response {code : CmeCode} {data : Octets}
    (head : data.take 2 = cmeHead code .response) :
    (e.onCmeMessage data).result = .ok () ∧ (e.onCmeMessage data).packets = [] := by
  rcases onCmeMessage_cases e data with taken | ⟨code', request, _⟩
  · exact taken
  · -- The octet that tells a request is not that of information.
    rw [head] at request
    have mode := (List.cons.inj (List.cons.inj request).2).1
    exact absurd mode (by decide)

/-- Whoever takes what informs does not answer. -/
theorem receive_of_informs (room : e.inbox.frame.maxInfo = Frame.largestInfo)
    (informs : Informs e.config.framing payload) :
    (e.receive payload).result = .ok () ∧ (e.receive payload).packets = [] := by
  obtain ⟨code, message, head, read⟩ := informs
  rw [receive_of_readFrom read room,
    onPdu_of_cme (Pdu.destination_cme message) (Pdu.client_cme message), Pdu.data_cme]
  exact onCmeMessage_of_response head

/-! ## What answers -/

/-- All packets of the reaction inform. -/
def Informing (framing : Framing) (r : Reaction) : Prop :=
  ∀ packet ∈ r.packets, Informs framing packet.payload

theorem informing_of_silent {framing : Framing} {r : Reaction} (silent : r.packets = []) :
    Informing framing r := by
  rw [Informing, silent]
  exact List.forall_mem_nil _

theorem informing_transmitCme {code : CmeCode} {message : Octets}
    (head : message.take 2 = cmeHead code .response) :
    Informing e.config.framing (e.transmitCme message) := by
  cases result : (e.transmitCme message).result with
  | error cause =>
    exact informing_of_silent ((SendsAll.transmitCme e message).silent_of_error result).1
  | ok =>
    intro packet sent
    obtain ⟨payload, payloads, read⟩ := transmitCme_of_ok result
    have is : packet.payload = payload := by
      have present := List.mem_map_of_mem (f := Packet.payload) sent
      rw [payloads] at present
      exact List.mem_singleton.mp present
    exact ⟨code, message, head, is ▸ read⟩

/-- The frame of a message of the managing client that informs. -/
def InformingFrame (f : Frame) : Prop :=
  ∃ code, (Pdu.data ⟨f⟩).take 2 = cmeHead code .response

theorem informingFrame_cme_iff {message : Octets} : InformingFrame (Pdu.cme message).frame ↔
    ∃ code, message.take 2 = cmeHead code .response := by
  show (∃ code, (Pdu.cme message).data.take 2 = cmeHead code .response) ↔ _
  rw [Pdu.data_cme]

/-- What is made up of messages that inform informs. -/
theorem informing_of_composed {queue : List Frame} {r : Reaction} (h : e.Composed queue r)
    (frames : ∀ f ∈ queue, InformingFrame f) : Informing e.config.framing r := by
  induction h with
  | done e => exact informing_of_silent rfl
  | refuse e => exact informing_of_silent rfl
  | message e message =>
    obtain ⟨code, head⟩ := informingFrame_cme_iff.mp (frames _ List.mem_cons_self)
    exact informing_transmitCme head
  | @andThen e queue queue' r next first _ ih ih' =>
    have later := ih' fun f present => frames f (List.mem_append_right _ present)
    rw [first.onlySends.same.config] at later
    exact Reaction.packets_andThen
      (ih fun f present => frames f (List.mem_append_left _ present)) later

theorem informing_answer (e : Endpoint) (code : CmeCode) :
    Informing e.config.framing (e.answer code) := by
  cases code with
  | clientList =>
    apply informing_of_composed (.sendClientList e)
    exact List.forall_mem_singleton.mpr (informingFrame_cme_iff.mpr ⟨.clientList, rfl⟩)
  | extraCapabilities =>
    apply informing_of_composed (.sendExtraCapabilities e)
    exact List.forall_mem_map.mpr fun c _ =>
      informingFrame_cme_iff.mpr ⟨.extraCapabilities, rfl⟩

/-- A reply is never a request: all that goes out upon a PDU informs. -/
theorem informing_onPdu (e : Endpoint) (pdu : Pdu) : Informing e.config.framing (e.onPdu pdu) := by
  rcases onPdu_cases e pdu with ⟨_, silent⟩ | ⟨_, _, code, _, answered⟩
  · exact informing_of_silent silent
  · rw [Informing, answered, packets_unlessDisabled]
    exact informing_answer e code

theorem informing_receive (e : Endpoint) (payload : Octets) :
    Informing e.config.framing (e.receive payload) := by
  rcases read : e.inbox.decode e.config.framing payload with ⟨cause | _, inbox⟩
  · rw [receive_of_undecoded read]
    exact informing_of_silent rfl
  · rw [receive_of_decoded read]
    exact informing_onPdu { e with inbox := inbox } inbox

/-- Only who transmits answers, and only a request to the managing client. -/
theorem request_of_packets (answered : (e.receive payload).packets ≠ []) :
    e.isTransmitting ∧ ∃ pdu, e.inbox.decode e.config.framing payload = (.ok (), pdu) ∧
      pdu.destination = Pdu.broadcast ∧ pdu.client = .cme ∧
        ∃ code, pdu.data.take 2 = cmeHead code .command := by
  constructor
  · refine Option.isSome_iff_ne_none.mpr fun idle => answered ?_
    exact ((Sends.receive e payload).idle idle).1
  · rcases read : e.inbox.decode e.config.framing payload with ⟨cause | _, pdu⟩
    · rw [receive_of_undecoded read] at answered
      exact absurd rfl answered
    · rw [receive_of_decoded read] at answered
      rcases onPdu_cases { e with inbox := pdu } pdu with ⟨_, silent⟩ | request
      · exact absurd silent answered
      · obtain ⟨everyone, managing, code, head, _⟩ := request
        exact ⟨pdu, rfl, everyone, managing, code, head⟩

end Endpoint

/-! ## Exchanges -/

/-- Endpoints and the payloads that are on their way between them. -/
structure Exchange (ι : Type) where
  /-- The endpoints. -/
  side : ι → Endpoint
  /-- What is on its way. -/
  inFlight : List Octets

namespace Exchange

variable {ι : Type} [DecidableEq ι]

/-- Delivers a payload to one of the endpoints, whose replies are on their way then. -/
def deliver (x : Exchange ι) (i : ι) (payload : Octets) : Exchange ι :=
  let reaction := (x.side i).receive payload
  ⟨Function.update x.side i reaction.endpoint,
    x.inFlight.erase payload ++ reaction.packets.map Packet.payload⟩

/-- The payloads are delivered in this order, each to any of the endpoints. -/
inductive Delivers : Exchange ι → List Octets → Exchange ι → Prop
  | nil (x : Exchange ι) : Delivers x [] x
  | cons {x y : Exchange ι} {payload : Octets} {payloads : List Octets} (i : ι)
      (flying : payload ∈ x.inFlight) (rest : Delivers (x.deliver i payload) payloads y) :
      Delivers x (payload :: payloads) y

/-- The endpoints have come about and agree on the framing. -/
structure Linked (framing : Framing) (x : Exchange ι) : Prop where
  reachable : ∀ i, (x.side i).Reachable
  framing : ∀ i, (x.side i).config.framing = framing

/-- All that is on its way informs. -/
def Settling (framing : Framing) (x : Exchange ι) : Prop :=
  ∀ payload ∈ x.inFlight, Informs framing payload

variable {framing : Framing} {x y : Exchange ι} {payload : Octets}

theorem Linked.deliver (linked : x.Linked framing) (i : ι) (payload : Octets) :
    (x.deliver i payload).Linked framing := by
  have kept : ((x.side i).receive payload).endpoint.config = (x.side i).config :=
    (Endpoint.Sends.receive (x.side i) payload).config
  constructor
  · refine (Function.forall_update_iff _ fun _ (e : Endpoint) => e.Reachable).mpr ⟨?_, ?_⟩
    · exact (linked.reachable i).perform (.receive payload)
    · exact fun j _ => linked.reachable j
  · refine (Function.forall_update_iff _
      fun _ (e : Endpoint) => e.config.framing = framing).mpr ⟨?_, ?_⟩
    · exact (congrArg Config.framing kept).trans (linked.framing i)
    · exact fun j _ => linked.framing j

/-- What informs is gone when it is delivered. -/
theorem inFlight_deliver (linked : x.Linked framing) (i : ι) (informs : Informs framing payload) :
    (x.deliver i payload).inFlight = x.inFlight.erase payload := by
  rw [← linked.framing i] at informs
  have silent := (Endpoint.receive_of_informs (linked.reachable i).sound.inbox informs).2
  show x.inFlight.erase payload ++ ((x.side i).receive payload).packets.map Packet.payload = _
  rw [silent, List.map_nil, List.append_nil]

/-- Where all informs, what has been delivered and what has not make up what was on its way. -/
theorem Settling.delivered {payloads : List Octets} (settling : x.Settling framing)
    (linked : x.Linked framing) (delivers : Delivers x payloads y) :
    (payloads ++ y.inFlight).Perm x.inFlight := by
  induction delivers with
  | nil x => exact List.Perm.refl _
  | @cons x y payload payloads i flying _ ih =>
    have left := inFlight_deliver linked i (settling payload flying)
    have settling' : (x.deliver i payload).Settling framing := by
      intro p present
      rw [left] at present
      exact settling p (List.mem_of_mem_erase present)
    have later := ih settling' (linked.deliver i payload)
    rw [left] at later
    exact (later.cons payload).trans (List.perm_cons_erase flying).symm

end Exchange

namespace Endpoint

open Exchange

variable {a : Endpoint} {payload : Octets}

/-- An endpoint answers a payload only while it transmits and only if the payload is a request to
the managing client. Its replies are taken and not answered by everyone, so that an exchange which
begins with one payload consists of this payload and of the replies to it. -/
theorem receive_one_round (reached : Reachable a) (payload : Octets) :
    ((a.receive payload).packets ≠ [] →
      a.isTransmitting ∧ ∃ pdu, a.inbox.decode a.config.framing payload = (.ok (), pdu) ∧
        pdu.destination = Pdu.broadcast ∧ pdu.client = .cme ∧
          ([0x01, 0xFF] <+: pdu.data ∨ [0x02, 0xFF] <+: pdu.data)) ∧
      (∀ packet ∈ (a.receive payload).packets, ∀ b, Reachable b →
        b.config.framing = a.config.framing →
          (b.receive packet.payload).result = .ok () ∧ (b.receive packet.payload).packets = []) ∧
      ∀ (ι : Type) [DecidableEq ι] (x : Exchange ι) (i : ι), x.side i = a →
        x.Linked a.config.framing → x.inFlight = [payload] →
          ∀ later y, Delivers (x.deliver i payload) later y →
            (later ++ y.inFlight).Perm ((a.receive payload).packets.map Packet.payload) := by
  have informing := informing_receive a payload
  refine ⟨fun answered => ?_, fun packet sent b reached' same => ?_, ?_⟩
  · obtain ⟨running, pdu, read, everyone, managing, code, head⟩ := request_of_packets answered
    have start := List.take_prefix 2 pdu.data
    rw [head] at start
    refine ⟨running, pdu, read, everyone, managing, ?_⟩
    cases code with
    | clientList => exact .inl start
    | extraCapabilities => exact .inr start
  · have informs := informing packet sent
    rw [← same] at informs
    exact receive_of_informs reached'.sound.inbox informs
  · rintro ι _ x i rfl linked alone later y delivers
    have replies : (x.deliver i payload).inFlight =
        ((x.side i).receive payload).packets.map Packet.payload := by
      show x.inFlight.erase payload ++ _ = _
      rw [alone, List.erase_cons_head, List.nil_append]
    have settling : (x.deliver i payload).Settling (x.side i).config.framing := by
      intro p present
      rw [replies] at present
      obtain ⟨packet, sent, rfl⟩ := List.mem_map.mp present
      exact informing packet sent
    rw [← replies]
    exact settling.delivered (linked.deliver i payload) delivers

/-- Two endpoints that transmit, a request for extra capabilities, and a camera whose capabilities
are the octets of such a request. -/
theorem receive_one_round_capabilities :
    let e := (new ⟨.annexQ, 254⟩).after [.addClient ⟨.cameraControl, 0, true, some [0x02, 0xFF]⟩,
      .addClient ⟨.extended 9, 1, true, some [7]⟩, .startTransmit 0]
    let request : Octets := [0x00, 0x0B, 0x00, 0x71, 0x03, 0, 0, 0, 0, 0, 0xC0, 0x02, 0xFF]
    let first : Octets :=
      [0x00, 0x0E, 0x00, 0x71, 0x03, 0, 0, 0, 0, 0, 0xC0, 0x02, 0x00, 0x81, 0x02, 0xFF]
    let second : Octets :=
      [0x00, 0x0E, 0x00, 0x71, 0x03, 0, 0, 0, 0, 0, 0xC0, 0x02, 0x00, 0xFE, 0x09, 0x07]
    let asked : Exchange Bool := Exchange.deliver ⟨fun _ => e, [request]⟩ true request
    e.isTransmitting ∧ asked.inFlight = [first, second] ∧
      (e.receive first).result = .ok () ∧ (e.receive first).packets = [] ∧
      ((asked.deliver false second).deliver true first).inFlight = [] := by
  intro e request first second asked
  have reached : Reachable e := Reachable.after (.new _)
  have answered : (e.receive request).packets = [⟨0, first, true⟩, ⟨0, second, true⟩] := by
    decide +kernel
  have replies : asked.inFlight = [first, second] := by decide +kernel
  have waiting : (asked.deliver false second).inFlight = [first] := by decide +kernel
  -- What is left holds of any endpoint that answers so, and this one need not be run again.
  clear_value e
  obtain ⟨requested, taken, exchanged⟩ := receive_one_round reached request
  rw [answered] at requested taken exchanged
  obtain ⟨done, silent⟩ := taken ⟨0, first, true⟩ List.mem_cons_self e reached rfl
  have delivers : Delivers asked [second, first] ((asked.deliver false second).deliver true first) :=
    .cons false (by rw [replies]; simp) (.cons true (by rw [waiting]; simp) (.nil _))
  have settled := exchanged Bool ⟨fun _ => e, [request]⟩ true rfl ⟨fun _ => reached, fun _ => rfl⟩
    rfl _ _ delivers
  refine ⟨(requested (List.cons_ne_nil _ _)).1, replies, done, silent, ?_⟩
  exact List.eq_nil_of_length_eq_zero (by simpa using settled.length_eq)

end Endpoint

end SimplexControl
