import SimplexControl.Proofs.Endpoint.Announcing
import SimplexControl.Proofs.Endpoint.Discipline

/-!
# Transmissions that start with a failure

The announcement of the clients fails if they are too many for one list, or if the extra
capabilities of one of them are too large. The transmission has begun by then and goes on, so that
a later start finds it running and succeeds: what has not been announced is not announced again.
-/

namespace SimplexControl

theorem Client.length_announcement_le (c : Client) : c.announcement.length ≤ 6 := by
  rw [Client.announcement, ClientId.write, List.length_cons]
  cases c.id <;> simp [ClientId.extension, Octets.ofWord]

/-- A client list always has room in a frame. -/
theorem Registry.clientListMessage_small {r : Registry} (few : r.size ≤ largestClientList) :
    (Pdu.cme r.clientListMessage).frame.info.length ≤ Frame.largestInfo := by
  have announced (entries : List Entry) :
      (entries.flatMap fun e => e.client.announcement).length ≤ 6 * entries.length := by
    induction entries with
    | nil => exact Nat.le_refl 0
    | cons e entries ih =>
      have first := e.client.length_announcement_le
      rw [List.flatMap_cons, List.length_append, List.length_cons]
      omega
  have total := announced r.entries
  have head : (cmeHead .clientList .response).length = 2 := rfl
  have room : Pdu.cmeHeader.length + (2 + (6 * 255 + 1)) ≤ Frame.largestInfo := by decide
  rw [Registry.size, largestClientList] at few
  rw [Pdu.length_info_cme, Registry.clientListMessage, List.length_append, List.length_cons, head]
  omega

namespace Endpoint

open Announcement

variable {e : Endpoint} {message : Octets}

/-! ## What can be sent -/

/-- The result of sending where nothing but want of a transmission is in the way. -/
def lineResult (e : Endpoint) : Except EndpointError Unit :=
  if e.isTransmitting then .ok () else .error .transmitDisabled

theorem lineResult_of_running (running : e.isTransmitting) : e.lineResult = .ok () :=
  if_pos running

theorem lineResult_of_stopped (stopped : e.transmitter = none) :
    e.lineResult = .error .transmitDisabled := if_neg (by simp [isTransmitting, stopped])

theorem lineResult_ne {cause : EndpointError} (other : cause ≠ .transmitDisabled) :
    .error cause ≠ e.lineResult := by
  unfold lineResult
  split
  · nofun
  · exact fun same => other (Except.error.inj same)

theorem transmitCme_eq_lineResult_iff :
    (e.transmitCme message).result = e.lineResult ↔
      (Pdu.cme message).frame.info.length ≤ Frame.largestInfo := by
  constructor
  · intro result
    cases made : Pdu.ofCme message with
    | error cause =>
      rw [transmitCme, made] at result
      exact absurd result (lineResult_ne (by simp))
    | ok pdu => exact (Pdu.ofCme_eq_ok_iff.mp made).2
  · intro small
    rw [transmitCme, Pdu.ofCme_eq_ok_iff.mpr ⟨rfl, small⟩]
    exact result_transmit (Frame.encodes_of_small small _)

theorem sendClientList_eq_ok_iff (running : e.isTransmitting) :
    e.sendClientList.result = .ok () ↔ e.registry.size ≤ largestClientList := by
  constructor
  · exact fun done => (sendClientList_of_ok done).1
  · intro few
    have started : ¬ e.transmitter.isNone := by
      rw [Option.isNone_eq_false_iff.mpr running]
      exact Bool.false_ne_true
    rw [sendClientList, if_neg started, if_neg (Nat.not_lt.mpr few), ← lineResult_of_running running,
      transmitCme_eq_lineResult_iff]
    exact Registry.clientListMessage_small few

/-- Extra capabilities that are within the maximum for client data and within that for frames. -/
structure Sendable (config : Config) (id : ClientId) (octets : Octets) : Prop where
  data : (capabilitiesMessage id octets).length ≤ config.maxData
  info : (Pdu.cme (capabilitiesMessage id octets)).frame.info.length ≤ Frame.largestInfo

theorem sendExtraCapabilitiesOf_eq_lineResult_iff {id : ClientId} {entry : Entry} {octets : Octets}
    (found : e.registry.find? id = some entry) (announced : entry.client.hasExtra) :
    (e.sendExtraCapabilitiesOf id octets).result = e.lineResult ↔ Sendable e.config id octets := by
  unfold sendExtraCapabilitiesOf
  rw [found]
  dsimp only
  rw [capabilitiesMessage_of_find? found announced]
  split
  · next large =>
    constructor
    · exact fun result => absurd result (lineResult_ne (by simp))
    · exact fun small => absurd small.data (Nat.not_le.mpr large)
  · next fits =>
    rw [transmitCme_eq_lineResult_iff]
    exact ⟨fun small => ⟨Nat.not_lt.mp fits, small⟩, Sendable.info⟩

theorem Sends.isTransmitting {queue : List Frame} {r : Reaction} (sends : e.Sends queue r)
    (running : e.isTransmitting) : r.endpoint.isTransmitting := by
  obtain ⟨t, started⟩ := Option.isSome_iff_exists.mp running
  obtain ⟨t', running', _⟩ := sends.running t started
  exact Option.isSome_iff_exists.mpr ⟨t', running'⟩

/-- Extra capabilities go out one after another exactly if each of them can. -/
theorem sendAll_eq_ok_iff {remote : Registry} {caps : List (ClientId × Octets)}
    (each : ∀ c ∈ caps, ∃ entry, remote.find? c.1 = some entry ∧ entry.client.hasExtra) :
    ∀ e : Endpoint, e.registry = remote → e.isTransmitting →
      ((e.doAll (caps.map fun (id, octets) e => e.sendExtraCapabilitiesOf id octets)).result =
        .ok () ↔ ∀ c ∈ caps, Sendable e.config c.1 c.2) := by
  induction caps with
  | nil => exact fun e _ _ => ⟨nofun, fun _ => rfl⟩
  | cons c caps ih =>
    rintro e rfl running
    obtain ⟨entry, found, announced⟩ := each c List.mem_cons_self
    have first := Composed.sendExtraCapabilitiesOf e c.1 c.2
    have same := first.onlySends.same
    have running' := first.sendsAll.toSends.isTransmitting running
    have later := ih (fun c present => each c (List.mem_cons_of_mem _ present)) _ same.registry
      running'
    rw [same.config] at later
    rw [List.forall_mem_cons, ← later,
      ← sendExtraCapabilitiesOf_eq_lineResult_iff found announced, lineResult_of_running running]
    exact Reaction.result_andThen_iff

/-! ## The start of a transmission -/

/-- All that there is to announce can be sent. -/
structure Announceable (e : Endpoint) : Prop where
  few : e.registry.size ≤ largestClientList
  small : ∀ c ∈ e.registry.extraCapabilities, Sendable e.config c.1 c.2

/-- All announcements are in the packets of the reaction, in order. -/
def Announces (e : Endpoint) (r : Reaction) : Prop :=
  List.Forall₂ (InPayload e.registry e.config.framing) (r.packets.map Packet.payload)
    e.registry.announcements

theorem isTransmitting_startTransmit (e : Endpoint) (emitter : Nat) :
    (e.startTransmit emitter).endpoint.isTransmitting :=
  isTransmitting_iff_emitter?.mpr ⟨_, (perform_emitter e (.startTransmit emitter)).1⟩

variable {emitter : Nat}

/-- A transmission starts without failure exactly if all that there is to announce can be sent. -/
theorem startTransmit_eq_ok_iff (sound : e.registry.Sound) (idle : e.transmitter = none) :
    (e.startTransmit emitter).result = .ok () ↔ e.Announceable := by
  have running : (e.started emitter).isTransmitting := rfl
  have listed := Composed.sendClientList (e.started emitter)
  have same := listed.onlySends.same
  have running' := listed.sendsAll.toSends.isTransmitting running
  have capable := sendAll_eq_ok_iff (fun c present => (sound.of_mem_extraCapabilities present).2) _
    same.registry running'
  rw [same.config] at capable
  rw [startTransmit_of_idle idle, Reaction.result_andThen_iff, sendClientList_eq_ok_iff running,
    sendExtraCapabilities, same.registry]
  constructor
  · exact fun done => ⟨done.1, capable.mp done.2⟩
  · exact fun able => ⟨able.few, capable.mpr able.small⟩

/-- Exactly then is everything announced. -/
theorem announces_startTransmit_iff (sound : e.registry.Sound) (idle : e.transmitter = none) :
    e.Announces (e.startTransmit emitter) ↔ e.Announceable := by
  rw [← startTransmit_eq_ok_iff sound idle]
  constructor
  · intro announced
    have count := announced.length_eq
    rw [(SendsAll.startTransmit idle emitter).complete]
    simpa [queued, idle, Registry.announcements, Registry.capabilitiesFrames] using count
  · exact fun done => (startTransmit_of_ok sound idle done).2

/-- A start leaves the endpoint transmitting, whether it has failed or not, and it has failed
exactly if not everything can be announced. Whatever has been done before, the transmission that
runs behind a start is one in which all has been announced exactly if it could be when the
transmission began. -/
theorem startTransmit_announces (config : Config) (ops : List Operation) (emitter : Nat) :
    let e := (new config).after ops
    (e.transmitter = none →
      (e.startTransmit emitter).endpoint.isTransmitting ∧
        (e.startTransmit emitter).endpoint.registry = e.registry ∧
        ((e.startTransmit emitter).result = .ok () ↔ e.Announceable) ∧
        (e.Announces (e.startTransmit emitter) ↔ e.Announceable)) ∧
      ∃ before emitter' within,
        ops ++ [.startTransmit emitter] = before ++ .startTransmit emitter' :: within ∧
          .stopTransmit ∉ within ∧
          let begun := (new config).after before
          begun.transmitter = none ∧
            (begun.Announces (begun.startTransmit emitter') ↔ begun.Announceable) := by
  intro e
  have sound (before : List Operation) : ((new config).after before).registry.Sound :=
    (Reachable.after (.new config)).sound.registry
  have running : ((new config).after (ops ++ [.startTransmit emitter])).isTransmitting := by
    rw [after_concat]
    exact isTransmitting_startTransmit e emitter
  obtain ⟨emitter', current⟩ := isTransmitting_iff_emitter?.mp running
  obtain ⟨before, within, history, going, idle⟩ := exists_start_of_emitter? config _ current
  refine ⟨fun idle => ⟨isTransmitting_startTransmit e emitter,
    (startTransmit_same e emitter).registry, startTransmit_eq_ok_iff (sound ops) idle,
    announces_startTransmit_iff (sound ops) idle⟩, ?_⟩
  exact ⟨before, emitter', within, history, going, idle,
    announces_startTransmit_iff (sound before) idle⟩

/-- A camera whose extra capabilities are just small enough. -/
theorem startTransmit_announces_camera :
    let e := (new ⟨.annexQ, 5⟩).after [.addClient ⟨.cameraControl, 0, true, some [1, 2]⟩]
    e.transmitter = none ∧ (e.startTransmit 0).result = .ok () ∧ e.Announces (e.startTransmit 0) := by
  intro e
  have idle : e.transmitter = none := by decide
  have done : (e.startTransmit 0).result = .ok () := by decide
  obtain ⟨_, _, able, announced⟩ := (startTransmit_announces ⟨.annexQ, 5⟩
    [.addClient ⟨.cameraControl, 0, true, some [1, 2]⟩] 0).1 idle
  exact ⟨idle, done, announced.mpr (able.mp done)⟩

/-- The same camera where they are too large: the start fails behind the client list, the
transmission runs, and another start succeeds without announcing anything. -/
theorem startTransmit_announces_not_again :
    let e := (new ⟨.annexQ, 2⟩).after [.addClient ⟨.cameraControl, 0, true, some [1, 2]⟩]
    let failed := e.startTransmit 0
    let again := failed.endpoint.startTransmit 1
    e.transmitter = none ∧ failed.result = .error (.dataTooLarge 5 2) ∧
      failed.packets.length < e.registry.announcements.length ∧
      failed.endpoint.isTransmitting ∧ again.result = .ok () ∧ again.packets = [] := by
  decide

end Endpoint

end SimplexControl
