import Mathlib.Data.List.Forall2
import Mathlib.Data.List.Nodup
import SimplexControl.Proofs.Endpoint.Agreement
import SimplexControl.Proofs.Endpoint.Reachable

/-!
# Announcing the clients

A started transmission announces the clients: their list first and then the extra capabilities.
The other side may get the packets in any order and any number of times. Once it has had the
list, the reports in its registry agree with the clients that were announced.
-/

namespace SimplexControl

/-- What a started transmission announces. -/
inductive Announcement
  /-- The clients. -/
  | clientList
  /-- The extra capabilities of one of them. -/
  | capabilities (id : ClientId) (octets : Octets)

namespace Announcement

/-- The message of the managing client that makes the announcement. -/
def message (remote : Registry) : Announcement → Octets
  | .clientList => remote.clientListMessage
  | .capabilities id octets => capabilitiesMessage id octets

/-- The payload is read as this message. -/
def InPayload (remote : Registry) (framing : Framing) (payload : Octets) (m : Announcement) :
    Prop :=
  (Pdu.cme (m.message remote)).ReadFrom framing payload

end Announcement

namespace Registry

variable {r : Registry}

/-- What a registry has announced, in order. -/
def announcements (r : Registry) : List Announcement :=
  .clientList :: r.extraCapabilities.map fun c => .capabilities c.1 c.2

/-- Extra capabilities are those of a registered client that announces them. -/
theorem Sound.of_mem_extraCapabilities (h : r.Sound) {c : ClientId × Octets}
    (present : c ∈ r.extraCapabilities) :
    c.1.isValid ∧ ∃ e, r.find? c.1 = some e ∧ e.client.hasExtra := by
  obtain ⟨e, filtered, made⟩ := List.mem_filterMap.mp present
  obtain ⟨entry, announced⟩ := List.mem_filter.mp filtered
  obtain ⟨octets, _, rfl⟩ := Option.map_eq_some_iff.mp made
  exact ⟨h.valid (List.mem_map_of_mem entry), e, h.find?_eq_some_iff.mpr ⟨entry, rfl⟩,
    announced⟩

end Registry

namespace Endpoint

open Announcement

variable {e : Endpoint}

/-! ## What is sent -/

theorem sendClientList_of_ok (done : e.sendClientList.result = .ok ()) :
    e.registry.size ≤ largestClientList ∧
      ∃ payload, e.sendClientList.packets.map Packet.payload = [payload] ∧
        InPayload e.registry e.config.framing payload .clientList := by
  unfold sendClientList at done ⊢
  split at done
  · cases done
  next running =>
  split at done
  · cases done
  next few =>
  rw [if_neg running, if_neg few]
  exact ⟨Nat.not_lt.mp few, transmitCme_of_ok done⟩

/-- What is sent for a client that announces extra capabilities. -/
theorem capabilitiesMessage_of_find? {id : ClientId} {entry : Entry}
    (found : e.registry.find? id = some entry) (announced : entry.client.hasExtra)
    (octets : Octets) :
    cmeHead .extraCapabilities .response ++ entry.client.announcement ++ octets =
      capabilitiesMessage id octets := by
  have named : entry.client.id = id := (Registry.of_find? found).2
  rw [Client.announcement, announced, named]
  rfl

theorem sendExtraCapabilitiesOf_of_ok {id : ClientId} {entry : Entry} {octets : Octets}
    (found : e.registry.find? id = some entry) (announced : entry.client.hasExtra)
    (done : (e.sendExtraCapabilitiesOf id octets).result = .ok ()) :
    ∃ payload, (e.sendExtraCapabilitiesOf id octets).packets.map Packet.payload = [payload] ∧
      InPayload e.registry e.config.framing payload (.capabilities id octets) := by
  unfold sendExtraCapabilitiesOf at done ⊢
  rw [found] at done ⊢
  dsimp only at done ⊢
  rw [capabilitiesMessage_of_find? found announced] at done ⊢
  split at done
  · cases done
  next fits =>
  rw [if_neg fits]
  exact transmitCme_of_ok done

/-- One packet for each of the extra capabilities, as long as nothing fails. -/
theorem sendAll_of_ok {remote : Registry} {caps : List (ClientId × Octets)}
    (each : ∀ c ∈ caps, ∃ entry, remote.find? c.1 = some entry ∧ entry.client.hasExtra) :
    ∀ e : Endpoint, e.registry = remote →
      let sent := e.doAll (caps.map fun (id, octets) e => e.sendExtraCapabilitiesOf id octets)
      sent.result = .ok () →
        List.Forall₂ (InPayload remote e.config.framing) (sent.packets.map Packet.payload)
          (caps.map fun c => .capabilities c.1 c.2) := by
  induction caps with
  | nil => exact fun e _ _ => .nil
  | cons c caps ih =>
    obtain ⟨id, octets⟩ := c
    rintro e rfl sent done
    obtain ⟨first, rest⟩ := Reaction.result_andThen_iff.mp done
    obtain ⟨entry, found, announced⟩ := each (id, octets) List.mem_cons_self
    obtain ⟨payload, packets, read⟩ := sendExtraCapabilitiesOf_of_ok found announced first
    have same := (Composed.sendExtraCapabilitiesOf e id octets).onlySends.same
    have later := ih (fun c present => each c (List.mem_cons_of_mem _ present)) _ same.registry rest
    rw [same.config] at later
    show List.Forall₂ _ ((Reaction.andThen _ _).packets.map Packet.payload) _
    rw [Reaction.andThen_of_ok first, List.map_append, packets]
    exact .cons read later

/-- A transmission that starts without failure has sent all announcements, each in a packet. -/
theorem startTransmit_of_ok (sound : e.registry.Sound) (idle : e.transmitter = none)
    {emitter : Nat} (done : (e.startTransmit emitter).result = .ok ()) :
    e.registry.size ≤ largestClientList ∧
      List.Forall₂ (InPayload e.registry e.config.framing)
        ((e.startTransmit emitter).packets.map Packet.payload) e.registry.announcements := by
  rw [startTransmit_of_idle idle] at done ⊢
  obtain ⟨listed, rest⟩ := Reaction.result_andThen_iff.mp done
  obtain ⟨few, payload, packets, read⟩ := sendClientList_of_ok listed
  have same := (Composed.sendClientList (e.started emitter)).onlySends.same
  rw [sendExtraCapabilities, same.registry] at rest
  have later := sendAll_of_ok (fun c present => (sound.of_mem_extraCapabilities present).2) _
    same.registry rest
  rw [same.config] at later
  refine ⟨few, ?_⟩
  rw [Reaction.andThen_of_ok listed, List.map_append, packets, sendExtraCapabilities, same.registry]
  exact .cons read later

theorem sendClientList_of_many (running : e.transmitter.isSome)
    (many : largestClientList < e.registry.size) :
    e.sendClientList = e.refuse (.dataTooLarge e.registry.size largestClientList) := by
  have notIdle : ¬ e.transmitter.isNone := by simpa [Option.isSome_iff_ne_none] using running
  rw [sendClientList, if_neg notIdle, if_pos many]

/-- A list of too many clients is not sent, and nothing else is then. -/
theorem startTransmit_of_many (idle : e.transmitter = none)
    (many : largestClientList < e.registry.size) (emitter : Nat) :
    (e.startTransmit emitter).result =
        .error (.dataTooLarge e.registry.size largestClientList) ∧
      (e.startTransmit emitter).packets = [] := by
  have refused : (e.started emitter).sendClientList = _ := sendClientList_of_many rfl many
  rw [startTransmit_of_idle idle, refused, Reaction.andThen_of_error rfl]
  exact ⟨rfl, rfl⟩

end Endpoint

/-! ## What is heard -/

/-- Whether a client is told of extra capabilities. -/
def Notice.isCapabilities (n : Notice) : Bool :=
  match n.event with
  | .extraCapabilities _ => true
  | _ => false

namespace Registry

theorem filter_resetNotices (r : Registry) : r.resetNotices.filter Notice.isCapabilities = [] := by
  refine List.filter_eq_nil_iff.mpr fun n told => ?_
  obtain ⟨e, _, rfl⟩ := List.mem_map.mp told
  exact Bool.false_ne_true

theorem filter_availability (r : Registry) (id : ClientId) (available hasExtra : Bool) :
    (r.notice? id (.availability available hasExtra)).toList.filter Notice.isCapabilities = [] := by
  rw [notice?]
  cases r.find? id with
  | none => rfl
  | some e => rfl

theorem filter_listedNotices (r : Registry) (remote : List ClientId.Parsed) :
    (r.listedNotices remote).filter Notice.isCapabilities = [] := by
  induction remote with
  | nil => rfl
  | cons entry remote ih =>
    rw [listedNotices, List.flatMap_cons, List.filter_append, filter_availability]
    exact ih

theorem filter_extraCapabilities (r : Registry) (id : ClientId) (octets : Octets) :
    (r.notice? id (.extraCapabilities octets)).toList.filter Notice.isCapabilities =
      (r.notice? id (.extraCapabilities octets)).toList := by
  rw [notice?]
  cases r.find? id with
  | none => rfl
  | some e => rfl

end Registry

namespace Announcement

variable {remote r s : Registry} {m : Announcement}

/-- The registry that an announcement makes of one that hears it. -/
def heard (remote r : Registry) : Announcement → Registry
  | .clientList => r.agreeing remote
  | .capabilities id _ => r.reported id true true

/-- What the clients are told of extra capabilities in an announcement. -/
def told (r : Registry) : Announcement → List Notice
  | .clientList => []
  | .capabilities id octets => (r.notice? id (.extraCapabilities octets)).toList

theorem clients_heard (remote r : Registry) (m : Announcement) :
    (m.heard remote r).clients = r.clients := by
  cases m with
  | clientList => exact Registry.clients_agreeing r remote
  | capabilities id octets => exact Registry.clients_reported r id true true

theorem told_of_clients (same : s.clients = r.clients) (m : Announcement) :
    m.told s = m.told r := by
  cases m with
  | clientList => rfl
  | capabilities id octets => rw [told, told, Registry.notice?_of_clients same]

/-- Once there is agreement nothing that is announced changes it. -/
theorem heard_agreeing (sound : remote.Sound) (announced : m ∈ remote.announcements)
    (r : Registry) : m.heard remote (r.agreeing remote) = r.agreeing remote := by
  rcases List.mem_cons.mp announced with rfl | later
  · exact Registry.agreeing_agreeing r remote
  · obtain ⟨c, present, rfl⟩ := List.mem_map.mp later
    obtain ⟨_, e, found, hasExtra⟩ := sound.of_mem_extraCapabilities present
    refine Registry.reported_agreeing ?_ ?_ r
    · rw [Registry.contains, found]
      rfl
    · rw [Registry.announces, found]
      exact hasExtra

end Announcement

namespace Endpoint

open Announcement

variable {b : Endpoint} {remote : Registry} {m : Announcement} {payload : Octets}

/-- One announcement, whatever has come before it. -/
theorem receive_announcement (sound : remote.Sound) (few : remote.size ≤ largestClientList)
    (inbox : b.inbox.frame.maxInfo = Frame.largestInfo) (announced : m ∈ remote.announcements)
    (read : m.InPayload remote b.config.framing payload) :
    (b.receive payload).endpoint =
        { b with registry := m.heard remote b.registry, inbox := Pdu.cme (m.message remote) } ∧
      (b.receive payload).notices.filter Notice.isCapabilities = m.told b.registry := by
  rw [receive_of_readFrom read inbox, onPdu_of_cme (Pdu.destination_cme _) (Pdu.client_cme _),
    Pdu.data_cme]
  rcases List.mem_cons.mp announced with rfl | later
  · rw [message, onCmeMessage_clientListMessage sound few]
    refine ⟨rfl, ?_⟩
    show List.filter _ (_ ++ _) = []
    rw [List.filter_append, Registry.filter_resetNotices, Registry.filter_listedNotices]
    rfl
  · obtain ⟨c, present, rfl⟩ := List.mem_map.mp later
    obtain ⟨valid, _⟩ := sound.of_mem_extraCapabilities present
    rw [message, onCmeMessage_capabilitiesMessage valid]
    refine ⟨rfl, ?_⟩
    show List.filter _ (_ ++ _) = _
    rw [List.filter_append, Registry.filter_availability, Registry.filter_extraCapabilities]
    rfl

/-- However often announcements come, and in whatever order, the list among them settles the
reports. -/
theorem after_announcements (sound : remote.Sound) (few : remote.size ≤ largestClientList)
    {received : List Octets} : ∀ b : Endpoint, b.inbox.frame.maxInfo = Frame.largestInfo →
      (∀ p ∈ received, ∃ m ∈ remote.announcements, m.InPayload remote b.config.framing p) →
      ((∃ p ∈ received, InPayload remote b.config.framing p .clientList) ∨
        b.registry = b.registry.agreeing remote) →
      (b.after (received.map .receive)).registry = b.registry.agreeing remote := by
  induction received with
  | nil =>
    rintro b _ _ (⟨p, absent, _⟩ | settled)
    · exact absurd absent List.not_mem_nil
    · exact settled
  | cons p received ih =>
    intro b inbox each listed
    -- The first payload is the list, or the list is still to come, or all is settled already.
    obtain ⟨m, announced, read, cause⟩ : ∃ m ∈ remote.announcements,
        m.InPayload remote b.config.framing p ∧
          ((∃ q ∈ received, InPayload remote b.config.framing q .clientList) ∨
            m.heard remote b.registry = b.registry.agreeing remote) := by
      obtain ⟨m, announced, read⟩ := each p List.mem_cons_self
      rcases listed with ⟨q, present, list⟩ | settled
      · rcases List.mem_cons.mp present with rfl | later
        · exact ⟨.clientList, List.mem_cons_self, list, .inr rfl⟩
        · exact ⟨m, announced, read, .inl ⟨q, later, list⟩⟩
      · have kept := heard_agreeing sound announced b.registry
        rw [← settled] at kept
        exact ⟨m, announced, read, .inr (kept.trans settled)⟩
    have same : (m.heard remote b.registry).agreeing remote = b.registry.agreeing remote :=
      Registry.agreeing_of_clients (clients_heard remote b.registry m)
    have next := (receive_announcement sound few inbox announced read).1
    show ((b.receive p).endpoint.after _).registry = _
    rw [next, ← same]
    refine ih _ rfl (fun q present => each q (List.mem_cons_of_mem p present)) ?_
    exact cause.imp_right fun settled => settled.trans same.symm

/-- What the clients are told of extra capabilities is told once for each packet with some. -/
theorem run_announcements (sound : remote.Sound) (few : remote.size ≤ largestClientList)
    {framing : Framing} {payloads : List Octets} {ms : List Announcement}
    (read : List.Forall₂ (InPayload remote framing) payloads ms) :
    (∀ m ∈ ms, m ∈ remote.announcements) → ∀ b : Endpoint, b.config.framing = framing →
      b.inbox.frame.maxInfo = Frame.largestInfo →
      ((b.run (payloads.map .receive)).flatMap Reaction.notices).filter Notice.isCapabilities =
        ms.flatMap (·.told b.registry) := by
  induction read with
  | nil => exact fun _ _ _ _ => rfl
  | @cons p m payloads ms first _ ih =>
    rintro each b rfl inbox
    obtain ⟨next, told⟩ := receive_announcement sound few inbox (each m List.mem_cons_self) first
    have later := ih (fun m present => each m (List.mem_cons_of_mem _ present))
      (b.receive p).endpoint (by rw [next]) (by rw [next]; rfl)
    have same := clients_heard remote b.registry m
    show List.filter _ ((b.receive p).notices ++
      ((b.receive p).endpoint.run _).flatMap Reaction.notices) = _
    rw [List.filter_append, told, later, next, List.flatMap_cons]
    simp only [told_of_clients same]

end Endpoint

end SimplexControl
