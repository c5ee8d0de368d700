import Mathlib.Data.List.Perm.Basic
import Mathlib.Data.List.ProdSigma
import Mathlib.Data.Prod.Basic
import SimplexControl.Proofs.Endpoint.Announcing

/-!
# Counterparts

Two clients of one identification, one on each side, are counterparts. Both sides find the same
pairs, each in the order of its own registry, so what one side sends for each pair is what the
other side is told for each.
-/

namespace SimplexControl

/-- The extra capabilities that a client announces and has to send. -/
def Client.offered (c : Client) : Option Octets := if c.hasExtra then c.extra else none

namespace Registry

variable {r remote : Registry}

/-- The entries with their counterparts. -/
def counterparts (r remote : Registry) : List (Entry × Entry) :=
  r.entries.filterMap fun e => (remote.find? e.id).map (e, ·)

theorem mem_counterparts (h : remote.Sound) {p : Entry × Entry} :
    p ∈ r.counterparts remote ↔ p.1 ∈ r.entries ∧ p.2 ∈ remote.entries ∧ p.2.id = p.1.id := by
  rw [counterparts, List.mem_filterMap]
  constructor
  · rintro ⟨e, present, paired⟩
    obtain ⟨x, found, rfl⟩ := Option.map_eq_some_iff.mp paired
    exact ⟨present, of_find? found⟩
  · rintro ⟨present, counterpart⟩
    refine ⟨p.1, present, ?_⟩
    rw [h.find?_eq_some_iff.mpr counterpart]
    rfl

theorem nodup_counterparts (h : r.Sound) (remote : Registry) : (r.counterparts remote).Nodup := by
  refine List.Nodup.filterMap ?_ (List.Nodup.of_map Entry.id h.nodup)
  intro e e' p ofE ofE'
  obtain ⟨x, _, rfl⟩ := Option.map_eq_some_iff.mp ofE
  obtain ⟨x', _, same⟩ := Option.map_eq_some_iff.mp ofE'
  exact (congrArg Prod.fst same).symm

/-- Both sides have the same pairs. -/
theorem counterparts_perm (h : r.Sound) (h' : remote.Sound) :
    ((remote.counterparts r).map Prod.swap).Perm (r.counterparts remote) := by
  have once := (nodup_counterparts h' r).map Prod.swap_injective
  refine (List.perm_ext_iff_of_nodup once (nodup_counterparts h remote)).mpr fun p => ?_
  obtain ⟨e, x⟩ := p
  rw [List.mem_map_swap, mem_counterparts h, mem_counterparts h']
  constructor
  · rintro ⟨there, here, same⟩
    exact ⟨here, there, same.symm⟩
  · rintro ⟨here, there, same⟩
    exact ⟨there, here, same.symm⟩

/-- What the clients are to be told of the extra capabilities of their counterparts. -/
def capabilitiesFrom (r remote : Registry) : List Notice :=
  r.entries.filterMap fun e =>
    ((remote.find? e.id).bind (·.client.offered)).map fun octets =>
      e.notice (.extraCapabilities octets)

/-- What one of a pair is told of the other. -/
def pairNotice (p : Entry × Entry) : Option Notice :=
  p.2.client.offered.map fun octets => p.1.notice (.extraCapabilities octets)

theorem capabilitiesFrom_eq (r remote : Registry) :
    r.capabilitiesFrom remote = (r.counterparts remote).filterMap pairNotice := by
  rw [capabilitiesFrom, counterparts, List.filterMap_filterMap]
  refine List.filterMap_congr fun e _ => ?_
  cases remote.find? e.id with
  | none => rfl
  | some x => rfl

theorem extraCapabilities_eq (r : Registry) :
    r.extraCapabilities = r.entries.filterMap fun e => e.client.offered.map (e.id, ·) := by
  rw [extraCapabilities, List.filterMap_filter]
  refine List.filterMap_congr fun e _ => ?_
  rw [Client.offered]
  split <;> rfl

/-- What the announcements of one side tell the clients of the other, in the order of the
sender. -/
theorem flatMap_told (r remote : Registry) :
    remote.announcements.flatMap (·.told r) =
      ((remote.counterparts r).map Prod.swap).filterMap pairNotice := by
  rw [announcements, List.flatMap_cons, List.flatMap_map, extraCapabilities_eq, counterparts]
  show List.flatMap (fun c : ClientId × Octets =>
    (r.notice? c.1 (.extraCapabilities c.2)).toList) _ = _
  rw [← List.filterMap_eq_flatMap_toList, List.filterMap_map, List.filterMap_filterMap,
    List.filterMap_filterMap]
  refine List.filterMap_congr fun e _ => ?_
  rcases offered : e.client.offered with _ | octets <;>
    rcases found : r.find? e.id with _ | x <;>
      simp [notice?, pairNotice, offered, found]

end Registry

namespace Endpoint

open Announcement

/-- Every payload that a transmission has started with makes one of its announcements. -/
theorem exists_announcement {remote : Registry} {framing : Framing} {payloads : List Octets}
    {ms : List Announcement} (read : List.Forall₂ (InPayload remote framing) payloads ms)
    {p : Octets} (present : p ∈ payloads) : ∃ m ∈ ms, m.InPayload remote framing p := by
  induction read with
  | nil => exact absurd present List.not_mem_nil
  | @cons q m payloads ms first _ ih =>
    rcases List.mem_cons.mp present with rfl | later
    · exact ⟨m, List.mem_cons_self, first⟩
    · obtain ⟨m', announced, inPayload⟩ := ih later
      exact ⟨m', List.mem_cons_of_mem m announced, inPayload⟩

/-- A transmission that starts without failure brings the other side into agreement, however its
packets arrive, and if each arrives once the extra capabilities are handed on once. With too many
clients nothing is sent. -/
theorem startTransmit_agreement {a b : Endpoint} (reached : Reachable a) (reached' : Reachable b)
    (same : b.config.framing = a.config.framing) (idle : a.transmitter = none) (emitter : Nat) :
    let started := a.startTransmit emitter
    let payloads := started.packets.map Packet.payload
    (started.result = .ok () →
      (∀ received : List Octets, (∀ p, p ∈ received ↔ p ∈ payloads) →
        (b.after (received.map .receive)).registry = b.registry.agreeing a.registry) ∧
      ∀ received : List Octets, received.Perm payloads →
        (((b.run (received.map .receive)).flatMap Reaction.notices).filter
          Notice.isCapabilities).Perm (b.registry.capabilitiesFrom a.registry)) ∧
    (largestClientList < a.registry.size →
      started.result = .error (.dataTooLarge a.registry.size largestClientList) ∧
        started.packets = []) := by
  intro started payloads
  have sound := reached.sound.registry
  refine ⟨fun done => ?_, fun many => startTransmit_of_many idle many emitter⟩
  obtain ⟨few, read⟩ := startTransmit_of_ok sound idle done
  rw [← same] at read
  constructor
  · intro received members
    refine after_announcements sound few b reached'.sound.inbox ?_ (.inl ?_)
    · exact fun p present => exists_announcement read ((members p).mp present)
    · obtain ⟨p, rest, list, _, sent⟩ := List.forall₂_cons_right_iff.mp read
      have present : p ∈ payloads := by
        show p ∈ started.packets.map Packet.payload
        rw [sent]
        exact List.mem_cons_self
      exact ⟨p, (members p).mpr present, list⟩
  · intro received arrived
    obtain ⟨ms, read', order⟩ := List.perm_comp_forall₂ arrived read
    have each : ∀ m ∈ ms, m ∈ a.registry.announcements := fun m present => order.subset present
    rw [run_announcements sound few read' each b rfl reached'.sound.inbox]
    have told := order.flatMap_right (·.told b.registry)
    have pairs := (Registry.counterparts_perm reached'.sound.registry sound).filterMap
      Registry.pairNotice
    rw [← Registry.capabilitiesFrom_eq, ← Registry.flatMap_told] at pairs
    exact told.trans pairs

/-- The list arrives last, and only one client has a counterpart. -/
theorem startTransmit_agreement_backwards :
    let a := (new ⟨.annexQ, 254⟩).after
      [.addClient ⟨.cameraControl, 0, true, some [5]⟩, .addClient (.plain (.extended 9) 1)]
    let b := (new ⟨.annexQ, 254⟩).after
      [.addClient (.plain .cameraControl 7), .addClient (.plain (.extended 8) 8)]
    let received := ((a.startTransmit 0).packets.map Packet.payload).reverse
    (b.after (received.map .receive)).registry =
        ⟨[⟨.plain .cameraControl 7, true, true⟩, ⟨.plain (.extended 8) 8, false, false⟩]⟩ ∧
      (((b.run (received.map .receive)).flatMap Reaction.notices).filter
        Notice.isCapabilities).Perm [⟨7, .extraCapabilities [5]⟩] := by
  intro a b received
  have reached : Reachable a := Reachable.after (.new _)
  have reached' : Reachable b := Reachable.after (.new _)
  have done : (a.startTransmit 0).result = .ok () := by decide
  obtain ⟨agreement, _⟩ := startTransmit_agreement reached reached' rfl rfl 0
  obtain ⟨settled, told⟩ := agreement done
  have registry : b.registry.agreeing a.registry =
      ⟨[⟨.plain .cameraControl 7, true, true⟩, ⟨.plain (.extended 8) 8, false, false⟩]⟩ := by
    decide
  have notices : b.registry.capabilitiesFrom a.registry = [⟨7, .extraCapabilities [5]⟩] := by
    decide
  rw [← registry, ← notices]
  exact ⟨settled received fun p => List.mem_reverse, told received (List.reverse_perm _)⟩

end Endpoint

end SimplexControl
