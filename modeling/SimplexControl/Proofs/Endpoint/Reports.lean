import Mathlib.Data.List.Induction
import Mathlib.Data.List.Infix
import SimplexControl.Proofs.Endpoint.Refusals
import SimplexControl.Proofs.Registry.FiniteMap

/-!
# Stored reports and told reports

A registry stores with each client what the client was told last about its counterpart. Everything
that is done to an endpoint registers a client, removes one, or lets the clients hear notices, and a
client that hears notices stores the last report among them. So a report is never stored without
being told, nor told without being stored, and a client that comes back begins anew.
-/

namespace SimplexControl

/-! ## Reports among notices -/

/-- What a notice reports to the client of a tag about its counterpart: whether there is one, and
whether it has extra capabilities. -/
def Notice.report? (tag : Nat) (n : Notice) : Option (Bool × Bool) :=
  match n.event with
  | .availability available hasExtra => if n.tag = tag then some (available, hasExtra) else none
  | _ => none

@[simp] theorem Entry.report?_notice (e : Entry) (tag : Nat) (available hasExtra : Bool) :
    (e.notice (.availability available hasExtra)).report? tag =
      if e.client.tag = tag then some (available, hasExtra) else none := rfl

/-- What the client of a tag has been told last, and `before` if it has not been told. -/
def lastReport (tag : Nat) (before : Bool × Bool) (notices : List Notice) : Bool × Bool :=
  (notices.filterMap (Notice.report? tag)).getLast?.getD before

theorem lastReport_append (tag : Nat) (before : Bool × Bool) (notices later : List Notice) :
    lastReport tag before (notices ++ later) =
      lastReport tag (lastReport tag before notices) later := by
  rw [lastReport, List.filterMap_append, List.getLast?_append]
  cases last : (later.filterMap (Notice.report? tag)).getLast? <;> simp [lastReport, last]

/-- Notices that report nothing. -/
def Unreporting (notices : List Notice) : Prop := ∀ tag, notices.filterMap (Notice.report? tag) = []

/-- What is stored with the client of an entry about its counterpart. -/
def Entry.reports (e : Entry) : Bool × Bool := (e.available, e.hasExtra)

/-- The entry with what its client has been told last. -/
def Entry.hear (e : Entry) (notices : List Notice) : Entry :=
  e.report (lastReport e.client.tag e.reports notices).1
    (lastReport e.client.tag e.reports notices).2

@[simp] theorem Entry.client_hear (e : Entry) (notices : List Notice) :
    (e.hear notices).client = e.client := rfl

@[simp] theorem Entry.reports_hear (e : Entry) (notices : List Notice) :
    (e.hear notices).reports = lastReport e.client.tag e.reports notices := rfl

theorem Entry.hear_append (e : Entry) (notices later : List Notice) :
    e.hear (notices ++ later) = (e.hear notices).hear later := by
  rw [hear, hear, reports_hear, client_hear, lastReport_append]
  rfl

theorem Entry.hear_of_untold (e : Entry) {notices : List Notice}
    (untold : notices.filterMap (Notice.report? e.client.tag) = []) : e.hear notices = e := by
  rw [hear, lastReport, untold]
  rfl

namespace Registry

variable {r s : Registry} {notices : List Notice}

/-- The registry with what each client has been told last. -/
def hears (r : Registry) (notices : List Notice) : Registry := ⟨r.entries.map (·.hear notices)⟩

theorem hears_append (r : Registry) (notices later : List Notice) :
    r.hears (notices ++ later) = (r.hears notices).hears later := by
  simp only [hears, List.map_map, Function.comp_def, Entry.hear_append]

theorem hears_of_unreporting (r : Registry) (silent : Unreporting notices) :
    r.hears notices = r := by
  have same : ∀ e ∈ r.entries, e.hear notices = e := fun e _ => e.hear_of_untold (silent _)
  rw [hears, List.map_congr_left same, List.map_id']

/-- The tags of the clients in the order of their identifications. -/
def tags (r : Registry) : List Nat := r.clients.map Client.tag

/-- Clients that are told apart by their identifications and by their tags. -/
structure Apart (r : Registry) : Prop where
  sound : r.Sound
  tags : r.tags.Nodup

theorem Apart.of_clients (h : r.Apart) (same : s.clients = r.clients) : s.Apart :=
  ⟨h.sound.of_clients same, by rw [Registry.tags, same]; exact h.tags⟩

/-- An entry is the only one with its tag. -/
theorem Apart.eq_of_tag (h : r.Apart) {e e' : Entry} (present : e ∈ r.entries)
    (present' : e' ∈ r.entries) (same : e.client.tag = e'.client.tag) : e = e' := by
  have nodup : (r.entries.map fun e => e.client.tag).Nodup := by
    have tags := h.tags
    rwa [Registry.tags, clients, List.map_map] at tags
  exact List.inj_on_of_nodup_map nodup present present' same

/-! ## Reports are stored as they are told -/

theorem resetReports_eq_hears (r : Registry) : r.resetReports = r.hears r.resetNotices := by
  rw [resetReports, hears]
  refine congrArg Registry.mk (List.map_congr_left fun e present => ?_)
  -- Every client is told the same, the client of the entry among them.
  have allFalse : ∀ report ∈ r.resetNotices.filterMap (Notice.report? e.client.tag),
      report = (false, false) := by
    intro report reported
    obtain ⟨notice, told, reports⟩ := List.mem_filterMap.mp reported
    obtain ⟨other, _, rfl⟩ := List.mem_map.mp told
    rw [Entry.report?_notice, Option.ite_none_right_eq_some] at reports
    exact (Option.some.inj reports.2).symm
  have own : (false, false) ∈ r.resetNotices.filterMap (Notice.report? e.client.tag) :=
    List.mem_filterMap.mpr ⟨_, List.mem_map_of_mem present, if_pos rfl⟩
  have last := List.getLast?_eq_some_getLast (List.ne_nil_of_mem own)
  rw [Entry.hear, lastReport, last, allFalse _ (List.getLast_mem _)]
  rfl

theorem Apart.reported_eq_hears (h : r.Apart) (id : ClientId) (available hasExtra : Bool) :
    r.reported id available hasExtra =
      r.hears (r.notice? id (.availability available hasExtra)).toList := by
  rw [notice?]
  cases found : r.find? id with
  | none =>
    rw [reported_of_not_mem (find?_eq_none_iff.mp found), Option.map_none, Option.toList_none]
    exact (r.hears_of_unreporting fun _ => rfl).symm
  | some named =>
    obtain ⟨present, rfl⟩ := of_find? found
    refine congrArg Registry.mk (List.map_congr_left fun e member => ?_)
    by_cases same : e.id = named.id
    · obtain rfl : e = named := List.inj_on_of_nodup_map h.sound.nodup member present same
      simp [Entry.hear, lastReport]
    · have other : named.client.tag ≠ e.client.tag := by
        intro tag
        exact same (congrArg Entry.id (h.eq_of_tag member present tag.symm))
      rw [if_neg same, e.hear_of_untold (by simp [other])]

theorem Apart.listed_eq_hears (remote : List ClientId.Parsed) : ∀ {r : Registry}, r.Apart →
    r.listed remote = r.hears (r.listedNotices remote) := by
  induction remote with
  | nil => exact fun {r} _ => (r.hears_of_unreporting fun _ => rfl).symm
  | cons entry remote ih =>
    intro r h
    have same := clients_reported r entry.id true entry.high
    have later := ih (h.of_clients same)
    rw [listedNotices_of_clients same, h.reported_eq_hears, ← hears_append] at later
    rwa [← h.reported_eq_hears] at later

/-! ## What becomes of a registry -/

/-- What a registry becomes while its clients get notices. -/
inductive Becomes (r : Registry) : List Notice → Registry → Prop
  | registered {client : Client} {s : Registry} (done : r.register client = .ok s) :
      Becomes r [] s
  | unregistered (id : ClientId) : Becomes r [] (r.unregister id)
  | heard (notices : List Notice) : Becomes r notices (r.hears notices)

/-- An entry afterwards is that of a client which has just been registered, or there has been one
for the same client, which has stored what this client is told. -/
theorem Becomes.of_mem (h : r.Becomes notices s) {e : Entry} (present : e ∈ s.entries) :
    r.register e.client = .ok s ∧ e.reports = (false, false) ∨
      ∃ old ∈ r.entries, e.client = old.client ∧
        e.reports = lastReport old.client.tag old.reports notices := by
  cases h with
  | registered done =>
    obtain ⟨_, _, _, rfl⟩ := register_eq_ok_iff.mp done
    rcases (mem_insert r.entries).mp present with rfl | earlier
    · exact .inl ⟨done, rfl⟩
    · exact .inr ⟨e, earlier, rfl, rfl⟩
  | unregistered id => exact .inr ⟨e, (List.mem_filter.mp present).1, rfl, rfl⟩
  | heard notices =>
    obtain ⟨old, earlier, rfl⟩ := List.mem_map.mp present
    exact .inr ⟨old, earlier, rfl, rfl⟩

theorem Becomes.same (silent : Unreporting notices) : r.Becomes notices r := by
  have heard := Becomes.heard (r := r) notices
  rwa [r.hears_of_unreporting silent] at heard

theorem unreporting_notice? (r : Registry) (id : ClientId) {event : Event}
    (other : ∀ available hasExtra, event ≠ .availability available hasExtra) :
    Unreporting (r.notice? id event).toList := by
  intro tag
  rw [notice?]
  cases r.find? id with
  | none => rfl
  | some e =>
    cases event with
    | availability available hasExtra => exact absurd rfl (other available hasExtra)
    | message pdu => rfl
    | extraCapabilities octets => rfl

theorem Apart.becomes_reported (h : r.Apart) (id : ClientId) (available hasExtra : Bool) :
    r.Becomes (r.notice? id (.availability available hasExtra)).toList
      (r.reported id available hasExtra) := by
  rw [h.reported_eq_hears]
  exact .heard _

theorem becomes_resetReports (r : Registry) : r.Becomes r.resetNotices r.resetReports := by
  rw [resetReports_eq_hears]
  exact .heard _

/-- What is done to a registry, one case for each operation. -/
theorem Apart.becomes_perform (h : r.Apart) (op : Operation) :
    r.Becomes (r.perform op).notices (r.perform op).registry := by
  cases op with
  | register client =>
    rcases perform_register r client with ⟨s, done, outcome⟩ | ⟨_, _, outcome⟩
    · rw [outcome]
      exact .registered done
    · rw [outcome]
      exact .same fun _ => rfl
  | unregister id => exact .unregistered id
  | report id available hasExtra =>
    rw [perform_report]
    exact h.becomes_reported id available hasExtra
  | resetReports => exact becomes_resetReports r
  | find id => exact .same fun _ => rfl
  | contains id => exact .same fun _ => rfl
  | size => exact .same fun _ => rfl
  | list => exact .same fun _ => rfl

end Registry

namespace Endpoint

open Registry

variable {e : Endpoint}

/-- What a reaction makes of the registry while the clients get its notices. -/
def BecomesBy (e : Endpoint) (r : Reaction) : Prop :=
  e.registry.Becomes r.notices r.endpoint.registry

namespace BecomesBy

theorem same {r : Reaction} (kept : r.endpoint.registry = e.registry)
    (silent : Unreporting r.notices) : e.BecomesBy r := by
  rw [BecomesBy, kept]
  exact .same silent

theorem untold {r : Reaction} (kept : r.endpoint.registry = e.registry) (none : r.notices = []) :
    e.BecomesBy r := by
  apply same kept
  rw [none]
  exact fun _ => rfl

theorem onlySends {r : Reaction} (sends : e.OnlySends r) : e.BecomesBy r :=
  untold sends.same.registry sends.untold

theorem composed {queue : List Frame} {r : Reaction} (h : e.Composed queue r) : e.BecomesBy r :=
  onlySends h.onlySends

theorem addClient (e : Endpoint) (client : Client) : e.BecomesBy (e.addClient client) := by
  unfold Endpoint.addClient
  cases done : e.registry.register client with
  | error cause => exact untold rfl rfl
  | ok registry => exact .registered done

/-- A client list resets all reports and then tells the clients that it names. -/
theorem onClientList (apart : e.registry.Apart) (data : Octets) :
    e.BecomesBy (e.onClientList data) := by
  have reset := apart.of_clients (clients_resetReports e.registry)
  have told := listedNotices_of_clients (clients_resetReports e.registry) (listing data)
  have listed := reset.listed_eq_hears (listing data)
  rw [told, resetReports_eq_hears, ← hears_append] at listed
  rw [onClientList_eq, resetReports_eq_hears, listed]
  exact .heard _

/-- Extra capabilities are handed on behind the report of the client that has them. -/
theorem onExtraCapabilities (apart : e.registry.Apart) (data : Octets) :
    e.BecomesBy (e.onExtraCapabilities data) := by
  rw [onExtraCapabilities_eq]
  split
  · exact untold rfl rfl
  · next parsed _ =>
    have silent : Unreporting (e.registry.notice? parsed.id
        (.extraCapabilities (data.drop (2 + parsed.size)))).toList :=
      unreporting_notice? _ _ nofun
    have heard := (e.registry.reported parsed.id true true).hears_of_unreporting silent
    rw [apart.reported_eq_hears, ← hears_append, ← apart.reported_eq_hears] at heard
    rw [← heard]
    exact .heard _

theorem onCmeMessage (apart : e.registry.Apart) (data : Octets) :
    e.BecomesBy (e.onCmeMessage data) := by
  unfold Endpoint.onCmeMessage
  split
  · exact onClientList apart data
  split
  · exact onlySends (.answer e .clientList)
  split
  · exact onExtraCapabilities apart data
  split
  · exact onlySends (.answer e .extraCapabilities)
  · exact untold rfl rfl

theorem onPdu (apart : e.registry.Apart) (pdu : Pdu) : e.BecomesBy (e.onPdu pdu) := by
  unfold Endpoint.onPdu
  split
  · exact untold rfl rfl
  split
  · exact onCmeMessage apart pdu.data
  · exact same rfl (e.registry.unreporting_notice? pdu.client nofun)

theorem receive (apart : e.registry.Apart) (payload : Octets) :
    e.BecomesBy (e.receive payload) := by
  rcases read : e.inbox.decode e.config.framing payload with ⟨cause | _, inbox⟩
  · rw [receive_of_undecoded read]
    exact untold rfl rfl
  · rw [receive_of_decoded read]
    exact onPdu (e := { e with inbox := inbox }) apart inbox

/-- Everything that can be done to an endpoint, one case for each operation. -/
theorem perform (apart : e.registry.Apart) (op : Operation) : e.BecomesBy (e.perform op) := by
  cases op with
  | addClient client => exact addClient e client
  | removeClient id => exact .unregistered id
  | startTransmit emitter => exact onlySends (.startTransmit e emitter)
  | stopTransmit => exact untold rfl rfl
  | sendClientList => exact composed (.sendClientList e)
  | sendExtraCapabilities => exact composed (.sendExtraCapabilities e)
  | sendExtraCapabilitiesOf id octets => exact composed (.sendExtraCapabilitiesOf e id octets)
  | requestClientList => exact composed (.message e (cmeHead .clientList .command))
  | requestExtraCapabilities id => exact composed (.requestExtraCapabilities e id)
  | sendPdu id pdu =>
    exact untold (sendPdu_same e id pdu).registry (notices_sendPdu e id pdu)
  | receive payload => exact receive apart payload
  | onPdu pdu => exact onPdu apart pdu
  | onCmeMessage data => exact onCmeMessage apart data
  | onClientList data => exact onClientList apart data
  | onClientListCommand => exact onlySends (.answer e .clientList)
  | onExtraCapabilities data => exact onExtraCapabilities apart data
  | onExtraCapabilitiesCommand => exact onlySends (.answer e .extraCapabilities)

end BecomesBy

/-! ## Histories -/

/-- Something done to an endpoint, or to its registry alone. -/
inductive Action
  | endpoint (op : Operation)
  | registry (op : Registry.Operation)
deriving DecidableEq, Repr

/-- What an action does. -/
def act (e : Endpoint) : Action → Reaction
  | .endpoint op => e.perform op
  | .registry op => e.notify (e.registry.perform op).registry (e.registry.perform op).notices

/-- The endpoint after actions one after another, failed ones included. -/
def afterAll (e : Endpoint) (actions : List Action) : Endpoint :=
  actions.foldl (fun e action => (e.act action).endpoint) e

/-- The notices that clients get of actions one after another. -/
def told (e : Endpoint) : List Action → List Notice
  | [] => []
  | action :: actions => (e.act action).notices ++ told (e.act action).endpoint actions

theorem afterAll_append (e : Endpoint) (actions later : List Action) :
    e.afterAll (actions ++ later) = (e.afterAll actions).afterAll later := List.foldl_append

theorem told_concat (actions : List Action) (action : Action) : ∀ e : Endpoint,
    e.told (actions ++ [action]) = e.told actions ++ ((e.afterAll actions).act action).notices := by
  induction actions with
  | nil => exact fun e => List.append_nil _
  | cons first actions ih =>
    intro e
    rw [List.cons_append, told, told, ih, List.append_assoc]
    rfl

theorem Sound.act (h : e.Sound) (action : Action) : (e.act action).endpoint.Sound := by
  cases action with
  | endpoint op => exact h.perform op
  | registry op => exact ⟨h.registry.perform op, h.inbox⟩

theorem Sound.afterAll (actions : List Action) : ∀ {e : Endpoint}, e.Sound →
    (e.afterAll actions).Sound := by
  induction actions with
  | nil => exact fun h => h
  | cons action actions ih => exact fun h => ih (h.act action)

theorem becomesBy_act (apart : e.registry.Apart) (action : Action) :
    e.BecomesBy (e.act action) := by
  cases action with
  | endpoint op => exact .perform apart op
  | registry op => exact apart.becomes_perform op

/-- The client was registered by one of the actions, it has stayed since then, and what is stored
with it is what it has been told last since then. -/
def Mirrors (e : Endpoint) (actions : List Action) (entry : Entry) : Prop :=
  ∃ before action within, actions = before ++ action :: within ∧
    (e.afterAll before).registry.register entry.client =
      .ok (e.afterAll (before ++ [action])).registry ∧
    (∀ earlier, earlier <+: within →
      entry.client ∈ (e.afterAll (before ++ action :: earlier)).registry.clients) ∧
    (entry.available, entry.hasExtra) =
      lastReport entry.client.tag (false, false) ((e.afterAll (before ++ [action])).told within)

variable {actions : List Action} {action : Action} {entry old : Entry}

theorem Mirrors.registered
    (done : (e.afterAll actions).registry.register entry.client =
      .ok (e.afterAll (actions ++ [action])).registry)
    (present : entry ∈ (e.afterAll (actions ++ [action])).registry.entries)
    (unreported : entry.reports = (false, false)) : e.Mirrors (actions ++ [action]) entry := by
  refine ⟨actions, action, [], rfl, done, fun earlier shorter => ?_, unreported⟩
  rw [List.prefix_nil.mp shorter]
  exact List.mem_map_of_mem present

/-- A client that stays goes on with what it is told. -/
theorem Mirrors.concat (h : e.Mirrors actions old) (same : entry.client = old.client)
    (present : entry ∈ (e.afterAll (actions ++ [action])).registry.entries)
    (heard : entry.reports = lastReport old.client.tag old.reports
      ((e.afterAll actions).act action).notices) : e.Mirrors (actions ++ [action]) entry := by
  obtain ⟨before, registering, within, rfl, registered, stayed, stored⟩ := h
  have now : (e.afterAll (before ++ [registering])).afterAll within =
      e.afterAll (before ++ registering :: within) := by
    rw [← afterAll_append, List.append_assoc]
    rfl
  rw [← same] at registered stayed stored heard
  refine ⟨before, registering, within ++ [action], by simp, registered, ?_, ?_⟩
  · intro earlier shorter
    rcases List.prefix_concat_iff.mp shorter with rfl | shorter
    · rw [← List.cons_append, ← List.append_assoc]
      exact List.mem_map_of_mem present
    · exact stayed earlier shorter
  · rw [told_concat, now, lastReport_append, ← stored]
    exact heard

/-- However an endpoint and its registry are used, what is stored with a client about its
counterpart is what the client has been told last since it was registered, and nothing as long as it
has not been told. A tag stands for one client as long as no other one is registered with it. -/
theorem mirrors_told (config : Config) (actions : List Action)
    (apart : ∀ earlier, earlier <+: actions →
      ((new config).afterAll earlier).registry.tags.Nodup) :
    ∀ entry ∈ ((new config).afterAll actions).registry.entries,
      (new config).Mirrors actions entry := by
  induction actions using List.reverseRecOn with
  | nil => exact List.forall_mem_nil _
  | append_singleton actions action ih =>
    intro entry present
    have before : actions <+: actions ++ [action] := List.prefix_append actions [action]
    have mirrored := ih fun earlier shorter => apart earlier (shorter.trans before)
    have sound := Sound.afterAll actions (Reachable.new config).sound
    have step := becomesBy_act ⟨sound.registry, apart actions before⟩ action
    have after := afterAll_append (new config) actions [action]
    rcases step.of_mem (after ▸ present) with ⟨done, unreported⟩ | ⟨old, there, same, heard⟩
    · exact .registered (after ▸ done) present unreported
    · exact (mirrored old there).concat same present heard

/-- A camera and another client are told of a list whose last entry is missing. Then the camera is
replaced by one with the same identification and the same tag, and the other client is told of extra
capabilities of nobody. -/
theorem mirrors_told_replaced :
    let camera := Client.plain .cameraControl 7
    let other := Client.plain (.extended 9) 8
    let actions : List Action := [.endpoint (.addClient camera), .registry (.register other),
      .endpoint (.onClientList [1, 0, 3, 0x81, 0x7E, 9]), .endpoint (.removeClient .cameraControl),
      .endpoint (.addClient camera), .registry (.report (.extended 9) false true)]
    let e := (new ⟨.annexQ, 254⟩).afterAll actions
    e.registry.entries = [⟨camera, false, false⟩, ⟨other, false, true⟩] ∧
      (new ⟨.annexQ, 254⟩).told actions = [⟨7, .availability false false⟩,
        ⟨8, .availability false false⟩, ⟨7, .availability true true⟩,
        ⟨8, .availability true false⟩, ⟨8, .availability false true⟩] ∧
      (new ⟨.annexQ, 254⟩).Mirrors actions ⟨camera, false, false⟩ ∧
      (new ⟨.annexQ, 254⟩).Mirrors actions ⟨other, false, true⟩ := by
  intro camera other actions e
  have entries : e.registry.entries = [⟨camera, false, false⟩, ⟨other, false, true⟩] := by
    decide +kernel
  have apart : ∀ earlier ∈ actions.inits,
      ((new ⟨.annexQ, 254⟩).afterAll earlier).registry.tags.Nodup := by decide +kernel
  have mirrored := mirrors_told ⟨.annexQ, 254⟩ actions
    fun earlier shorter => apart earlier ((List.mem_inits earlier actions).mpr shorter)
  refine ⟨entries, by decide +kernel, mirrored _ ?_, mirrored _ ?_⟩
  · exact entries ▸ List.mem_cons_self
  · exact entries ▸ List.mem_cons_of_mem _ List.mem_cons_self

end Endpoint

end SimplexControl
