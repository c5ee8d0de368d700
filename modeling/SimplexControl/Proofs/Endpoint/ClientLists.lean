import SimplexControl.Proofs.Endpoint.Reports

/-!
# Client lists, whole or not

Whatever follows the head of a client list, an endpoint takes from it as many clients as are counted
and whole, and forgets everything that it had been told before. What it knows of a client is then
what the last entry for it says, and who is not in the list is not there.
-/

namespace SimplexControl

open ClientId

/-- A client list that is for everyone. -/
structure Pdu.IsClientList (pdu : Pdu) : Prop where
  everyone : pdu.destination = broadcast
  managing : pdu.client = .cme
  head : pdu.data.take 2 = cmeHead .clientList .response

namespace Registry

variable {r : Registry} {remote : List Parsed} {x : Entry}

theorem isSome_lastListed {id : ClientId} :
    (lastListed remote id).isSome ↔ ∃ p ∈ remote, p.id = id := by
  rw [lastListed, List.getLast?_isSome, ne_eq, List.filter_eq_nil_iff]
  simp

/-! ## What the clients are told -/

/-- A notice for one identification is for the client of a tag or not. -/
theorem Apart.filter_notice? (h : r.Apart) (present : x ∈ r.entries) (id : ClientId)
    (event : Event) :
    (r.notice? id event).toList.filter (·.tag = x.client.tag) =
      if id = x.id then [x.notice event] else [] := by
  by_cases named : id = x.id
  · rw [if_pos named, notice?, h.sound.find?_eq_some_iff.mpr ⟨present, named.symm⟩]
    exact List.filter_cons_of_pos (decide_eq_true rfl)
  · rw [if_neg named, notice?]
    cases found : r.find? id with
    | none => rfl
    | some other =>
      obtain ⟨member, rfl⟩ := of_find? found
      have apart : other.client.tag ≠ x.client.tag := fun same =>
        named (congrArg Entry.id (h.eq_of_tag member present same))
      exact List.filter_cons_of_neg fun same => apart (of_decide_eq_true same)

theorem Apart.filter_resetNotices (h : r.Apart) (present : x ∈ r.entries) :
    r.resetNotices.filter (·.tag = x.client.tag) = [x.notice (.availability false false)] := by
  have nodup : (r.entries.map fun e => e.client.tag).Nodup := by
    have tags := h.tags
    rwa [Registry.tags, clients, List.map_map] at tags
  rw [resetNotices, List.filter_map]
  exact congrArg _ (filter_key nodup present)

/-- A client is told once for each entry with its identification, in the order of the list. -/
theorem Apart.filter_listedNotices (h : r.Apart) (present : x ∈ r.entries)
    (remote : List Parsed) :
    (r.listedNotices remote).filter (·.tag = x.client.tag) =
      (remote.filter (·.id = x.id)).map fun p => x.notice (.availability true p.high) := by
  induction remote with
  | nil => rfl
  | cons p remote ih =>
    have first := h.filter_notice? present p.id (.availability true p.high)
    rw [listedNotices, List.flatMap_cons, List.filter_append, first, ← listedNotices, ih]
    by_cases named : p.id = x.id <;> simp [named]

/-! ## Entries for nobody -/

/-- The entries for which there is a client. -/
def known (r : Registry) (remote : List Parsed) : List Parsed :=
  remote.filter fun p => r.contains p.id

theorem lastListed_known (present : x ∈ r.entries) (remote : List Parsed) :
    lastListed (r.known remote) x.id = lastListed remote x.id := by
  have contained : r.contains x.id := contains_iff.mpr (List.mem_map_of_mem present)
  rw [lastListed, known, List.filter_filter, lastListed]
  refine congrArg _ (List.filter_congr fun p _ => ?_)
  by_cases named : p.id = x.id <;> simp [named, contained]

theorem listed_known (r : Registry) (remote : List Parsed) :
    r.resetReports.listed (r.known remote) = r.resetReports.listed remote := by
  rw [listed_resetReports, listed_resetReports]
  refine congrArg mk (List.map_congr_left fun e present => ?_)
  rw [lastListed_known present]

theorem listedNotices_known (r : Registry) (remote : List Parsed) :
    r.listedNotices (r.known remote) = r.listedNotices remote := by
  induction remote with
  | nil => rfl
  | cons p remote ih =>
    have both : r.listedNotices (p :: remote) =
        (r.notice? p.id (.availability true p.high)).toList ++ r.listedNotices remote := rfl
    rw [both, ← ih, known]
    cases found : r.find? p.id with
    | none =>
      rw [List.filter_cons_of_neg (by simp [contains, found]), notice?, found]
      rfl
    | some e =>
      rw [List.filter_cons_of_pos (by simp [contains, found])]
      rfl

end Registry

namespace Endpoint

open Registry

variable {e : Endpoint} {pdu : Pdu}

/-- Octets behind the last entry that is counted make no difference. -/
theorem Lists.append {data : Octets} {remote : List Parsed} {count : UInt8}
    (h : Lists data remote) (counted : data[2]? = some count) (all : remote.length = count.toNat)
    (surplus : Octets) : Lists (data ++ surplus) remote := by
  obtain ⟨third, _⟩ := List.getElem?_eq_some_iff.mp counted
  unfold Lists at h ⊢
  rw [Octets.octetAt_append_left third, List.drop_append_of_le_length third]
  rw [Octets.octetAt_of_getElem? counted] at h ⊢
  exact h.append all surplus

/-! ## Taking a list -/

theorem onPdu_of_isClientList (list : pdu.IsClientList) {remote : List Parsed}
    (named : Lists pdu.data remote) :
    e.onPdu pdu = e.notify (e.registry.resetReports.listed remote)
      (e.registry.resetNotices ++ e.registry.listedNotices remote) := by
  rw [onPdu_of_cme list.everyone list.managing, onCmeMessage, if_pos list.head, onClientList_eq,
    lists_iff.mp named]

/-- Lists that name the same clients among those that are registered are the same to an endpoint. -/
theorem onPdu_congr_known {pdu' : Pdu} (list : pdu.IsClientList) (list' : pdu'.IsClientList)
    {remote remote' : List Parsed} (named : Lists pdu.data remote)
    (named' : Lists pdu'.data remote') (same : e.registry.known remote' = e.registry.known remote) :
    e.onPdu pdu' = e.onPdu pdu := by
  rw [onPdu_of_isClientList list named, onPdu_of_isClientList list' named',
    ← listed_known _ remote', same, listed_known, ← listedNotices_known _ remote', same,
    listedNotices_known]

/-- A client list of any octets is taken without failure and without an answer, whether it is handed
over or received. It names certain clients and no others, octets behind the last one that is counted
make no difference, and neither do entries for which there is no client. Nobody is registered or
removed, a client is available exactly if the list names it, with what its last entry says, and each
client is told that all is reset and then of its own entries in their order. -/
theorem onPdu_clientList (list : pdu.IsClientList) :
    ∃ remote after notices, (∀ listed, Lists pdu.data listed ↔ listed = remote) ∧
      (∀ count surplus, pdu.data[2]? = some count → remote.length = count.toNat →
        Lists (pdu.data ++ surplus) remote) ∧
      e.onPdu pdu = ⟨.ok (), { e with registry := after }, [], notices⟩ ∧
      (∀ payload, e.inbox.decode e.config.framing payload = (.ok (), pdu) →
        e.receive payload =
          ⟨.ok (), { e with registry := after, inbox := pdu }, [], notices⟩) ∧
      after.clients = e.registry.clients ∧
      (∀ x ∈ after.entries, (x.available ↔ ∃ p ∈ remote, p.id = x.id) ∧
        (x.hasExtra ↔ ∃ p, lastListed remote x.id = some p ∧ p.high)) ∧
      (e.registry.Apart → ∀ x ∈ e.registry.entries,
        notices.filter (·.tag = x.client.tag) = x.notice (.availability false false) ::
          (remote.filter (·.id = x.id)).map fun p => x.notice (.availability true p.high)) ∧
      ∀ pdu' : Pdu, pdu'.IsClientList → ∀ remote', Lists pdu'.data remote' →
        e.registry.known remote' = e.registry.known remote → e.onPdu pdu' = e.onPdu pdu := by
  have named : Lists pdu.data (listing pdu.data) := lists_iff.mpr rfl
  generalize listing pdu.data = remote at named
  refine ⟨remote, e.registry.resetReports.listed remote,
    e.registry.resetNotices ++ e.registry.listedNotices remote, ?_, ?_,
    onPdu_of_isClientList list named, ?_, ?_, ?_, ?_, ?_⟩
  · intro listed
    exact ⟨fun other => other.unique named, fun same => same ▸ named⟩
  · exact fun count surplus counted all => named.append counted all surplus
  · intro payload read
    rw [receive_of_decoded read]
    exact onPdu_of_isClientList list named
  · rw [clients_listed, clients_resetReports]
  · intro x present
    rw [listed_resetReports] at present
    obtain ⟨old, _, rfl⟩ := List.mem_map.mp present
    exact ⟨isSome_lastListed, Option.any_eq_true _ _⟩
  · intro apart x present
    rw [List.filter_append, apart.filter_resetNotices present, apart.filter_listedNotices present]
    rfl
  · intro pdu' list' remote' named' same
    exact onPdu_congr_known list list' named named' same

/-- A list that counts five clients to an endpoint which has heard of the second client only: the
camera twice, somebody unknown between, and one of whose identification the end is missing. -/
theorem onPdu_clientList_cut_short :
    let camera := Client.plain .cameraControl 7
    let other := Client.plain (.extended 9) 8
    let e := (new ⟨.annexQ, 254⟩).after
      [.addClient camera, .addClient other, .onClientList [1, 0, 1, 0xFE, 9]]
    let pdu := Pdu.cme [1, 0, 5, 0x81, 0x22, 0x01, 0x7F, 1]
    e.registry.entries = [⟨camera, false, false⟩, ⟨other, true, true⟩] ∧ e.registry.Apart ∧
      pdu.IsClientList ∧ ∃ after notices,
        e.onPdu pdu = ⟨.ok (), { e with registry := after }, [], notices⟩ ∧
        (∀ x ∈ after.entries, x.available ↔ x.id = .cameraControl) ∧
        (∀ x ∈ after.entries, ¬ x.hasExtra) ∧
        notices.filter (·.tag = 7) = [⟨7, .availability false false⟩, ⟨7, .availability true true⟩,
          ⟨7, .availability true false⟩] ∧
        notices.filter (·.tag = 8) = [⟨8, .availability false false⟩] := by
  intro camera other e pdu
  have entries : e.registry.entries = [⟨camera, false, false⟩, ⟨other, true, true⟩] := by
    decide +kernel
  have tags : e.registry.tags.Nodup := by decide +kernel
  have apart : e.registry.Apart :=
    ⟨(Reachable.after (.new ⟨.annexQ, 254⟩)).sound.registry, tags⟩
  have list : pdu.IsClientList := ⟨by decide, by decide, by decide⟩
  have ids : ∀ x ∈ e.registry.clients, x.id = .cameraControl ∨ x.id = .extended 9 := by
    decide +kernel
  -- What is needed of the endpoint has been computed, and it is not to be run again below.
  clear_value e
  obtain ⟨remote, after, notices, named, _, taken, _, clients, flags, told, _⟩ :=
    onPdu_clientList (e := e) list
  let last : Parsed := ⟨.cameraControl, false, 1⟩
  obtain rfl : [⟨.cameraControl, true, 1⟩, ⟨.standard 0x22, false, 1⟩, last] = remote :=
    (named _).mp (lists_iff.mpr (by decide))
  have either : ∀ x ∈ after.entries, x.id = .cameraControl ∨ x.id = .extended 9 := fun x present =>
    ids x.client (clients ▸ List.mem_map_of_mem present)
  refine ⟨entries, apart, list, after, notices, taken, fun x present => ?_, fun x present => ?_,
    ?_, ?_⟩
  · rw [(flags x present).1]
    rcases either x present with named | named
    · simp [named]
    · simp [named, last, ClientId.cameraControl]
  · rw [(flags x present).2]
    rintro ⟨p, listed, high⟩
    rcases either x present with named | named
    · rw [named] at listed
      obtain rfl : last = p := Option.some.inj listed
      cases high
    · rw [named] at listed
      cases listed
  · exact told apart ⟨camera, false, false⟩ (by rw [entries]; exact List.mem_cons_self)
  · exact told apart ⟨other, true, true⟩
      (by rw [entries]; exact List.mem_cons_of_mem _ List.mem_cons_self)

end Endpoint

end SimplexControl
