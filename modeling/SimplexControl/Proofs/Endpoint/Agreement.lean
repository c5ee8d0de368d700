import SimplexControl.Proofs.ClientId.Codec
import SimplexControl.Proofs.Endpoint.Listening

/-!
# Agreement of two registries

What the announcements of one side make of the registry of the other: the client list brings all
reports into agreement with the clients of the sender, whatever they were, and the extra
capabilities of one of these clients report nothing that the list does not.
-/

namespace SimplexControl

/-- What a client list holds of an entry. -/
def Entry.parsed (e : Entry) : ClientId.Parsed := ⟨e.id, e.client.hasExtra, e.id.size⟩

namespace Registry

variable {r s remote : Registry} {id : ClientId}

/-- Whether a client of this identification announces extra capabilities. -/
def announces (r : Registry) (id : ClientId) : Bool := (r.find? id).any (·.client.hasExtra)

/-- The registry with reports that agree with the clients of another one. -/
def agreeing (r remote : Registry) : Registry :=
  ⟨r.entries.map fun e => e.report (remote.contains e.id) (remote.announces e.id)⟩

@[simp] theorem clients_agreeing (r remote : Registry) :
    (r.agreeing remote).clients = r.clients := by
  rw [agreeing, clients, clients, List.map_map]
  rfl

/-- Agreement is a matter of the clients alone. -/
theorem agreeing_of_clients (same : s.clients = r.clients) :
    s.agreeing remote = r.agreeing remote := by
  have ofClients (r : Registry) : r.agreeing remote =
      ⟨r.clients.map fun c => ⟨c, remote.contains c.id, remote.announces c.id⟩⟩ := by
    rw [agreeing, clients, List.map_map]
    rfl
  rw [ofClients, ofClients, same]

theorem agreeing_agreeing (r remote : Registry) :
    (r.agreeing remote).agreeing remote = r.agreeing remote :=
  agreeing_of_clients (clients_agreeing r remote)

/-- A report of what the other side announces adds nothing to agreement. -/
theorem reported_agreeing (present : remote.contains id) (announced : remote.announces id)
    (r : Registry) : (r.agreeing remote).reported id true true = r.agreeing remote := by
  rw [reported, agreeing, List.map_map]
  refine congrArg mk (List.map_congr_left fun e _ => ?_)
  rw [Function.comp_apply]
  by_cases same : e.id = id
  · subst same
    rw [present, announced]
    split <;> rfl
  · exact if_neg same

/-! ## The client list -/

/-- The list of a registry has one entry for each of its clients. -/
theorem lastListed_parsed (h : remote.Sound) (id : ClientId) :
    lastListed (remote.entries.map Entry.parsed) id = (remote.find? id).map Entry.parsed := by
  rw [lastListed, List.filter_map, List.getLast?_map]
  refine congrArg (Option.map Entry.parsed) ?_
  show (remote.entries.filter (·.id = id)).getLast? = remote.find? id
  cases found : remote.find? id with
  | none => rw [List.filter_eq_nil_iff.mpr (List.find?_eq_none.mp found), List.getLast?_nil]
  | some e =>
    obtain ⟨present, rfl⟩ := of_find? found
    rw [filter_key h.nodup present, List.getLast?_singleton]

/-- From no reports at all the list of a registry leads to agreement with it. -/
theorem listed_agreeing (h : remote.Sound) (r : Registry) :
    r.resetReports.listed (remote.entries.map Entry.parsed) = r.agreeing remote := by
  rw [listed_resetReports, agreeing]
  refine congrArg mk (List.map_congr_left fun e _ => ?_)
  rw [lastListed_parsed h, Option.isSome_map, Option.any_map]
  rfl

end Registry

/-! ## The messages -/

/-- The message with the extra capabilities of a client that announces them. -/
def capabilitiesMessage (id : ClientId) (octets : Octets) : Octets :=
  cmeHead .extraCapabilities .response ++ id.write extraCapabilitiesFlag ++ octets

theorem Client.announced (c : Client) :
    decide ((if c.hasExtra then extraCapabilitiesFlag else 0) &&& ClientId.highBit ≠ 0) =
      c.hasExtra := by
  cases c.hasExtra <;> decide

namespace Endpoint

variable {remote : Registry}

/-- Announcements one after another are read one after another. -/
theorem readInTurn_announcements {entries : List Entry} (valid : ∀ e ∈ entries, e.id.isValid) :
    ClientId.ReadInTurn (entries.flatMap fun e => e.client.announcement)
      (entries.map Entry.parsed) [] := by
  have written : ∀ c ∈ entries.map fun e =>
      (e.id, if e.client.hasExtra then extraCapabilitiesFlag else 0), c.1.isValid :=
    List.forall_mem_map.mpr valid
  have read := ClientId.readInTurn_flatMap_write written []
  rw [List.append_nil, List.flatMap_map, List.map_map] at read
  have same : ∀ e ∈ entries, (ClientId.asRead ∘ fun e : Entry =>
      (e.id, if e.client.hasExtra then extraCapabilitiesFlag else 0)) e = e.parsed := by
    intro e _
    simp only [Function.comp_apply, ClientId.asRead, e.client.announced]
    rfl
  rwa [List.map_congr_left same] at read

theorem listing_clientListMessage (h : remote.Sound) (few : remote.size ≤ largestClientList) :
    listing remote.clientListMessage = remote.entries.map Entry.parsed := by
  have count : (remote.clientListMessage.octetAt 2).toNat =
      (remote.entries.map Entry.parsed).length := by
    have small : remote.size < 2 ^ 8 := Nat.lt_succ_of_le few
    have third : remote.clientListMessage.octetAt 2 = UInt8.ofNat remote.size := rfl
    rw [third, UInt8.toNat_ofNat', Nat.mod_eq_of_lt small, Registry.size, List.length_map]
  refine (lists_iff.mp ⟨[], ?_, Nat.le_of_eq count.symm, fun less => ?_⟩).symm
  · exact readInTurn_announcements fun e present => h.valid (List.mem_map_of_mem present)
  · exact absurd count (Nat.ne_of_gt less)

/-- A client list brings all reports into agreement. -/
theorem onCmeMessage_clientListMessage (h : remote.Sound) (few : remote.size ≤ largestClientList)
    (e : Endpoint) :
    e.onCmeMessage remote.clientListMessage = e.notify (e.registry.agreeing remote)
      (e.registry.resetNotices ++ e.registry.listedNotices (remote.entries.map Entry.parsed)) := by
  have head : remote.clientListMessage.take 2 = cmeHead .clientList .response := rfl
  rw [onCmeMessage, if_pos head, onClientList_eq, listing_clientListMessage h few,
    Registry.listed_agreeing h]

/-- Extra capabilities report their client and reach its counterpart. -/
theorem onCmeMessage_capabilitiesMessage {id : ClientId} (valid : id.isValid) (octets : Octets)
    (e : Endpoint) :
    e.onCmeMessage (capabilitiesMessage id octets) = e.notify (e.registry.reported id true true)
      ((e.registry.notice? id (.availability true true)).toList ++
        (e.registry.notice? id (.extraCapabilities octets)).toList) := by
  have head : (capabilitiesMessage id octets).take 2 = cmeHead .extraCapabilities .response := rfl
  have behind : (capabilitiesMessage id octets).drop 2 =
      id.write extraCapabilitiesFlag ++ octets := rfl
  have handed : (capabilitiesMessage id octets).drop (2 + id.size) = octets := by
    rw [← List.drop_drop, behind, ClientId.drop_write_append valid]
  rw [onCmeMessage, head, if_neg (by decide), if_neg (by decide), if_pos rfl,
    onExtraCapabilities_eq, behind, ClientId.parse?_write_append valid]
  dsimp only
  rw [handed]

end Endpoint

end SimplexControl
