import Mathlib.Data.List.Induction
import SimplexControl.Endpoint.Dispatch
import SimplexControl.Proofs.ClientId.Listing
import SimplexControl.Proofs.Endpoint.Sending
import SimplexControl.Proofs.Registry

/-!
# What comes in

A client list and the extra capabilities of a client are taken without failure and without an
answer: they change what is reported about the remote side, never a client, and all else that
they do is to tell the clients. Only a request can fail, where its answer does.
-/

namespace SimplexControl

namespace Registry

/-- The registry after reports of remote clients in turn. -/
def listed (r : Registry) (remote : List ClientId.Parsed) : Registry :=
  remote.foldl (fun r entry => r.reported entry.id true entry.high) r

/-- What the clients are told of these reports. -/
def listedNotices (r : Registry) (remote : List ClientId.Parsed) : List Notice :=
  remote.flatMap fun entry => (r.notice? entry.id (.availability true entry.high)).toList

@[simp] theorem clients_listed (remote : List ClientId.Parsed) : ∀ r : Registry,
    (r.listed remote).clients = r.clients := by
  induction remote with
  | nil => exact fun _ => rfl
  | cons entry remote ih => exact fun r => (ih _).trans (clients_reported r _ _ _)

theorem listedNotices_of_clients {r s : Registry} (same : s.clients = r.clients)
    (remote : List ClientId.Parsed) : s.listedNotices remote = r.listedNotices remote := by
  simp only [listedNotices, notice?_of_clients same]

/-- The last entry for an identification among those of a list. -/
def lastListed (remote : List ClientId.Parsed) (id : ClientId) : Option ClientId.Parsed :=
  (remote.filter (·.id = id)).getLast?

theorem lastListed_concat (remote : List ClientId.Parsed) (entry : ClientId.Parsed)
    (id : ClientId) :
    lastListed (remote ++ [entry]) id =
      if entry.id = id then some entry else lastListed remote id := by
  unfold lastListed
  rw [List.filter_append, List.filter_singleton]
  by_cases named : entry.id = id <;> simp [named]

/-- Reports in turn leave a client with the last one for it. -/
theorem listed_eq (r : Registry) (remote : List ClientId.Parsed) : r.listed remote =
    ⟨r.entries.map fun e =>
      (lastListed remote e.id).elim e fun entry => e.report true entry.high⟩ := by
  induction remote using List.reverseRecOn with
  | nil => exact congrArg mk (List.map_id r.entries).symm
  | append_singleton remote entry ih =>
    have last : r.listed (remote ++ [entry]) =
        (r.listed remote).reported entry.id true entry.high := List.foldl_concat ..
    rw [last, ih, reported, List.map_map]
    refine congrArg mk (List.map_congr_left fun e _ => ?_)
    have kept : ((lastListed remote e.id).elim e fun entry => e.report true entry.high).id =
        e.id := by
      cases lastListed remote e.id <;> rfl
    rw [Function.comp_apply, kept, lastListed_concat]
    by_cases named : entry.id = e.id
    · rw [if_pos named, if_pos named.symm]
      cases lastListed remote e.id <;> rfl
    · rw [if_neg named, if_neg (Ne.symm named)]

/-- Behind a reset it makes no difference what has been reported before. -/
theorem listed_resetReports (r : Registry) (remote : List ClientId.Parsed) :
    r.resetReports.listed remote = ⟨r.entries.map fun e =>
      e.report (lastListed remote e.id).isSome ((lastListed remote e.id).any (·.high))⟩ := by
  rw [listed_eq, resetReports, List.map_map]
  refine congrArg mk (List.map_congr_left fun e _ => ?_)
  have same : (e.report false false).id = e.id := rfl
  rw [Function.comp_apply, same]
  cases lastListed remote e.id <;> rfl

end Registry

namespace Endpoint

open Registry

theorem packets_unlessDisabled (r : Reaction) : (unlessDisabled r).packets = r.packets := by
  unfold unlessDisabled
  split <;> rfl

theorem andThen_notify (e : Endpoint) (registry : Registry) (notices : List Notice)
    (next : Endpoint → Reaction) :
    (e.notify registry notices).andThen next =
      let s := next { e with registry := registry }
      ⟨s.result, s.endpoint, s.packets, notices ++ s.notices⟩ := rfl

/-- A report for an identification that nobody has registered changes nothing. -/
theorem onListed_eq (e : Endpoint) (id : ClientId) (hasExtra : Bool) :
    e.onListed id hasExtra = e.notify (e.registry.reported id true hasExtra)
      (e.registry.notice? id (.availability true hasExtra)).toList := by
  rw [onListed, report_eq]
  cases found : e.registry.find? id with
  | none =>
    rw [reported_of_not_mem (find?_eq_none_iff.mp found), notice?, found]
    rfl
  | some entry =>
    rw [notice?, found]
    rfl

theorem doAll_onListed (remote : List ClientId.Parsed) : ∀ e : Endpoint,
    e.doAll (remote.map fun entry e => e.onListed entry.id entry.high) =
      e.notify (e.registry.listed remote) (e.registry.listedNotices remote) := by
  induction remote with
  | nil => exact fun e => rfl
  | cons entry remote ih =>
    intro e
    have told := listedNotices_of_clients (clients_reported e.registry entry.id true entry.high)
      remote
    rw [List.map_cons, doAll, onListed_eq, andThen_notify, ih]
    dsimp only [notify]
    rw [told]
    rfl

/-- The clients that a client list names. -/
def listing (data : Octets) : List ClientId.Parsed :=
  match data[2]? with
  | none => []
  | some count => listedClients count.toNat (data.drop 3)

/-- These are the clients that a client list names: as many as it counts, up to one that is not
whole. Without a count there are none. -/
def Lists (data : Octets) (remote : List ClientId.Parsed) : Prop :=
  ClientId.ReadUpTo (data.octetAt 2).toNat (data.drop 3) remote

theorem readUpTo_listedClients (count : Nat) :
    ∀ data : Octets, ClientId.ReadUpTo count data (listedClients count data) := by
  induction count with
  | zero => exact fun data => ⟨data, .nil data, Nat.le_refl _, fun less => absurd less (by simp)⟩
  | succ count ih =>
    intro data
    rw [listedClients]
    cases read : ClientId.parse? data with
    | none => exact ⟨data, .nil data, Nat.zero_le _, fun _ => read⟩
    | some parsed =>
      obtain ⟨rest, later, few, ended⟩ := ih (data.drop parsed.size)
      exact ⟨rest, .cons read later, Nat.succ_le_succ few,
        fun less => ended (Nat.lt_of_succ_lt_succ less)⟩

theorem lists_iff {data : Octets} {remote : List ClientId.Parsed} :
    Lists data remote ↔ remote = listing data := by
  have named : Lists data (listing data) := by
    unfold Lists listing
    cases third : data[2]? with
    | none =>
      rw [Octets.octetAt_of_le (List.getElem?_eq_none_iff.mp third)]
      exact readUpTo_listedClients 0 _
    | some count =>
      rw [Octets.octetAt_of_getElem? third]
      exact readUpTo_listedClients count.toNat _
  constructor
  · exact fun other => other.unique named
  · rintro rfl
    exact named

theorem onClientList_eq (e : Endpoint) (data : Octets) :
    e.onClientList data = e.notify (e.registry.resetReports.listed (listing data))
      (e.registry.resetNotices ++ e.registry.listedNotices (listing data)) := by
  have told := listedNotices_of_clients (clients_resetReports e.registry)
  unfold onClientList listing
  cases data[2]? with
  | none =>
    show _ = e.notify e.registry.resetReports (e.registry.resetNotices ++ [])
    rw [List.append_nil]
  | some count =>
    dsimp only
    rw [andThen_notify, doAll_onListed, told]
    rfl

theorem onExtraCapabilities_eq (e : Endpoint) (data : Octets) :
    e.onExtraCapabilities data =
      match ClientId.parse? (data.drop 2) with
      | none => e.done
      | some parsed => e.notify (e.registry.reported parsed.id true true)
        ((e.registry.notice? parsed.id (.availability true true)).toList ++
          (e.registry.notice? parsed.id
            (.extraCapabilities (data.drop (2 + parsed.size)))).toList) := by
  unfold onExtraCapabilities
  cases ClientId.parse? (data.drop 2) with
  | none => rfl
  | some parsed =>
    dsimp only
    have told := notice?_of_clients (clients_reported e.registry parsed.id true true) parsed.id
    rw [report_eq]
    cases found : e.registry.find? parsed.id with
    | none =>
      simp only [reported_of_not_mem (find?_eq_none_iff.mp found), notice?, found]
      rfl
    | some entry =>
      rw [notice?, found]
      dsimp only [Option.map_some]
      rw [told, notice?, found]
      rfl

/-! ## Dispatch -/

/-- The answer to a request. -/
def answer (e : Endpoint) : CmeCode → Reaction
  | .clientList => e.sendClientList
  | .extraCapabilities => e.sendExtraCapabilities

/-- A message of the managing client is taken in silence, or it is a request and its answer
decides. -/
theorem onCmeMessage_cases (e : Endpoint) (data : Octets) :
    (e.onCmeMessage data).result = .ok () ∧ (e.onCmeMessage data).packets = [] ∨ ∃ code,
      data.take 2 = cmeHead code .command ∧
        e.onCmeMessage data = unlessDisabled (e.answer code) := by
  unfold onCmeMessage
  split
  · rw [onClientList_eq]
    exact .inl ⟨rfl, rfl⟩
  split
  · next head => exact .inr ⟨.clientList, head, rfl⟩
  split
  · rw [onExtraCapabilities_eq]
    split <;> exact .inl ⟨rfl, rfl⟩
  split
  · next head => exact .inr ⟨.extraCapabilities, head, rfl⟩
  · exact .inl ⟨rfl, rfl⟩

variable {e : Endpoint} {pdu : Pdu}

theorem onPdu_of_cme (everyone : pdu.destination = Pdu.broadcast) (managing : pdu.client = .cme) :
    e.onPdu pdu = e.onCmeMessage pdu.data := by
  rw [onPdu, if_neg (not_not_intro everyone), if_pos managing]

theorem onPdu_of_client (everyone : pdu.destination = Pdu.broadcast)
    (notManaging : pdu.client ≠ .cme) :
    e.onPdu pdu =
      e.notify e.registry (e.registry.notice? pdu.client (.message pdu)).toList := by
  rw [onPdu, if_neg (not_not_intro everyone), if_neg notManaging]

/-- A PDU that is not for everyone, or for a client that nobody has registered, is ignored. -/
theorem onPdu_ignored (ignored : pdu.destination ≠ Pdu.broadcast ∨
    pdu.client ≠ .cme ∧ ¬ e.registry.contains pdu.client) : e.onPdu pdu = e.done := by
  by_cases everyone : pdu.destination = Pdu.broadcast
  · obtain ⟨notManaging, absent⟩ := ignored.resolve_left (not_not_intro everyone)
    have nobody : e.registry.find? pdu.client = none := by simpa [Registry.contains] using absent
    rw [onPdu_of_client everyone notManaging, notice?, nobody]
    rfl
  · rw [onPdu, if_pos everyone]

section Receiving

variable {payload : Octets} {inbox : Pdu}

theorem receive_of_undecoded {cause : PduError}
    (read : e.inbox.decode e.config.framing payload = (.error cause, inbox)) :
    e.receive payload = { e with inbox := inbox }.refuse (.decode cause) := by
  rw [receive, read]

theorem receive_of_decoded (read : e.inbox.decode e.config.framing payload = (.ok (), inbox)) :
    e.receive payload = { e with inbox := inbox }.onPdu inbox := by
  rw [receive, read]

/-- A payload from which a PDU is read is handled as this PDU. -/
theorem receive_of_readFrom (read : pdu.ReadFrom e.config.framing payload)
    (room : e.inbox.frame.maxInfo = Frame.largestInfo) :
    e.receive payload = { e with inbox := pdu }.onPdu pdu :=
  receive_of_decoded (read e.inbox room)

end Receiving

end Endpoint

end SimplexControl
