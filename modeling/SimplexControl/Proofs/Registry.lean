import Mathlib.Data.List.Lex
import Mathlib.Data.List.Nodup
import Mathlib.Order.Defs.LinearOrder
import SimplexControl.Registry

/-!
# The registry in order

However clients are registered, removed and reported on, the identifications stay strictly in
order, all of them can be read back, and none is that of the managing client. Only registration
and removal touch the clients, so a report keeps all of this because it keeps them.
-/

namespace SimplexControl

namespace ClientId

theorem lt_of_lt_of_lt {a b c : ClientId} (first : a < b) (second : b < c) : a < c :=
  lt_trans (a := a.key) first second

theorem ne_of_lt {a b : ClientId} (less : a < b) : a ≠ b := by
  rintro rfl
  exact lt_irrefl a.key less

theorem lt_of_ne_of_not_lt {a b : ClientId} (different : a ≠ b) (notLess : ¬ a < b) : b < a := by
  rcases lt_trichotomy a.key b.key with less | same | greater
  · exact absurd less notLess
  · exact absurd (key_inj.mp same) different
  · exact greater

end ClientId

namespace Registry

/-- Where no two have the same key, the one with a given key is alone. -/
theorem filter_key {α β : Type} [DecidableEq β] {key : α → β} {xs : List α}
    (nodup : (xs.map key).Nodup) {x : α} (present : x ∈ xs) :
    xs.filter (key · = key x) = [x] := by
  induction xs with
  | nil => exact absurd present List.not_mem_nil
  | cons y ys ih =>
    obtain ⟨once, rest⟩ := List.nodup_cons.mp nodup
    rcases List.mem_cons.mp present with rfl | later
    · have others : ys.filter (key · = key x) = [] := by
        refine List.filter_eq_nil_iff.mpr fun z member => ?_
        have different : key z ≠ key x := fun same => once (same ▸ List.mem_map_of_mem member)
        simpa using different
      rw [List.filter_cons_of_pos (by simp), others]
    · have different : key y ≠ key x := fun same => once (same ▸ List.mem_map_of_mem later)
      rw [List.filter_cons_of_neg (by simpa using different), ih rest later]

variable {r s : Registry} {id : ClientId} {e : Entry}

/-! ## Lookup -/

theorem mem_ids : id ∈ r.ids ↔ ∃ e ∈ r.entries, e.id = id := List.mem_map

theorem contains_iff : r.contains id ↔ id ∈ r.ids := by
  rw [contains, find?, List.find?_isSome, mem_ids]
  simp

theorem find?_eq_none_iff : r.find? id = none ↔ id ∉ r.ids := by
  rw [← contains_iff, contains, Option.not_isSome_iff_eq_none]

theorem of_find? (found : r.find? id = some e) : e ∈ r.entries ∧ e.id = id := by
  have matching := List.find?_some found
  exact ⟨List.mem_of_find?_eq_some found, of_decide_eq_true matching⟩

/-! ## Order -/

/-- What holds of the identifications of a registry. -/
structure Sound (r : Registry) : Prop where
  ordered : r.ids.Pairwise (· < ·)
  usable : ∀ id ∈ r.ids, id ≠ .cme ∧ id.isValid

theorem sound_empty : empty.Sound := ⟨.nil, fun _ present => absurd present List.not_mem_nil⟩

namespace Sound

theorem valid (h : r.Sound) (present : id ∈ r.ids) : id.isValid := (h.usable id present).2

theorem nodup (h : r.Sound) : r.ids.Nodup := h.ordered.imp ClientId.ne_of_lt

/-- The entry that is found is the only one under its identification. -/
theorem find?_eq_some_iff (h : r.Sound) : r.find? id = some e ↔ e ∈ r.entries ∧ e.id = id := by
  constructor
  · exact of_find?
  · rintro ⟨present, rfl⟩
    cases found : r.find? e.id with
    | none => exact absurd (List.mem_map_of_mem present) (find?_eq_none_iff.mp found)
    | some other =>
      obtain ⟨otherPresent, same⟩ := of_find? found
      exact congrArg some (List.inj_on_of_nodup_map h.nodup otherPresent present same)

end Sound

theorem mem_insert {x : Entry} (xs : List Entry) : x ∈ insert e xs ↔ x = e ∨ x ∈ xs := by
  induction xs with
  | nil => simp [insert]
  | cons y ys ih =>
    rw [insert]
    split
    · exact List.mem_cons
    · rw [List.mem_cons, ih, List.mem_cons, or_left_comm]

/-- A new identification finds its place between the smaller and the greater ones. -/
theorem pairwise_insert {xs : List Entry} (ordered : xs.Pairwise (·.id < ·.id))
    (fresh : ∀ x ∈ xs, x.id ≠ e.id) : (insert e xs).Pairwise (·.id < ·.id) := by
  induction xs with
  | nil => exact List.pairwise_singleton _ e
  | cons y ys ih =>
    obtain ⟨behind, rest⟩ := List.pairwise_cons.mp ordered
    rw [insert]
    split
    next before =>
      refine List.pairwise_cons.mpr ⟨?_, ordered⟩
      intro x present
      rcases List.mem_cons.mp present with rfl | later
      · exact before
      · exact ClientId.lt_of_lt_of_lt before (behind x later)
    next notBefore =>
      have after : y.id < e.id :=
        ClientId.lt_of_ne_of_not_lt (fresh y List.mem_cons_self).symm notBefore
      have placed := ih rest fun x later => fresh x (List.mem_cons_of_mem y later)
      refine List.pairwise_cons.mpr ⟨?_, placed⟩
      intro x present
      rcases (mem_insert ys).mp present with rfl | later
      · exact after
      · exact behind x later

/-- A client is registered only under an identification that is valid and not taken. -/
theorem register_eq_ok_iff {client : Client} :
    r.register client = .ok s ↔ client.id ≠ .cme ∧ client.id.isValid ∧ client.id ∉ r.ids ∧
      s = ⟨insert ⟨client, false, false⟩ r.entries⟩ := by
  rw [register, ← contains_iff]
  constructor
  · intro done
    split at done
    · cases done
    split at done
    · cases done
    split at done
    · cases done
    next notCme valid fresh =>
    cases done
    exact ⟨notCme, by simpa using valid, fresh, rfl⟩
  · rintro ⟨notCme, valid, fresh, rfl⟩
    rw [if_neg notCme, if_neg (by simpa using valid), if_neg fresh]

namespace Sound

theorem register (h : r.Sound) {client : Client} (done : r.register client = .ok s) : s.Sound := by
  obtain ⟨notCme, valid, fresh, rfl⟩ := register_eq_ok_iff.mp done
  constructor
  · refine List.pairwise_map.mpr (pairwise_insert (List.pairwise_map.mp h.ordered) ?_)
    intro e present same
    exact fresh (mem_ids.mpr ⟨e, present, same⟩)
  · intro id present
    obtain ⟨e, member, rfl⟩ := mem_ids.mp present
    rcases (mem_insert r.entries).mp member with rfl | earlier
    · exact ⟨notCme, valid⟩
    · exact h.usable e.id (List.mem_map_of_mem earlier)

theorem unregister (h : r.Sound) (id : ClientId) : (r.unregister id).Sound := by
  have fewer : (r.unregister id).ids.Sublist r.ids := List.filter_sublist.map Entry.id
  exact ⟨h.ordered.sublist fewer, fun id present => h.usable id (fewer.subset present)⟩

end Sound

/-! ## Reports -/

/-- The clients in the order of their identifications. -/
def clients (r : Registry) : List Client := r.entries.map Entry.client

theorem ids_eq_map_clients (r : Registry) : r.ids = r.clients.map Client.id := by
  rw [ids, clients, List.map_map]
  rfl

theorem ids_of_clients (same : s.clients = r.clients) : s.ids = r.ids := by
  rw [ids_eq_map_clients, ids_eq_map_clients, same]

/-- Soundness is a matter of the clients alone. -/
theorem Sound.of_clients (h : r.Sound) (same : s.clients = r.clients) : s.Sound := by
  have ids := ids_of_clients same
  exact ⟨ids ▸ h.ordered, ids ▸ h.usable⟩

/-- The registry after a report for an identification, the same if there is no such client. -/
def reported (r : Registry) (id : ClientId) (available hasExtra : Bool) : Registry :=
  ⟨r.entries.map fun e => if e.id = id then e.report available hasExtra else e⟩

@[simp] theorem clients_resetReports (r : Registry) : r.resetReports.clients = r.clients := by
  rw [resetReports, clients, clients, List.map_map]
  rfl

@[simp] theorem clients_reported (r : Registry) (id : ClientId) (available hasExtra : Bool) :
    (r.reported id available hasExtra).clients = r.clients := by
  have kept : Entry.client ∘ (fun e => if e.id = id then e.report available hasExtra else e) =
      Entry.client := by
    funext e
    rw [Function.comp_apply]
    split <;> rfl
  rw [reported, clients, clients, List.map_map, kept]

theorem reported_of_not_mem (absent : id ∉ r.ids) (available hasExtra : Bool) :
    r.reported id available hasExtra = r := by
  have same : ∀ e ∈ r.entries,
      (if e.id = id then e.report available hasExtra else e) = e := by
    intro e present
    rw [if_neg fun taken => absent (mem_ids.mpr ⟨e, present, taken⟩)]
  rw [reported, List.map_congr_left same, List.map_id']

theorem report_eq (r : Registry) (id : ClientId) (available hasExtra : Bool) :
    r.report id available hasExtra =
      (r.notice? id (.availability available hasExtra)).map
        (r.reported id available hasExtra, ·) := by
  rw [report, notice?, Option.map_map]
  rfl

/-- What a client is told hangs on the clients alone. -/
theorem notice?_of_clients (same : s.clients = r.clients) (id : ClientId) (event : Event) :
    s.notice? id event = r.notice? id event := by
  have tagOf (r : Registry) : r.notice? id event =
      (r.clients.find? (·.id = id)).map fun c => ⟨c.tag, event⟩ := by
    rw [notice?, find?, clients, List.find?_map, Option.map_map]
    rfl
  rw [tagOf, tagOf, same]

end Registry

end SimplexControl
