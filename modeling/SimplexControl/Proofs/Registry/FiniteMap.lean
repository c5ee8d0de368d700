import Mathlib.Data.Set.Card
import SimplexControl.Proofs.Registry
import SimplexControl.Registry.Operation

/-!
# The registry as a finite map

What can be found in a registry under each identification is all that there is to it. Each operation
changes this table in the way that one expects of a map, and its answer is that of the table, the
list of all clients in the order of their identifications included.
-/

namespace SimplexControl.Registry

variable {r s : Registry} {id : ClientId} {client : Client} {e : Entry}

/-! ## What is found after an operation -/

theorem Sound.find?_of_register (h : r.Sound) (done : r.register client = .ok s) :
    s.find? = Function.update r.find? client.id (some ⟨client, false, false⟩) := by
  have sound := h.register done
  obtain ⟨_, _, fresh, rfl⟩ := register_eq_ok_iff.mp done
  funext id
  apply Option.ext
  intro e
  rw [sound.find?_eq_some_iff, mem_insert]
  by_cases same : id = client.id
  · subst same
    rw [Function.update_self]
    constructor
    · rintro ⟨rfl | earlier, named⟩
      · rfl
      · exact absurd (mem_ids.mpr ⟨e, earlier, named⟩) fresh
    · rintro ⟨⟩
      exact ⟨.inl rfl, rfl⟩
  · rw [Function.update_of_ne same, h.find?_eq_some_iff]
    constructor
    · rintro ⟨rfl | earlier, named⟩
      · exact absurd named.symm same
      · exact ⟨earlier, named⟩
    · rintro ⟨earlier, named⟩
      exact ⟨.inr earlier, named⟩

theorem Sound.find?_unregister (h : r.Sound) (id : ClientId) :
    (r.unregister id).find? = Function.update r.find? id none := by
  funext id'
  apply Option.ext
  intro e
  rw [(h.unregister id).find?_eq_some_iff, Registry.unregister, List.mem_filter]
  by_cases same : id' = id
  · subst same
    simp
  · rw [Function.update_of_ne same, h.find?_eq_some_iff]
    constructor
    · rintro ⟨⟨present, _⟩, named⟩
      exact ⟨present, named⟩
    · rintro ⟨present, rfl⟩
      exact ⟨⟨present, by simpa using same⟩, rfl⟩

theorem find?_reported (r : Registry) (id : ClientId) (available hasExtra : Bool) :
    (r.reported id available hasExtra).find? =
      Function.update r.find? id ((r.find? id).map (·.report available hasExtra)) := by
  have kept (e : Entry) : (if e.id = id then e.report available hasExtra else e).id = e.id := by
    split <;> rfl
  have mapped (id' : ClientId) : (r.reported id available hasExtra).find? id' =
      (r.find? id').map fun e => if e.id = id then e.report available hasExtra else e := by
    simp only [find?, reported, List.find?_map, Function.comp_def, kept]
  funext id'
  rw [mapped]
  by_cases same : id' = id
  · subst same
    rw [Function.update_self]
    apply Option.map_congr
    intro e found
    exact if_pos (of_find? found).2
  · rw [Function.update_of_ne same]
    cases found : r.find? id' with
    | none => rfl
    | some e =>
      have other : e.id ≠ id := by rw [(of_find? found).2]; exact same
      rw [Option.map_some, if_neg other]

theorem find?_resetReports (r : Registry) :
    r.resetReports.find? = fun id => (r.find? id).map (·.report false false) := by
  funext id
  rw [find?, resetReports, List.find?_map]
  rfl

/-! ## Tables -/

/-- What is stored under each identification. -/
abbrev Table := ClientId → Option Entry

namespace Table

/-- A client can be registered: its identification is free, and not the managing client's. -/
def Admits (t : Table) (client : Client) : Prop :=
  client.id ≠ .cme ∧ client.id.isValid ∧ t client.id = none

instance (t : Table) (client : Client) : Decidable (t.Admits client) :=
  inferInstanceAs (Decidable (_ ∧ _ ∧ _))

/-- What an operation makes of a table. -/
def after (t : Table) : Operation → Table
  | .register client =>
    if t.Admits client then Function.update t client.id (some ⟨client, false, false⟩) else t
  | .unregister id => Function.update t id none
  | .report id available hasExtra =>
    Function.update t id ((t id).map (·.report available hasExtra))
  | .resetReports => fun id => (t id).map (·.report false false)
  | .find _ | .contains _ | .size | .list => t

/-- The answer is the one that the table gives. -/
def Answers (t : Table) : (op : Operation) → op.Answer → Prop
  | .register client, result => result = .ok () ↔ t.Admits client
  | .unregister id, removed => removed = (t id).map Entry.client
  | .report id _ _, known => known = (t id).isSome
  | .resetReports, _ => True
  | .find id, found => found = t id
  | .contains id, known => known = (t id).isSome
  | .size, size => size = {id | (t id).isSome}.ncard
  | .list, listed => (listed.map Prod.fst).Pairwise (· < ·) ∧
      ∀ id e, (id, e) ∈ listed ↔ t id = some e

end Table

/-! ## One operation -/

/-- A refused registration changes nothing and tells nobody. -/
theorem perform_register (r : Registry) (client : Client) :
    (∃ s, r.register client = .ok s ∧ r.perform (.register client) = ⟨.ok (), s, []⟩) ∨
      ∃ cause, r.register client = .error cause ∧
        r.perform (.register client) = ⟨.error cause, r, []⟩ := by
  cases done : r.register client with
  | ok s => exact .inl ⟨s, rfl, by simp only [perform, done]⟩
  | error cause => exact .inr ⟨cause, rfl, by simp only [perform, done]⟩

theorem perform_report (r : Registry) (id : ClientId) (available hasExtra : Bool) :
    r.perform (.report id available hasExtra) =
      ⟨r.contains id, r.reported id available hasExtra,
        (r.notice? id (.availability available hasExtra)).toList⟩ := by
  simp only [perform, report_eq, notice?, contains]
  cases found : r.find? id with
  | none => simp [reported_of_not_mem (find?_eq_none_iff.mp found)]
  | some e => rfl

theorem mem_ids_iff_isSome (r : Registry) (id : ClientId) : id ∈ r.ids ↔ (r.find? id).isSome :=
  contains_iff.symm

theorem admits_iff : Table.Admits r.find? client ↔ ∃ s, r.register client = .ok s := by
  rw [Table.Admits, find?_eq_none_iff]
  constructor
  · rintro ⟨notCme, valid, fresh⟩
    exact ⟨_, register_eq_ok_iff.mpr ⟨notCme, valid, fresh, rfl⟩⟩
  · rintro ⟨s, done⟩
    obtain ⟨notCme, valid, fresh, _⟩ := register_eq_ok_iff.mp done
    exact ⟨notCme, valid, fresh⟩

namespace Sound

theorem perform (h : r.Sound) (op : Operation) : (r.perform op).registry.Sound := by
  cases op with
  | register client =>
    rcases perform_register r client with ⟨s, done, outcome⟩ | ⟨cause, _, outcome⟩
    · rw [outcome]
      exact h.register done
    · rwa [outcome]
  | unregister id => exact h.unregister id
  | report id available hasExtra =>
    rw [perform_report]
    exact h.of_clients (clients_reported r id available hasExtra)
  | resetReports => exact h.of_clients (clients_resetReports r)
  | find id => exact h
  | contains id => exact h
  | size => exact h
  | list => exact h

/-- An operation does to a registry what it does to its table. -/
theorem find?_perform (h : r.Sound) (op : Operation) :
    (r.perform op).registry.find? = Table.after r.find? op := by
  cases op with
  | register client =>
    rcases perform_register r client with ⟨s, done, outcome⟩ | ⟨cause, refused, outcome⟩
    · rw [outcome, Table.after, if_pos (admits_iff.mpr ⟨s, done⟩)]
      exact h.find?_of_register done
    · rw [outcome, Table.after, if_neg]
      intro admitted
      obtain ⟨s, done⟩ := admits_iff.mp admitted
      rw [refused] at done
      cases done
  | unregister id => exact h.find?_unregister id
  | report id available hasExtra =>
    rw [perform_report]
    exact find?_reported r id available hasExtra
  | resetReports => exact find?_resetReports r
  | find id => rfl
  | contains id => rfl
  | size => rfl
  | list => rfl

/-- An operation is answered as its table would answer it. -/
theorem answers_perform (h : r.Sound) (op : Operation) :
    Table.Answers r.find? op (r.perform op).answer := by
  cases op with
  | register client =>
    rw [Table.Answers, admits_iff]
    rcases perform_register r client with ⟨s, done, outcome⟩ | ⟨cause, refused, outcome⟩
    · simp [outcome, done]
    · simp [outcome, refused]
  | unregister id => rfl
  | report id available hasExtra =>
    rw [perform_report]
    rfl
  | resetReports => trivial
  | find id => rfl
  | contains id => rfl
  | size =>
    have keys : {id | (r.find? id).isSome} = (r.ids.toFinset : Set ClientId) := by
      ext id
      simp [← mem_ids_iff_isSome]
    rw [Table.Answers, keys, Set.ncard_coe_finset, List.toFinset_card_of_nodup h.nodup]
    exact (List.length_map _).symm
  | list =>
    constructor
    · show ((r.entries.map fun e => (e.id, e)).map Prod.fst).Pairwise (· < ·)
      rw [List.map_map]
      exact h.ordered
    · intro id e
      rw [h.find?_eq_some_iff]
      show (id, e) ∈ r.entries.map (fun e => (e.id, e)) ↔ _
      constructor
      · intro listed
        obtain ⟨e', present, same⟩ := List.mem_map.mp listed
        cases same
        exact ⟨present, rfl⟩
      · rintro ⟨present, rfl⟩
        exact List.mem_map_of_mem present

/-! ## Runs -/

/-- What operations do to a registry they do to its table. -/
theorem after (ops : List Operation) : ∀ {r : Registry}, r.Sound →
    (r.after ops).Sound ∧ (r.after ops).find? = ops.foldl Table.after r.find? := by
  induction ops with
  | nil => exact fun h => ⟨h, rfl⟩
  | cons op ops ih =>
    intro r h
    have later := ih (h.perform op)
    rwa [h.find?_perform op] at later

end Sound

/-- Whatever has been done to a registry, it is the table that the operations make of an empty one:
its list of clients is strictly in the order of their identifications, each of which is that of the
client stored under it, can be read back and is not the managing client's. What is done next is
answered as the table answers it and does to the registry what it does to the table, and a
registration that is refused does nothing. -/
theorem behaves_as_table (ops : List Operation) :
    let r := empty.after ops
    let t : Table := ops.foldl Table.after fun _ => none
    r.find? = t ∧ r.ids.Pairwise (· < ·) ∧ r.ids.Nodup ∧ (∀ id, id ∈ r.ids ↔ (t id).isSome) ∧
      (∀ id e, t id = some e → e.client.id = id ∧ id.isValid ∧ id ≠ .cme) ∧
      (∀ op, t.Answers op (r.perform op).answer ∧
        (r.perform op).registry.find? = t.after op) ∧
      ∀ client cause, (r.perform (.register client)).answer = .error cause →
        (r.perform (.register client)).registry = r ∧
          (r.perform (.register client)).notices = [] := by
  intro r t
  obtain ⟨sound, same⟩ : r.Sound ∧ r.find? = t := Sound.after ops sound_empty
  rw [← same]
  refine ⟨rfl, sound.ordered, sound.nodup, mem_ids_iff_isSome r, ?_, ?_, ?_⟩
  · intro id e found
    obtain ⟨present, rfl⟩ := of_find? found
    obtain ⟨notCme, valid⟩ := sound.usable e.id (List.mem_map_of_mem present)
    exact ⟨rfl, valid, notCme⟩
  · exact fun op => ⟨sound.answers_perform op, sound.find?_perform op⟩
  · intro client cause refused
    rcases perform_register r client with ⟨s, _, outcome⟩ | ⟨_, _, outcome⟩
    · rw [outcome] at refused
      cases refused
    · rw [outcome]
      exact ⟨rfl, rfl⟩

/-- A reserved octet, a second client under one identification, and a removal of nobody. -/
example : (empty.after [.register (.plain (.extended 9) 1), .register (.plain (.standard 0x7F) 2),
    .register (.plain .cameraControl 3), .report (.extended 9) true false,
    .register (.plain (.extended 9) 4), .unregister (.standard 5)]).entries =
      [⟨.plain .cameraControl 3, false, false⟩, ⟨.plain (.extended 9) 1, true, false⟩] := by decide

end SimplexControl.Registry
