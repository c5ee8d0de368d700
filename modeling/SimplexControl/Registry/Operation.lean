import SimplexControl.Registry

/-!
# Runs of a registry

Everything that can be done to a registry or asked of it, as one type of operations, each with an
answer of its own type, and what a sequence of them leaves behind.
-/

namespace SimplexControl.Registry

/-- Something done to a registry, or asked of it. -/
inductive Operation
  | register (client : Client)
  | unregister (id : ClientId)
  | report (id : ClientId) (available hasExtra : Bool)
  | resetReports
  | find (id : ClientId)
  | contains (id : ClientId)
  | size
  | list
deriving DecidableEq, Repr

/-- What an operation answers with. -/
abbrev Operation.Answer : Operation → Type
  | .register _ => Except RegistrationError Unit
  | .unregister _ => Option Client
  | .report _ _ _ => Bool
  | .resetReports => Unit
  | .find _ => Option Entry
  | .contains _ => Bool
  | .size => Nat
  | .list => List (ClientId × Entry)

/-- What an operation does. -/
structure Outcome (α : Type) where
  /-- Its answer. -/
  answer : α
  /-- The registry afterwards. -/
  registry : Registry
  /-- The notices that clients got. -/
  notices : List Notice

/-- What an operation does to a registry. -/
def perform (r : Registry) : (op : Operation) → Outcome op.Answer
  | .register client =>
    match r.register client with
    | .error cause => ⟨.error cause, r, []⟩
    | .ok registry => ⟨.ok (), registry, []⟩
  | .unregister id => ⟨(r.find? id).map Entry.client, r.unregister id, []⟩
  | .report id available hasExtra =>
    match r.report id available hasExtra with
    | none => ⟨false, r, []⟩
    | some (registry, notice) => ⟨true, registry, [notice]⟩
  | .resetReports => ⟨(), r.resetReports, r.resetNotices⟩
  | .find id => ⟨r.find? id, r, []⟩
  | .contains id => ⟨r.contains id, r, []⟩
  | .size => ⟨r.size, r, []⟩
  | .list => ⟨r.entries.map fun e => (e.id, e), r, []⟩

/-- The registry after operations one after another, refused ones included. -/
def after (r : Registry) (ops : List Operation) : Registry :=
  ops.foldl (fun r op => (r.perform op).registry) r

end SimplexControl.Registry
