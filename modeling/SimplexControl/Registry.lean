import SimplexControl.Pdu.Basic

/-!
# The registry of local clients

The registry holds the clients of this side in the order of their identifications, at most one
under each, and with each what the remote side has last reported about its counterpart. What a
client is told is a `Notice`, addressed by the tag under which it was registered.
-/

namespace SimplexControl

/-- An application that communicates under an identification of its own. It is assumed to give the
same answers about itself throughout: its identification, whether it has extra capabilities and
which they are stay as they were when it was registered. -/
structure Client where
  /-- Its identification. -/
  id : ClientId
  /-- The tag by which its owner knows it. -/
  tag : Nat
  /-- Whether it is announced as having extra capabilities. -/
  hasExtra : Bool
  /-- The extra capabilities that it has to send, if any. -/
  extra : Option Octets
deriving DecidableEq, Repr

/-- A client that announces nothing beyond its identification. -/
def Client.plain (id : ClientId) (tag : Nat) : Client := ⟨id, tag, false, none⟩

/-- What can happen to a client. -/
inductive Event
  /-- A PDU for this client has come in. -/
  | message (pdu : Pdu)
  /-- The extra capabilities of the remote counterpart have come in. -/
  | extraCapabilities (octets : Octets)
  /-- The remote side has or has not a counterpart, with or without extra capabilities. -/
  | availability (available hasExtra : Bool)
deriving DecidableEq, Repr

/-- An event and the tag of the client that is told of it. -/
structure Notice where
  /-- The tag of the client. -/
  tag : Nat
  /-- What it is told. -/
  event : Event
deriving DecidableEq, Repr

/-- Why a client is not registered. -/
inductive RegistrationError
  | reserved
  | invalid (id : ClientId)
  | duplicate (id : ClientId)
deriving DecidableEq, Repr

/-- The words for a refused registration. -/
def RegistrationError.message : RegistrationError → String
  | .reserved => "the CME client ID is reserved"
  | .invalid id =>
    let name := id.describe
    s!"client {name} is not a valid client identification"
  | .duplicate id =>
    let name := id.describe
    s!"client {name} is already registered"

/-- A registered client and what the remote side has reported about its counterpart. -/
structure Entry where
  /-- The client. -/
  client : Client
  /-- Whether the remote side has a counterpart. -/
  available : Bool
  /-- Whether that counterpart has extra capabilities. -/
  hasExtra : Bool
deriving DecidableEq, Repr

namespace Entry

/-- The identification under which the entry is found. -/
def id (e : Entry) : ClientId := e.client.id

/-- The entry with a new report. -/
def report (e : Entry) (available hasExtra : Bool) : Entry :=
  { e with available := available, hasExtra := hasExtra }

/-- What the client of the entry is told of an event. -/
def notice (e : Entry) (event : Event) : Notice := ⟨e.client.tag, event⟩

end Entry

/-- The registered clients in the order of their identifications. -/
structure Registry where
  /-- The entries in this order. -/
  entries : List Entry
deriving DecidableEq, Repr

namespace Registry

/-- A registry without clients. -/
def empty : Registry := ⟨[]⟩

/-- The number of clients. -/
def size (r : Registry) : Nat := r.entries.length

/-- The identifications in order. -/
def ids (r : Registry) : List ClientId := r.entries.map Entry.id

/-- The entry of an identification. -/
def find? (r : Registry) (id : ClientId) : Option Entry := r.entries.find? (·.id = id)

/-- Whether a client is registered under an identification. -/
def contains (r : Registry) (id : ClientId) : Bool := (r.find? id).isSome

/-- Puts an entry before the first one with a greater identification. -/
def insert (e : Entry) : List Entry → List Entry
  | [] => [e]
  | x :: xs => if e.id < x.id then e :: x :: xs else x :: insert e xs

/-- Registers a client of which nothing has been reported yet. The identification of the
managing client is reserved, one that cannot be read back is invalid, and each can be taken
only once. -/
def register (r : Registry) (client : Client) : Except RegistrationError Registry :=
  if client.id = .cme then .error .reserved
  else if !client.id.isValid then .error (.invalid client.id)
  else if r.contains client.id then .error (.duplicate client.id)
  else .ok ⟨insert ⟨client, false, false⟩ r.entries⟩

/-- Removes the client of an identification. -/
def unregister (r : Registry) (id : ClientId) : Registry := ⟨r.entries.filter (·.id ≠ id)⟩

/-- Records a report for an identification, if a client is registered under it, and the notice
that this client gets. -/
def report (r : Registry) (id : ClientId) (available hasExtra : Bool) :
    Option (Registry × Notice) :=
  (r.find? id).map fun e =>
    (⟨r.entries.map fun e => if e.id = id then e.report available hasExtra else e⟩,
      e.notice (.availability available hasExtra))

/-- Records that the remote side has no client at all. -/
def resetReports (r : Registry) : Registry := ⟨r.entries.map (·.report false false)⟩

/-- What the clients are told when the reports are reset, in their order. -/
def resetNotices (r : Registry) : List Notice :=
  r.entries.map (·.notice (.availability false false))

/-- What the client of an identification is told of an event. -/
def notice? (r : Registry) (id : ClientId) (event : Event) : Option Notice :=
  (r.find? id).map (·.notice event)

end Registry

end SimplexControl
