import SimplexControl.Hdlc.Encoding
import SimplexControl.Pdu.Decode
import SimplexControl.Registry

/-!
# Endpoints

An endpoint is one side of a logical channel: its configuration, its clients, its transmitter
while it transmits, and the PDU that the last payload was read into. What an operation does is a
`Reaction`: a result, the endpoint afterwards, the packets that went out and the notices that
clients got, both in order.
-/

namespace SimplexControl

/-- How an endpoint is set up. -/
structure Config where
  /-- How frames go over the line. -/
  framing : Framing
  /-- The largest area of client data in frames of clients and in extra capabilities. -/
  maxData : Nat
deriving DecidableEq, Repr

/-- The configuration of an endpoint for which none is given. -/
def Config.standard : Config := ⟨.hdlc, Pdu.defaultDataSize⟩

/-- A frame as it is handed to the transport. The time stamped on it is left out: it is read from a
clock, and nothing that an endpoint does depends on it. -/
structure Packet where
  /-- The start of transmission to which the packet belongs. -/
  emitter : Nat
  /-- The octets of the packet. -/
  payload : Octets
  /-- Set where a frame ends with the packet. -/
  marker : Bool
deriving DecidableEq, Repr

/-- A running transmission. The time at which it began is left out: it only serves the time
stamps. -/
structure Transmitter where
  /-- The start of transmission that began it. -/
  emitter : Nat
  /-- Where in an octet the next frame starts. -/
  position : Hdlc.BitPosition
deriving DecidableEq, Repr

/-- One side of a logical channel. -/
structure Endpoint where
  /-- Its configuration. -/
  config : Config
  /-- Its clients. -/
  registry : Registry
  /-- The running transmission, if any. -/
  transmitter : Option Transmitter
  /-- The PDU into which payloads are read. -/
  inbox : Pdu
deriving DecidableEq, Repr

/-- Why an operation fails. -/
inductive EndpointError
  | registration (cause : RegistrationError)
  | notRegistered (id : ClientId)
  | transmitDisabled
  | dataTooLarge (size max : Nat)
  | decode (cause : PduError)
  | encode (cause : EncodeError)
deriving DecidableEq, Repr

/-- The words for a failed operation. -/
def EndpointError.message : EndpointError → String
  | .registration cause => cause.message
  | .notRegistered id =>
    let name := id.describe
    s!"client {name} is not registered"
  | .transmitDisabled => "transmission is not started"
  | .dataTooLarge size max => s!"client data of {size} octets exceeds maximum of {max}"
  | .decode cause =>
    let inner := cause.message
    s!"decoding of H.224 frame failed: {inner}"
  | .encode cause =>
    let inner := cause.message
    s!"encoding of H.224 frame failed: {inner}"

/-- What an operation does. -/
structure Reaction where
  /-- Whether it has succeeded. -/
  result : Except EndpointError Unit
  /-- The endpoint afterwards. -/
  endpoint : Endpoint
  /-- The packets that went out. -/
  packets : List Packet
  /-- The notices that clients got. -/
  notices : List Notice

namespace Reaction

/-- Goes on with another operation, unless the first has failed. -/
def andThen (r : Reaction) (next : Endpoint → Reaction) : Reaction :=
  match r.result with
  | .error _ => r
  | .ok _ =>
    let s := next r.endpoint
    ⟨s.result, s.endpoint, r.packets ++ s.packets, r.notices ++ s.notices⟩

end Reaction

namespace Endpoint

/-- An endpoint without clients that does not transmit. -/
def new (config : Config) : Endpoint := ⟨config, .empty, none, default⟩

/-- Whether a transmission is running. -/
def isTransmitting (e : Endpoint) : Bool := e.transmitter.isSome

/-- Succeeds without doing anything. -/
def done (e : Endpoint) : Reaction := ⟨.ok (), e, [], []⟩

/-- Fails without doing anything. -/
def refuse (e : Endpoint) (cause : EndpointError) : Reaction := ⟨.error cause, e, [], []⟩

/-- Succeeds with an updated registry, and notices for its clients. -/
def notify (e : Endpoint) (registry : Registry) (notices : List Notice) : Reaction :=
  ⟨.ok (), { e with registry := registry }, [], notices⟩

/-- Performs operations in turn up to the first one that fails. -/
def doAll (e : Endpoint) : List (Endpoint → Reaction) → Reaction
  | [] => e.done
  | op :: ops => (op e).andThen fun e => e.doAll ops

/-- Adds a client. -/
def addClient (e : Endpoint) (client : Client) : Reaction :=
  match e.registry.register client with
  | .error cause => e.refuse (.registration cause)
  | .ok registry => e.notify registry []

/-- Removes the client of an identification. -/
def removeClient (e : Endpoint) (id : ClientId) : Reaction :=
  e.notify (e.registry.unregister id) []

end Endpoint

end SimplexControl
