import SimplexControl.Endpoint.Dispatch

/-!
# Runs of an endpoint

Everything that the application and the transport can do to an endpoint, as one type of
operations, and what a sequence of them leaves behind.
-/

namespace SimplexControl.Endpoint

/-- Something done to an endpoint. -/
inductive Operation
  | addClient (client : Client)
  | removeClient (id : ClientId)
  | startTransmit (emitter : Nat)
  | stopTransmit
  | sendClientList
  | sendExtraCapabilities
  | sendExtraCapabilitiesOf (id : ClientId) (octets : Octets)
  | requestClientList
  | requestExtraCapabilities (id : ClientId)
  | sendPdu (id : ClientId) (pdu : Pdu)
  | receive (payload : Octets)
  | onPdu (pdu : Pdu)
  | onCmeMessage (data : Octets)
  | onClientList (data : Octets)
  | onClientListCommand
  | onExtraCapabilities (data : Octets)
  | onExtraCapabilitiesCommand
deriving DecidableEq, Repr

/-- What an operation does to an endpoint. -/
def perform (e : Endpoint) : Operation → Reaction
  | .addClient client => e.addClient client
  | .removeClient id => e.removeClient id
  | .startTransmit emitter => e.startTransmit emitter
  | .stopTransmit => e.stopTransmit
  | .sendClientList => e.sendClientList
  | .sendExtraCapabilities => e.sendExtraCapabilities
  | .sendExtraCapabilitiesOf id octets => e.sendExtraCapabilitiesOf id octets
  | .requestClientList => e.requestClientList
  | .requestExtraCapabilities id => e.requestExtraCapabilities id
  | .sendPdu id pdu => e.sendPdu id pdu
  | .receive payload => e.receive payload
  | .onPdu pdu => e.onPdu pdu
  | .onCmeMessage data => e.onCmeMessage data
  | .onClientList data => e.onClientList data
  | .onClientListCommand => e.onClientListCommand
  | .onExtraCapabilities data => e.onExtraCapabilities data
  | .onExtraCapabilitiesCommand => e.onExtraCapabilitiesCommand

/-- What operations do one after another, a failed one included. -/
def run (e : Endpoint) : List Operation → List Reaction
  | [] => []
  | op :: ops => e.perform op :: run (e.perform op).endpoint ops

end SimplexControl.Endpoint
