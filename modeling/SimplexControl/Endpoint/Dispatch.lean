import SimplexControl.Endpoint.Transmission

/-!
# Receiving

A payload is read into the inbox and, if it is a PDU for every terminal, handed to the client
that it names. Messages for the managing client tell what clients the remote side has, or ask
for the same about this side; a request is ignored while transmission is stopped.
-/

namespace SimplexControl.Endpoint

/-- Turns the refusal of an operation that needs a running transmission into success. -/
def unlessDisabled (r : Reaction) : Reaction :=
  match r.result with
  | .error .transmitDisabled => { r with result := .ok () }
  | _ => r

/-- Records that the remote side has a client, for the client of the same identification. -/
def onListed (e : Endpoint) (id : ClientId) (hasExtra : Bool) : Reaction :=
  match e.registry.report id true hasExtra with
  | none => e.done
  | some (registry, notice) => e.notify registry [notice]

/-- The entries of a client list, at most `count` of them, up to one that is incomplete. -/
def listedClients : Nat → Octets → List ClientId.Parsed
  | 0, _ => []
  | count + 1, data =>
    match ClientId.parse? data with
    | none => []
    | some parsed => parsed :: listedClients count (data.drop parsed.size)

/-- Takes a client list: nothing holds any longer but what the list says. Without a count the
list is empty. -/
def onClientList (e : Endpoint) (data : Octets) : Reaction :=
  let reset := e.notify e.registry.resetReports e.registry.resetNotices
  match data[2]? with
  | none => reset
  | some count =>
    reset.andThen fun e =>
      e.doAll ((listedClients count.toNat (data.drop 3)).map fun entry e =>
        e.onListed entry.id entry.high)

/-- Answers a request for the client list. -/
def onClientListCommand (e : Endpoint) : Reaction := unlessDisabled e.sendClientList

/-- Takes the extra capabilities of a remote client and hands them to its counterpart. -/
def onExtraCapabilities (e : Endpoint) (data : Octets) : Reaction :=
  match ClientId.parse? (data.drop 2) with
  | none => e.done
  | some parsed =>
    match e.registry.report parsed.id true true with
    | none => e.done
    | some (registry, notice) =>
      let capabilities := Event.extraCapabilities (data.drop (2 + parsed.size))
      e.notify registry (notice :: (registry.notice? parsed.id capabilities).toList)

/-- Answers a request for the extra capabilities of the clients. -/
def onExtraCapabilitiesCommand (e : Endpoint) : Reaction := unlessDisabled e.sendExtraCapabilities

/-- Takes a message for the managing client; one of another kind is ignored. -/
def onCmeMessage (e : Endpoint) (data : Octets) : Reaction :=
  if data.take 2 = cmeHead .clientList .response then e.onClientList data
  else if data.take 2 = cmeHead .clientList .command then e.onClientListCommand
  else if data.take 2 = cmeHead .extraCapabilities .response then e.onExtraCapabilities data
  else if data.take 2 = cmeHead .extraCapabilities .command then e.onExtraCapabilitiesCommand
  else e.done

/-- Takes a PDU. One that is not for every terminal is ignored, and so is one for a client that
is not registered. -/
def onPdu (e : Endpoint) (pdu : Pdu) : Reaction :=
  if pdu.destination ≠ Pdu.broadcast then e.done
  else if pdu.client = .cme then e.onCmeMessage pdu.data
  else e.notify e.registry (e.registry.notice? pdu.client (.message pdu)).toList

/-- Takes a payload that came in. -/
def receive (e : Endpoint) (payload : Octets) : Reaction :=
  match e.inbox.decode e.config.framing payload with
  | (.error cause, inbox) => { e with inbox := inbox }.refuse (.decode cause)
  | (.ok _, inbox) => { e with inbox := inbox }.onPdu inbox

end SimplexControl.Endpoint
