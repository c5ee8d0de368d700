import SimplexControl.Endpoint.Basic

/-!
# Sending

Every frame goes out as one packet. In HDLC framing a frame starts at the bit at which the one
before has ended, so the transmitter carries that place along. Messages of the managing client
have an octet that tells their kind and one that tells information from a request.
-/

namespace SimplexControl

/-- The kinds of messages that managing clients exchange. -/
inductive CmeCode
  /-- The list of clients. -/
  | clientList
  /-- The extra capabilities of a client. -/
  | extraCapabilities
deriving DecidableEq, Repr

/-- The octet that stands for a kind of message. -/
def CmeCode.octet : CmeCode → UInt8
  | .clientList => 0x01
  | .extraCapabilities => 0x02

/-- Whether a message of the managing client informs or asks. -/
inductive CmeMode
  /-- It holds information. -/
  | response
  /-- It asks for information. -/
  | command
deriving DecidableEq, Repr

/-- The octet that tells information from a request. -/
def CmeMode.octet : CmeMode → UInt8
  | .response => 0x00
  | .command => 0xFF

/-- The octets that open a message of the managing client. -/
def cmeHead (code : CmeCode) (mode : CmeMode) : Octets := [code.octet, mode.octet]

/-- The bit of an identification that announces extra capabilities. -/
def extraCapabilitiesFlag : UInt8 := 0x80

/-- The largest number of clients that a client list can hold. -/
def largestClientList : Nat := 255

/-- The identification of a client with the announcement of its extra capabilities. -/
def Client.announcement (c : Client) : Octets :=
  c.id.write (if c.hasExtra then extraCapabilitiesFlag else 0)

namespace Registry

/-- The message that lists the clients in their order. -/
def clientListMessage (r : Registry) : Octets :=
  cmeHead .clientList .response ++ UInt8.ofNat r.size ::
    r.entries.flatMap fun e => e.client.announcement

/-- The clients that announce extra capabilities and have some to send, in their order. -/
def extraCapabilities (r : Registry) : List (ClientId × Octets) :=
  (r.entries.filter (·.client.hasExtra)).filterMap fun e => e.client.extra.map (e.id, ·)

end Registry

/-- A PDU of the managing client. -/
def Pdu.ofCme (data : Octets) : Except EncodeError Pdu :=
  let blank := (((Pdu.ofDataSize 0).setHighPriority true).setSegmentFlag .bs true).setSegmentFlag
    .es true
  blank.setData data

/-- The payload of a frame, and the place at which the frame after it starts. -/
def Frame.payload (f : Frame) (framing : Framing) (position : Hdlc.BitPosition) :
    Except EncodeError (Octets × Hdlc.BitPosition) :=
  match framing with
  | .annexQ => f.toAnnexQ.map (·, position)
  | .hdlc => f.toHdlcFrom position

namespace Endpoint

/-- Sends a frame in a packet of its own. -/
def transmit (e : Endpoint) (f : Frame) : Reaction :=
  match e.transmitter with
  | none => e.refuse .transmitDisabled
  | some t =>
    match f.payload e.config.framing t.position with
    | .error cause => e.refuse (.encode cause)
    | .ok (payload, position) =>
      ⟨.ok (), { e with transmitter := some { t with position := position } },
        [⟨t.emitter, payload, true⟩], []⟩

/-- Sends a message of the managing client. -/
def transmitCme (e : Endpoint) (data : Octets) : Reaction :=
  match Pdu.ofCme data with
  | .error cause => e.refuse (.encode cause)
  | .ok pdu => e.transmit pdu.frame

/-- Sends the list of all clients. -/
def sendClientList (e : Endpoint) : Reaction :=
  if e.transmitter.isNone then e.refuse .transmitDisabled
  else if largestClientList < e.registry.size then
    e.refuse (.dataTooLarge e.registry.size largestClientList)
  else e.transmitCme e.registry.clientListMessage

/-- Sends octets as the extra capabilities of a client. -/
def sendExtraCapabilitiesOf (e : Endpoint) (id : ClientId) (octets : Octets) : Reaction :=
  match e.registry.find? id with
  | none => e.refuse (.notRegistered id)
  | some entry =>
    let data := cmeHead .extraCapabilities .response ++ entry.client.announcement ++ octets
    if e.config.maxData < data.length then
      e.refuse (.dataTooLarge data.length e.config.maxData)
    else e.transmitCme data

/-- Sends the extra capabilities of every client that has some. -/
def sendExtraCapabilities (e : Endpoint) : Reaction :=
  e.doAll (e.registry.extraCapabilities.map fun (id, octets) e =>
    e.sendExtraCapabilitiesOf id octets)

/-- Asks the remote side for its client list. -/
def requestClientList (e : Endpoint) : Reaction :=
  e.transmitCme (cmeHead .clientList .command)

/-- Asks the remote side for the extra capabilities of a client. -/
def requestExtraCapabilities (e : Endpoint) (id : ClientId) : Reaction :=
  match e.registry.find? id with
  | none => e.refuse (.notRegistered id)
  | some entry =>
    e.transmitCme (cmeHead .extraCapabilities .command ++ entry.client.announcement)

/-- Sends a PDU for a registered client. -/
def sendPdu (e : Endpoint) (id : ClientId) (pdu : Pdu) : Reaction :=
  if !e.registry.contains id then e.refuse (.notRegistered id)
  else if e.config.maxData < pdu.dataSize then
    e.refuse (.dataTooLarge pdu.dataSize e.config.maxData)
  else e.transmit pdu.frame

/-- Starts transmission, unless it is running, and announces the clients: first their list, then
their extra capabilities. A failed announcement does not end the transmission. -/
def startTransmit (e : Endpoint) (emitter : Nat) : Reaction :=
  if e.transmitter.isSome then e.done
  else ({ e with transmitter := some ⟨emitter, Hdlc.octetAligned⟩ }).sendClientList.andThen
    sendExtraCapabilities

/-- Stops transmission. -/
def stopTransmit (e : Endpoint) : Reaction := { e with transmitter := none }.done

end Endpoint

end SimplexControl
