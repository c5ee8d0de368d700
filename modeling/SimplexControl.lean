import SimplexControl.Endpoint.Operation
import SimplexControl.Frame.Edit
import SimplexControl.Pdu.Edit
import SimplexControl.Registry.Operation
import SimplexControl.Proofs.Octets
import SimplexControl.Proofs.Fcs
import SimplexControl.Proofs.Hdlc.Writing
import SimplexControl.Proofs.Hdlc.Verdict
import SimplexControl.Proofs.Hdlc.Collecting
import SimplexControl.Proofs.Hdlc.Hunting
import SimplexControl.Proofs.Hdlc.Receiving
import SimplexControl.Proofs.Hdlc.RoundTrip
import SimplexControl.Proofs.Hdlc.SizeBound
import SimplexControl.Proofs.Hdlc.Extent
import SimplexControl.Proofs.Hdlc.Packing
import SimplexControl.Proofs.Hdlc.Transparency
import SimplexControl.Proofs.Hdlc.Reached
import SimplexControl.Proofs.Hdlc.Synchronisation
import SimplexControl.Proofs.Hdlc.Segments
import SimplexControl.Proofs.Hdlc.Detection
import SimplexControl.Proofs.Hdlc.Provenance
import SimplexControl.Proofs.Hdlc.FirstItem
import SimplexControl.Proofs.Hdlc.Arithmetic
import SimplexControl.Proofs.Hdlc.Bounds
import SimplexControl.Proofs.Frame.AnnexQ
import SimplexControl.Proofs.Frame.Buffer
import SimplexControl.Proofs.Frame.Sizing
import SimplexControl.Proofs.Framing
import SimplexControl.Proofs.ClientId.Codec
import SimplexControl.Proofs.ClientId.Listing
import SimplexControl.Proofs.ClientId.Order
import SimplexControl.Proofs.Pdu.Header
import SimplexControl.Proofs.Pdu.WellFormed
import SimplexControl.Proofs.Pdu.Building
import SimplexControl.Proofs.Pdu.Managing
import SimplexControl.Proofs.Pdu.Layout
import SimplexControl.Proofs.Pdu.Fields
import SimplexControl.Proofs.Pdu.Absent
import SimplexControl.Proofs.Pdu.Buffer
import SimplexControl.Proofs.Pdu.Filling
import SimplexControl.Proofs.Pdu.Renaming
import SimplexControl.Proofs.Registry
import SimplexControl.Proofs.Registry.FiniteMap
import SimplexControl.Proofs.Endpoint.Sending
import SimplexControl.Proofs.Endpoint.Composition
import SimplexControl.Proofs.Endpoint.Listening
import SimplexControl.Proofs.Endpoint.Reachable
import SimplexControl.Proofs.Endpoint.Delivery
import SimplexControl.Proofs.Endpoint.Agreement
import SimplexControl.Proofs.Endpoint.Announcing
import SimplexControl.Proofs.Endpoint.Counterparts
import SimplexControl.Proofs.Endpoint.Emission
import SimplexControl.Proofs.Endpoint.Chaining
import SimplexControl.Proofs.Endpoint.Chunks
import SimplexControl.Proofs.Endpoint.Impersonation
import SimplexControl.Proofs.Endpoint.Discipline
import SimplexControl.Proofs.Endpoint.Starting
import SimplexControl.Proofs.Endpoint.Refusals
import SimplexControl.Proofs.Endpoint.Isolation
import SimplexControl.Proofs.Endpoint.Room
import SimplexControl.Proofs.Endpoint.Reports
import SimplexControl.Proofs.Endpoint.Replies
import SimplexControl.Proofs.Endpoint.ClientLists
import SimplexControl.Proofs.Endpoint.ListedOrder
import SimplexControl.Proofs.Endpoint.Stopped
