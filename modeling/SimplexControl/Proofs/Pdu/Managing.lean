import SimplexControl.Endpoint.Transmission
import SimplexControl.Proofs.Pdu.WellFormed

/-!
# Messages of the managing client

A message of the managing client always gets the same header in front of it, so its PDU is known
in full once it is known that the message is not too long.
-/

namespace SimplexControl.Pdu

/-- The header of a message of the managing client: from and to every terminal, in one segment. -/
def cmeHeader : Octets := [0, 0, 0, 0, 0, 0xC0]

/-- The PDU of a message of the managing client. -/
def cme (message : Octets) : Pdu :=
  ⟨⟨highAddress, highPriorityAddress, unnumberedInformation, cmeHeader ++ message,
    Frame.largestInfo⟩⟩

variable {message : Octets}

theorem length_info_cme (message : Octets) :
    (cme message).frame.info.length = cmeHeader.length + message.length := List.length_append

theorem maxInfo_cme (message : Octets) : (cme message).frame.maxInfo = Frame.largestInfo := rfl

theorem octetAt_cme {offset : Nat} (inside : offset < cmeHeader.length) :
    (cme message).octetAt offset = Octets.octetAt cmeHeader offset :=
  Octets.octetAt_append_left inside

theorem rawClient_cme (message : Octets) : (cme message).rawClient = 0 := by
  rw [rawClient, octetAt_cme (by decide)]
  decide

theorem headerSize_cme (message : Octets) : (cme message).headerSize = cmeHeader.length := by
  rw [headerSize, rawClient_cme]
  decide

theorem destination_cme (message : Octets) : (cme message).destination = broadcast := by
  have first : (cme message).octetAt 0 = 0 := octetAt_cme (by decide)
  have second : (cme message).octetAt 1 = 0 := octetAt_cme (by decide)
  show ((cme message).octetAt 0).toUInt16 <<< 8 ||| ((cme message).octetAt 1).toUInt16 = broadcast
  rw [first, second]
  decide

theorem client_cme (message : Octets) : (cme message).client = .cme := by
  have notExtended : (0 : UInt8) ≠ ClientId.extendedMarker := by decide
  have notNonStandard : (0 : UInt8) ≠ ClientId.nonStandardMarker := by decide
  rw [client, rawClient_cme, if_neg notExtended, if_neg notNonStandard]
  rfl

theorem data_cme (message : Octets) : (cme message).data = message := by
  rw [data, headerSize_cme]
  exact List.drop_left

theorem wellFormed_cme (message : Octets) : (cme message).WellFormed := by
  refine ⟨rfl, .inr rfl, rfl, ?_⟩
  rw [headerSize_cme, length_info_cme]
  exact Nat.le_add_right _ _

theorem ofCme_eq_ok_iff {p : Pdu} :
    ofCme message = .ok p ↔
      p = cme message ∧ (cme message).frame.info.length ≤ Frame.largestInfo := by
  have blank : (((ofDataSize 0).setHighPriority true).setSegmentFlag .bs true).setSegmentFlag
      .es true = cme [] := by decide
  have header : (cme []).frame.info.resize cmeHeader.length = cmeHeader := by decide
  have representable : (cme []).Representable message.length :=
    representable_of_maxInfo (by rw [maxInfo_cme]; decide) message.length
  rw [ofCme, blank, setData_eq_ok_iff representable, headerSize_cme, header, maxInfo_cme,
    length_info_cme]
  constructor
  · rintro ⟨small, rfl⟩
    exact ⟨rfl, small⟩
  · rintro ⟨rfl, small⟩
    exact ⟨small, rfl⟩

end SimplexControl.Pdu
