import SimplexControl.Proofs.ClientId.Order
import SimplexControl.Proofs.Endpoint.Announcing

/-!
# The order of a client list

A registry lists its clients in the order of their identifications. These are valid, so the lines of
the list are in the order of their octets, as long as the bit that announces extra capabilities is
left out of the comparison.
-/

namespace SimplexControl

namespace ClientId

/-- The octets of an identification without the bit that is no part of it. -/
def withoutFlag : Octets → Octets
  | [] => []
  | first :: rest => (first &&& idMask) :: rest

theorem withoutFlag_write (id : ClientId) (flags : UInt8) :
    withoutFlag (id.write flags) = id.write 0 := by
  rw [write_zero, write, withoutFlag, mark_and_idMask]

end ClientId

/-- A line of a client list is the identification of the client in full, with the bit that
announces extra capabilities. -/
def Client.LineOf (c : Client) (line : Octets) : Prop :=
  ClientId.parse? line = some ⟨c.id, c.hasExtra, line.length⟩

theorem Client.lineOf_announcement {c : Client} (valid : c.id.isValid) :
    c.LineOf c.announcement := by
  have read := ClientId.parse?_write_append valid
    (if c.hasExtra then extraCapabilitiesFlag else 0) []
  rw [List.append_nil, c.announced] at read
  rw [LineOf, announcement, read, ClientId.length_write valid]

namespace Registry

variable {r : Registry}

/-- The lines of the client list. -/
def lines (r : Registry) : List Octets := r.entries.map (·.client.announcement)

theorem length_lines (r : Registry) : r.lines.length = r.size := List.length_map _

theorem clientListMessage_eq_lines (r : Registry) :
    r.clientListMessage =
      cmeHead .clientList .response ++ UInt8.ofNat r.lines.length :: r.lines.flatten := by
  rw [clientListMessage, length_lines, lines, List.flatMap_def]

theorem map_withoutFlag_lines (r : Registry) :
    r.lines.map ClientId.withoutFlag = r.ids.map (·.write 0) := by
  rw [lines, ids, List.map_map, List.map_map]
  exact List.map_congr_left fun e _ => e.client.id.withoutFlag_write _

theorem Sound.lines_of_entries (h : r.Sound) :
    List.Forall₂ (fun line e => e.client.LineOf line) r.lines r.entries := by
  rw [lines, List.forall₂_map_left_iff, List.forall₂_same]
  exact fun e present => Client.lineOf_announcement (h.valid (List.mem_map_of_mem present))

theorem Sound.lines_ordered (h : r.Sound) :
    (r.lines.map ClientId.withoutFlag).Pairwise (· < ·) := by
  rw [map_withoutFlag_lines, List.pairwise_map]
  exact h.ordered.imp_of_mem fun first second less =>
    ClientId.write_lt_of_lt (h.valid first) (h.valid second) less

end Registry

namespace Endpoint

/-- Valid identifications compare as their octets do, and only equal ones are equal in this order.
So the client list that goes out for the clients of an endpoint, whatever has been done to it, has
one line for each, and these strictly increase when the bit that announces extra capabilities is
cleared. -/
theorem clientList_in_octet_order :
    (∀ a b : ClientId, a.isValid → b.isValid →
      a.compare b = compareOfLessAndEq (a.write 0) (b.write 0) ∧
        (a.compare b = .eq ↔ a = b)) ∧
      ∀ e : Endpoint, Reachable e → ∃ lines : List Octets,
        e.registry.clientListMessage =
            cmeHead .clientList .response ++ UInt8.ofNat lines.length :: lines.flatten ∧
          List.Forall₂ (fun line entry => entry.client.LineOf line) lines e.registry.entries ∧
          (lines.map ClientId.withoutFlag).Pairwise (· < ·) ∧
          ∀ sender : Endpoint, sender.registry = e.registry →
            sender.sendClientList.result = .ok () → lines.length ≤ largestClientList ∧
              ∃ payload, sender.sendClientList.packets.map Packet.payload = [payload] ∧
                (Pdu.cme e.registry.clientListMessage).ReadFrom sender.config.framing payload := by
  constructor
  · intro a b valid_a valid_b
    exact ⟨ClientId.compare_eq_compare_write valid_a valid_b, ClientId.compare_eq_eq_iff⟩
  · intro e reached
    have sound := reached.sound.registry
    refine ⟨e.registry.lines, e.registry.clientListMessage_eq_lines, sound.lines_of_entries,
      sound.lines_ordered, ?_⟩
    intro sender same done
    have sent := sendClientList_of_ok done
    rw [same] at sent
    rwa [Registry.length_lines]

/-- A client of each kind, registered in another order, two of them with extra capabilities. -/
theorem clientList_in_octet_order_each_kind :
    let e := (new ⟨.annexQ, 254⟩).after
      [.addClient ⟨.nonStandard ⟨0xB5, 0, 0x0100, 7⟩, 0, true, none⟩,
        .addClient (.plain (.extended 9) 1), .addClient ⟨.cameraControl, 2, true, none⟩,
        .startTransmit 0]
    let message : Octets := [0x01, 0x00, 3, 0x81, 0x7E, 9, 0xFF, 0xB5, 0x00, 0x01, 0x00, 7]
    ClientId.cameraControl.compare (.extended 9) =
        compareOfLessAndEq (ClientId.cameraControl.write 0) ((ClientId.extended 9).write 0) ∧
      (∃ lines : List Octets, lines.length = 3 ∧ message = [0x01, 0x00, 3] ++ lines.flatten ∧
        (lines.map ClientId.withoutFlag).Pairwise (· < ·)) ∧
      ∃ payload, e.sendClientList.packets.map Packet.payload = [payload] ∧
        (Pdu.cme message).ReadFrom .annexQ payload := by
  intro e message
  have reached : Reachable e := Reachable.after (.new _)
  have done : e.sendClientList.result = .ok () := by decide
  have listed : e.registry.clientListMessage = message := by decide
  obtain ⟨comparison, order⟩ := clientList_in_octet_order
  obtain ⟨lines, made, each, ordered, sent⟩ := order e reached
  have three : lines.length = 3 := each.length_eq
  obtain ⟨_, payload, packets, read⟩ := sent e rfl done
  rw [listed] at made read
  rw [three] at made
  exact ⟨(comparison _ _ rfl rfl).1, ⟨lines, three, made, ordered⟩, payload, packets, read⟩

end Endpoint

end SimplexControl
