import SimplexControl.Proofs.Pdu.Buffer
import SimplexControl.Proofs.Pdu.Fields

/-!
# Giving a PDU its data

The header is what lies in front of the client data, also where it is cut short and reads as if
zeros followed. Data are given as a whole or not at all, and either way the header is as before.
-/

namespace SimplexControl.Pdu

variable {p q : Pdu}

/-- Every accessor of the header gives the same. -/
structure SameHeader (q p : Pdu) : Prop where
  frame : { q.frame with info := p.frame.info } = p.frame
  field (f : Field) : q.field f = p.field f
  rawClient : q.rawClient = p.rawClient
  client : q.client = p.client
  headerSize : q.headerSize = p.headerSize

/-! ## The octets of the header -/

theorem six_le_headerSize (p : Pdu) : 6 ≤ p.headerSize := shortestHeader_le p.rawClient

section Header

variable (same : ∀ i < p.headerSize, q.octetAt i = p.octetAt i)
include same

theorem wordAt_of_octets {i : Nat} (inside : i + 1 < p.headerSize) : q.wordAt i = p.wordAt i :=
  wordAt_congr (same i (Nat.lt_of_succ_lt inside)) (same (i + 1) inside)

theorem rawClient_of_octets : q.rawClient = p.rawClient := by
  rw [rawClient, same clientOffset (clientOffset_lt_headerSize p), ← rawClient]

theorem segmentOctet_of_octets : q.segmentOctet = p.segmentOctet := by
  rw [segmentOctet, rawClient_of_octets same, same _ (Nat.lt_succ_self _), ← segmentOctet]

theorem extendedId_of_octets : q.extendedId = p.extendedId := by
  rw [extendedId, extendedId, rawClient_of_octets same]
  split
  · next extended =>
    have seven : p.headerSize = 7 := by rw [headerSize, extended]; rfl
    exact same _ (by rw [seven]; decide)
  · rfl

theorem nonStandardId_of_octets : q.nonStandardId = p.nonStandardId := by
  rw [nonStandardId, nonStandardId, rawClient_of_octets same]
  split
  · next nonStandard =>
    have eleven : p.headerSize = 11 := by rw [headerSize, nonStandard]; rfl
    rw [same, same, wordAt_of_octets same, same] <;> rw [eleven] <;> decide
  · rfl

theorem client_of_octets : q.client = p.client := by
  rw [client, client, rawClient_of_octets same, extendedId_of_octets same,
    nonStandardId_of_octets same]

/-- The header is read from the octets in front of the client data alone. -/
theorem sameHeader_of_octets (frame : { q.frame with info := p.frame.info } = p.frame) :
    q.SameHeader p := by
  have six := six_le_headerSize p
  have rawClient := rawClient_of_octets same
  have segmentOctet := segmentOctet_of_octets same
  have low : q.frame.low = p.frame.low := congrArg (·.low) frame
  refine ⟨frame, fun f => ?_, rawClient, client_of_octets same, ?_⟩
  · cases f with
    | highPriority => exact congrArg (fun o => decide (o = highPriorityAddress)) low
    | destination => exact wordAt_of_octets same (Nat.lt_of_lt_of_le (by decide) six)
    | source => exact wordAt_of_octets same (Nat.lt_of_lt_of_le (by decide) six)
    | segmentFlag flag => exact congrArg (fun o => decide (o &&& flag.mask ≠ 0)) segmentOctet
    | segmentNumber => exact congrArg (· &&& segmentNumberMask) segmentOctet
    | extendedId => exact extendedId_of_octets same
    | nonStandardId => exact nonStandardId_of_octets same
  · rw [headerSize, rawClient, ← headerSize]

end Header

/-! ## New data -/

/-- Data behind the header, which is filled up if it was cut short. -/
theorem sameHeader_of_setData {octets : Octets} (representable : p.Representable octets.length)
    (made : p.setData octets = .ok q) : q.SameHeader p := by
  obtain ⟨_, rfl⟩ := (setData_eq_ok_iff representable).mp made
  refine sameHeader_of_octets (fun i inside => ?_) rfl
  have kept : i < (p.frame.info.resize p.headerSize).length := by
    rwa [Octets.length_resize]
  exact (Octets.octetAt_append_left kept).trans (Octets.octetAt_resize inside)

theorem data_of_setData {octets : Octets} (representable : p.Representable octets.length)
    (made : p.setData octets = .ok q) : q.data = octets := by
  have header := (sameHeader_of_setData representable made).headerSize
  obtain ⟨_, rfl⟩ := (setData_eq_ok_iff representable).mp made
  rw [data, header]
  exact List.drop_left' (Octets.length_resize _ _)

/-- Whatever a PDU holds, the area that is made for its data has their size. The data are refused
exactly if header and data together exceed the maximum, and then nothing has changed; else they
are the client data and every accessor of the header gives what it gave before. In the buffer of
the frame the call comes to the same. The size is one that can be counted together with both
headers, as that of all octets in memory can (`representable_of_lt_half`). -/
theorem setData_all_or_nothing (octets : Octets) (representable : p.Representable octets.length) :
    (∀ room, p.setDataSize octets.length = .ok room → room.data.length = octets.length) ∧
      ((∃ cause, p.setData octets = .error cause) ↔
        p.frame.maxInfo < p.headerSize + octets.length) ∧
      (∀ cause, p.setData octets = .error cause → p.after (.data octets) = p) ∧
      (∀ q, p.setData octets = .ok q → q.data = octets ∧ q.SameHeader p) ∧
      p.frame.buffer.setData octets =
        some ((p.setData octets).map fun _ => (), (p.after (.data octets)).frame.buffer) := by
  refine ⟨?_, ?_, ?_, ?_, setData_buffer representable⟩
  · intro room made
    rw [data, List.length_drop, ← dataSize, dataSize_of_setDataSize representable made]
  · constructor
    · rintro ⟨cause, refused⟩
      refine Nat.lt_of_not_le fun enough => ?_
      have made := (setData_eq_ok_iff representable).mpr ⟨enough, rfl⟩
      rw [refused] at made
      cases made
    · intro large
      cases given : p.setData octets with
      | error cause => exact ⟨cause, rfl⟩
      | ok q =>
        exact absurd ((setData_eq_ok_iff representable).mp given).1 (Nat.not_le.mpr large)
  · intro cause refused
    rw [after, edit, refused]
    rfl
  · intro q made
    exact ⟨data_of_setData representable made, sameHeader_of_setData representable made⟩

/-- A manufacturer's client of which only the first octet has come in a refused frame: two octets
of data fit behind the filled header, three do not. -/
theorem setData_all_or_nothing_cut_header :
    let p : Pdu := ((⟨⟨0, 0, 0, [], 13⟩⟩ : Pdu).decode .annexQ
      [0x00, 0x08, 0x00, 0x61, 0x03, 0x12, 0x34, 0xAB, 0xCD, 0x7F]).2
    p.frame.info = [0x12, 0x34, 0xAB, 0xCD, 0x7F] ∧
      p.Representable 2 ∧ p.Representable 3 ∧
      (∃ q, p.setData [8, 9] = .ok q ∧ q.data = [8, 9] ∧ q.SameHeader p ∧
        q.frame.info = [0x12, 0x34, 0xAB, 0xCD, 0x7F, 0, 0, 0, 0, 0, 0, 8, 9]) ∧
      (∃ cause, p.setData [7, 8, 9] = .error cause) ∧ p.after (.data [7, 8, 9]) = p ∧
      ∃ cause, p.frame.buffer.setData [7, 8, 9] = some (.error cause, p.frame.buffer) := by
  intro p
  have made : p.setData [8, 9] = .ok ⟨⟨0x00, 0x61, 0x03,
      [0x12, 0x34, 0xAB, 0xCD, 0x7F, 0, 0, 0, 0, 0, 0, 8, 9], 13⟩⟩ := by decide
  have two : p.Representable 2 := representable_of_lt_half (by decide)
  have three : p.Representable 3 := representable_of_lt_half (by decide)
  obtain ⟨_, _, _, given, _⟩ := setData_all_or_nothing [8, 9] two
  obtain ⟨_, refused_iff, unchanged, _, inBuffer⟩ := setData_all_or_nothing [7, 8, 9] three
  obtain ⟨cause, refused⟩ := refused_iff.mpr (by decide)
  obtain ⟨data, header⟩ := given _ made
  have same := unchanged cause refused
  rw [same, refused] at inBuffer
  exact ⟨by decide, two, three, ⟨_, made, data, header, rfl⟩, ⟨cause, refused⟩, same, cause,
    inBuffer⟩

end SimplexControl.Pdu
