import SimplexControl.Proofs.ClientId.Codec

/-!
# Identifications one after another

Identifications that are written one after another are read one after another, and in no other way:
each announces its own size, none takes no octet, and nothing that is cut off is read.
-/

namespace SimplexControl.ClientId

/-- Reading one identification after another from some octets gives these and leaves the rest. -/
inductive ReadInTurn : Octets → List Parsed → Octets → Prop
  | nil (data : Octets) : ReadInTurn data [] data
  | cons {data rest : Octets} {p : Parsed} {ps : List Parsed} (first : parse? data = some p)
      (later : ReadInTurn (data.drop p.size) ps rest) : ReadInTurn data (p :: ps) rest

namespace ReadInTurn

variable {data rest rest' : Octets} {ps qs : List Parsed}

/-- Each identification takes an octet at least. -/
theorem length_add_le (h : ReadInTurn data ps rest) : rest.length + ps.length ≤ data.length := by
  induction h with
  | nil data => exact Nat.le_refl _
  | cons first _ ih =>
    have some := size_pos_of_parse? first
    have inside := size_le_of_parse? first
    rw [List.length_drop] at ih
    rw [List.length_cons]
    omega

/-- Who reads on has read the same before. -/
theorem exists_append (h : ReadInTurn data ps rest) (other : ReadInTurn data qs rest')
    (fewer : ps.length ≤ qs.length) : ∃ more, qs = ps ++ more ∧ ReadInTurn rest more rest' := by
  induction h generalizing qs with
  | nil data => exact ⟨qs, rfl, other⟩
  | cons first _ ih =>
    cases other with
    | nil => exact absurd fewer (Nat.not_succ_le_zero _)
    | cons first' later' =>
      rw [first] at first'
      obtain rfl := Option.some.inj first'
      obtain ⟨more, rfl, onward⟩ := ih later' (Nat.le_of_succ_le_succ fewer)
      exact ⟨more, rfl, onward⟩

/-- What is left determines what has been read. -/
theorem unique (h : ReadInTurn data ps rest) (other : ReadInTurn data qs rest) : ps = qs := by
  have none {more : List Parsed} (onward : ReadInTurn rest more rest) : more = [] := by
    have size := onward.length_add_le
    exact List.eq_nil_of_length_eq_zero (by omega)
  rcases Nat.le_total ps.length qs.length with fewer | fewer
  · obtain ⟨more, rfl, onward⟩ := h.exists_append other fewer
    rw [none onward, List.append_nil]
  · obtain ⟨more, rfl, onward⟩ := other.exists_append h fewer
    rw [none onward, List.append_nil]

/-- Octets behind the rest are left with it. -/
theorem append (h : ReadInTurn data ps rest) (behind : Octets) :
    ReadInTurn (data ++ behind) ps (rest ++ behind) := by
  induction h with
  | nil data => exact .nil _
  | cons first _ ih =>
    refine .cons (parse?_append first behind) ?_
    rwa [List.drop_append_of_le_length (size_le_of_parse? first)]

end ReadInTurn

/-- At most `count` identifications are read, and fewer only where the next one is not whole. -/
def ReadUpTo (count : Nat) (data : Octets) (ps : List Parsed) : Prop :=
  ∃ rest, ReadInTurn data ps rest ∧ ps.length ≤ count ∧ (ps.length < count → parse? rest = none)

namespace ReadUpTo

variable {count : Nat} {data : Octets} {ps qs : List Parsed}

theorem eq_of_length_le (h : ReadUpTo count data ps) (other : ReadUpTo count data qs)
    (fewer : ps.length ≤ qs.length) : ps = qs := by
  obtain ⟨rest, read, _, ended⟩ := h
  obtain ⟨rest', read', few, _⟩ := other
  obtain ⟨more, rfl, onward⟩ := read.exists_append read' fewer
  cases onward with
  | nil => exact (List.append_nil ps).symm
  | cons first _ =>
    rw [List.length_append, List.length_cons] at few
    rw [ended (by omega)] at first
    cases first

theorem unique (h : ReadUpTo count data ps) (other : ReadUpTo count data qs) : ps = qs := by
  rcases Nat.le_total ps.length qs.length with fewer | fewer
  · exact h.eq_of_length_le other fewer
  · exact (other.eq_of_length_le h fewer).symm

/-- Octets behind the last of all identifications make no difference. -/
theorem append (h : ReadUpTo count data ps) (all : ps.length = count) (surplus : Octets) :
    ReadUpTo count (data ++ surplus) ps := by
  obtain ⟨rest, read, few, _⟩ := h
  exact ⟨rest ++ surplus, read.append surplus, few, fun short => absurd all (Nat.ne_of_lt short)⟩

end ReadUpTo

/-! ## Writing one after another -/

/-- Puts identifications with their flags at the end of a buffer, one after another. -/
def writeAll (ids : List (ClientId × UInt8)) (buffer : Octets) : Octets :=
  ids.foldl (fun buffer c => c.1.writeTo buffer c.2) buffer

/-- What is read of an identification that is written with some flags. -/
def asRead (c : ClientId × UInt8) : Parsed := ⟨c.1, c.2 &&& highBit ≠ 0, c.1.size⟩

theorem writeAll_eq (ids : List (ClientId × UInt8)) : ∀ buffer : Octets,
    writeAll ids buffer = buffer ++ ids.flatMap fun c => c.1.write c.2 := by
  induction ids with
  | nil => exact fun buffer => (List.append_nil buffer).symm
  | cons c ids ih =>
    intro buffer
    have written : writeAll (c :: ids) buffer = writeAll ids (c.1.writeTo buffer c.2) := rfl
    rw [written, ih, writeTo_eq, List.flatMap_cons, List.append_assoc]

theorem readInTurn_flatMap_write {ids : List (ClientId × UInt8)} (valid : ∀ c ∈ ids, c.1.isValid)
    (rest : Octets) :
    ReadInTurn ((ids.flatMap fun c => c.1.write c.2) ++ rest) (ids.map asRead) rest := by
  induction ids with
  | nil => exact .nil rest
  | cons c ids ih =>
    have first : c.1.isValid := valid c List.mem_cons_self
    have later := ih fun c present => valid c (List.mem_cons_of_mem _ present)
    rw [List.flatMap_cons, List.append_assoc, List.map_cons]
    refine .cons (parse?_write_append first c.2 _) ?_
    show ReadInTurn (List.drop c.1.size _) _ _
    rwa [drop_write_append first]

/-- A valid identification is written behind what is there, in as many octets as it announces, and
is read back whatever follows, but not when any of its octets is missing. The other way round, what
is read is a valid identification, and it is written as the octets from which it was read. So
identifications one after another are read back one by one, and in no other way. -/
theorem write_read_uniquely :
    (∀ (id : ClientId) (flags : UInt8) (buffer rest : Octets), id.isValid → ∃ written,
      id.writeTo buffer flags = buffer ++ written ∧ written.length = id.size ∧
        parse? (written ++ rest) = some ⟨id, flags &&& highBit ≠ 0, id.size⟩ ∧
        ∀ n < id.size, parse? (written.take n) = none) ∧
      (∀ (data : Octets) (p : Parsed), parse? data = some p →
        p.size ≤ data.length ∧ p.id.isValid ∧ p.size = p.id.size ∧
          ∀ buffer, p.id.writeTo buffer (if p.high then highBit else 0) =
            buffer ++ data.take p.size) ∧
      ∀ (ids : List (ClientId × UInt8)) (buffer rest : Octets), (∀ c ∈ ids, c.1.isValid) →
        ∃ written, writeAll ids buffer = buffer ++ written ∧ ∀ ps,
          ReadInTurn (written ++ rest) ps rest ↔ ps = ids.map asRead := by
  refine ⟨fun id flags buffer rest valid => ?_, fun data p read => ?_,
    fun ids buffer rest valid => ?_⟩
  · exact ⟨id.write flags, id.writeTo_eq buffer flags, length_write valid flags,
      parse?_write_append valid flags rest, fun _ => parse?_take_write valid flags⟩
  · obtain ⟨valid, size, _⟩ := parse?_eq_some_iff.mp read
    refine ⟨size_le_of_parse? read, valid, size, fun buffer => ?_⟩
    rw [take_of_parse? read]
    exact p.id.writeTo_eq buffer (mark p.high)
  · have read := readInTurn_flatMap_write valid rest
    refine ⟨_, writeAll_eq ids buffer, fun ps => ⟨fun other => other.unique read, ?_⟩⟩
    rintro rfl
    exact read

/-- An extended identification with flags and a manufacturer's without any, behind the head of a
client list; the second octet of the first one is a marker too. -/
theorem write_read_uniquely_marker_inside :
    let ids : List (ClientId × UInt8) := [(.extended 0x7F, 0x80), (.nonStandard ⟨1, 2, 3, 4⟩, 0)]
    let line : Octets := [0xFE, 0x7F, 0x7F, 1, 2, 0, 3, 4]
    (∀ c ∈ ids, c.1.isValid) ∧ writeAll ids [0x01, 0x00, 2] = [0x01, 0x00, 2] ++ line ∧
      parse? line = some ⟨.extended 0x7F, true, 2⟩ ∧ parse? (line.take 1) = none ∧
      (ClientId.nonStandard ⟨1, 2, 3, 4⟩).writeTo [] 0 = line.drop 2 ∧
      ReadInTurn line [⟨.extended 0x7F, true, 2⟩, ⟨.nonStandard ⟨1, 2, 3, 4⟩, false, 6⟩] [] := by
  intro ids line
  have valid : ∀ c ∈ ids, c.1.isValid := by decide
  obtain ⟨single, backwards, several⟩ := write_read_uniquely
  obtain ⟨written, all, read⟩ := several ids [0x01, 0x00, 2] [] valid
  obtain rfl : written = line := by
    have same : writeAll ids [0x01, 0x00, 2] = [0x01, 0x00, 2] ++ line := by decide
    exact List.append_cancel_left (all.symm.trans same)
  obtain ⟨first, alone, _, whole, cut⟩ := single (.extended 0x7F) 0x80 [] (line.drop 2) rfl
  obtain rfl : first = [0xFE, 0x7F] := alone.symm
  obtain ⟨_, _, _, again⟩ :=
    backwards (line.drop 2) ⟨.nonStandard ⟨1, 2, 3, 4⟩, false, 6⟩ (by decide)
  refine ⟨valid, all, whole, cut 1 (by decide), again [], ?_⟩
  exact (read _).mpr (by decide)

end SimplexControl.ClientId
