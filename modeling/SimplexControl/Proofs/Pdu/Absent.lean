import SimplexControl.Proofs.Pdu.Fields

/-!
# Fields that are not all there

The information field is shorter than the header after a frame has been refused for that, and where
the maximum of a frame has no room for a longer identification. What lies behind the end reads as
zero and cannot be set. But this goes octet by octet: of a field that the end cuts in two, the
octets in front of it are read and written all the same.
-/

namespace SimplexControl.Pdu

variable {p : Pdu}

/-! ## Where the fields are -/

namespace Field

instance (raw : UInt8) (f : Field) : Decidable (f.Under raw) :=
  match f with
  | .extendedId => inferInstanceAs (Decidable (raw = ClientId.extendedMarker))
  | .nonStandardId => inferInstanceAs (Decidable (raw = ClientId.nonStandardMarker))
  | .highPriority | .destination | .source | .segmentFlag _ | .segmentNumber =>
    inferInstanceAs (Decidable True)

/-- Where a field begins in the information field. The priority is not in it. -/
def offset (raw : UInt8) : Field → Nat
  | .highPriority => 0
  | .destination => destinationOffset
  | .source => sourceOffset
  | .extendedId => clientOffset + 1
  | .nonStandardId => clientOffset + 1
  | .segmentFlag _ => segmentOffset raw
  | .segmentNumber => segmentOffset raw

/-- How many octets of the information field a field takes. -/
def size : Field → Nat
  | .highPriority => 0
  | .destination => 2
  | .source => 2
  | .nonStandardId => ClientId.nonStandardSize
  | .extendedId => 1
  | .segmentFlag _ => 1
  | .segmentNumber => 1

/-- Only the addresses and a manufacturer's identification are of several octets. -/
theorem one_lt_size_iff {f : Field} :
    1 < f.size ↔ f = .destination ∨ f = .source ∨ f = .nonStandardId := by
  cases f <;> simp [size, ClientId.nonStandardSize]

end Field

/-- What is read from the header on its own. -/
inductive Part
  | destination
  | source
  | rawClient
  | extendedId
  | country
  | countryExtension
  | manufacturer
  | manufacturerClient
  | segmentFlag (flag : SegmentFlag)
  | segmentNumber
deriving DecidableEq, Repr

namespace Part

/-- The field that a part is set with. The seven bits that open the identification are none, and
the parts of a manufacturer's identification are set together. -/
def field? : Part → Option Field
  | .destination => some .destination
  | .source => some .source
  | .rawClient => none
  | .extendedId => some .extendedId
  | .country => some .nonStandardId
  | .countryExtension => some .nonStandardId
  | .manufacturer => some .nonStandardId
  | .manufacturerClient => some .nonStandardId
  | .segmentFlag flag => some (.segmentFlag flag)
  | .segmentNumber => some .segmentNumber

/-- Whether the part is there when the identification opens with these seven bits. -/
def Under (raw : UInt8) (part : Part) : Prop := ∀ f ∈ part.field?, f.Under raw

instance (raw : UInt8) (part : Part) : Decidable (part.Under raw) :=
  inferInstanceAs (Decidable (∀ f ∈ part.field?, f.Under raw))

/-- Where a part begins in the information field. -/
def offset (raw : UInt8) : Part → Nat
  | .destination => destinationOffset
  | .source => sourceOffset
  | .rawClient => clientOffset
  | .extendedId => clientOffset + 1
  | .country => clientOffset + 1
  | .countryExtension => clientOffset + 2
  | .manufacturer => clientOffset + 3
  | .manufacturerClient => clientOffset + 5
  | .segmentFlag _ => segmentOffset raw
  | .segmentNumber => segmentOffset raw

/-- How many octets of the information field a part takes. -/
def size : Part → Nat
  | .destination => 2
  | .source => 2
  | .manufacturer => 2
  | .rawClient => 1
  | .extendedId => 1
  | .country => 1
  | .countryExtension => 1
  | .manufacturerClient => 1
  | .segmentFlag _ => 1
  | .segmentNumber => 1

/-- A part lies inside the field that it is set with. -/
theorem within_field {part : Part} {f : Field} (set : part.field? = some f) (raw : UInt8) :
    f.offset raw ≤ part.offset raw ∧
      part.offset raw + part.size ≤ f.offset raw + f.size := by
  cases part <;> cases set <;> simp [Field.offset, Field.size, offset, size, clientOffset,
    ClientId.nonStandardSize]

end Part

/-- Reads a part as a number, a flag as 0 or 1. -/
def read (p : Pdu) : Part → Nat
  | .destination => p.destination.toNat
  | .source => p.source.toNat
  | .rawClient => p.rawClient.toNat
  | .extendedId => p.extendedId.toNat
  | .country => p.nonStandardId.country.toNat
  | .countryExtension => p.nonStandardId.countryExtension.toNat
  | .manufacturer => p.nonStandardId.manufacturer.toNat
  | .manufacturerClient => p.nonStandardId.client.toNat
  | .segmentFlag flag => (p.segmentFlag flag).toNat
  | .segmentNumber => p.segmentNumber.toNat

/-- The part is there, and all its octets are inside the information field. -/
def Holds (p : Pdu) (part : Part) : Prop :=
  part.Under p.rawClient ∧ part.offset p.rawClient + part.size ≤ p.frame.info.length

instance (p : Pdu) (part : Part) : Decidable (p.Holds part) :=
  inferInstanceAs (Decidable (_ ∧ _))

/-- The information field ends inside a field. -/
def Cuts (p : Pdu) (f : Field) : Prop :=
  f.Under p.rawClient ∧ f.offset p.rawClient < p.frame.info.length ∧
    p.frame.info.length < f.offset p.rawClient + f.size

instance (p : Pdu) (f : Field) : Decidable (p.Cuts f) :=
  inferInstanceAs (Decidable (_ ∧ _ ∧ _))

/-- Only the fields of several octets can be cut. -/
theorem cuts_iff {f : Field} : p.Cuts f ↔
    f = .destination ∧ p.frame.info.length = 1 ∨ f = .source ∧ p.frame.info.length = 3 ∨
      f = .nonStandardId ∧ p.rawClient = ClientId.nonStandardMarker ∧
        6 ≤ p.frame.info.length ∧ p.frame.info.length ≤ 9 := by
  constructor
  · rintro ⟨present, begun, ended⟩
    obtain rfl | rfl | rfl := Field.one_lt_size_iff.mp (by omega : 1 < f.size)
    · exact .inl ⟨rfl, Nat.le_antisymm (Nat.le_of_lt_succ ended) begun⟩
    · exact .inr (.inl ⟨rfl, Nat.le_antisymm (Nat.le_of_lt_succ ended) begun⟩)
    · exact .inr (.inr ⟨rfl, present, begun, Nat.le_of_lt_succ ended⟩)
  · rintro (⟨rfl, one⟩ | ⟨rfl, three⟩ | ⟨rfl, present, begun, ended⟩)
    · exact ⟨trivial, by simp [one, Field.offset, destinationOffset], by simp [one, Field.size]⟩
    · exact ⟨trivial, by simp [three, Field.offset, sourceOffset],
        by simp [three, Field.offset, Field.size, sourceOffset]⟩
    · exact ⟨present, begun, Nat.lt_succ_of_le ended⟩

/-! ## Reading -/

theorem octetAt_of_le {i : Nat} (beyond : p.frame.info.length ≤ i) : p.octetAt i = 0 :=
  Octets.octetAt_of_le beyond

theorem extendedId_of_under (present : Field.extendedId.Under p.rawClient) :
    p.extendedId = p.octetAt (clientOffset + 1) := if_pos present

theorem nonStandardId_of_under (present : Field.nonStandardId.Under p.rawClient) :
    p.nonStandardId = ⟨p.octetAt (clientOffset + 1), p.octetAt (clientOffset + 2),
      p.wordAt (clientOffset + 3), p.octetAt (clientOffset + 5)⟩ := if_pos present

/-- A part that is not all there reads as if zeros followed on the end. -/
theorem read_of_short {part : Part} (present : part.Under p.rawClient)
    (short : p.frame.info.length < part.offset p.rawClient + part.size) :
    p.read part = 256 * (p.octetAt (part.offset p.rawClient)).toNat := by
  have beyond (one : part.size = 1) : p.octetAt (part.offset p.rawClient) = 0 := by
    rw [one] at short
    exact octetAt_of_le (Nat.le_of_lt_succ short)
  have word (two : part.size = 2) : (p.wordAt (part.offset p.rawClient)).toNat =
      256 * (p.octetAt (part.offset p.rawClient)).toNat := by
    rw [two] at short
    exact Octets.toNat_wordAt_of_le (Nat.le_of_lt_succ short)
  cases part with
  | destination | source => exact word rfl
  | manufacturer =>
    rw [read, nonStandardId_of_under (present _ rfl)]
    exact word rfl
  | rawClient =>
    have zero := beyond rfl
    rw [Part.offset] at zero ⊢
    rw [read, rawClient, zero]
    rfl
  | extendedId =>
    have zero := beyond rfl
    rw [Part.offset] at zero ⊢
    rw [read, extendedId_of_under (present _ rfl), zero]
    rfl
  | country | countryExtension | manufacturerClient =>
    have zero := beyond rfl
    rw [Part.offset] at zero ⊢
    rw [read, nonStandardId_of_under (present _ rfl), zero]
    rfl
  | segmentFlag flag =>
    have zero := beyond rfl
    rw [Part.offset] at zero ⊢
    rw [read, segmentFlag, segmentOctet, zero]
    cases flag <;> rfl
  | segmentNumber =>
    have zero := beyond rfl
    rw [Part.offset] at zero ⊢
    rw [read, segmentNumber, segmentOctet, zero]
    rfl

/-- A part of another identification reads as zero. -/
theorem read_of_absent {part : Part} (absent : ¬ part.Under p.rawClient) : p.read part = 0 := by
  obtain ⟨f, set, missing⟩ : ∃ f, part.field? = some f ∧ ¬ f.Under p.rawClient := by
    simpa [Part.Under] using absent
  cases part with
  | rawClient => cases set
  | extendedId =>
    cases set
    have zero : p.extendedId = 0 := if_neg missing
    rw [read, zero]
    rfl
  | country | countryExtension | manufacturer | manufacturerClient =>
    cases set
    have zero : p.nonStandardId = ⟨0, 0, 0, 0⟩ := if_neg missing
    rw [read, zero]
    rfl
  | destination | source | segmentFlag flag | segmentNumber =>
    cases set
    exact absurd trivial missing

/-! ## Writing -/

theorem setOctet_of_le {i : Nat} (beyond : p.frame.info.length ≤ i) (o : UInt8) :
    p.setOctet i o = p := by
  rw [setOctet, List.set_eq_of_length_le beyond]

theorem setWord_of_le {i : Nat} (beyond : p.frame.info.length ≤ i) (w : UInt16) :
    p.setWord i w = p := by
  rw [setWord, Octets.setWord_of_le beyond]

/-- A field that lies behind the end cannot be set. -/
theorem setField_of_le {part : Part} {f : Field} (set : part.field? = some f)
    (beyond : p.frame.info.length ≤ f.offset p.rawClient) (v : f.Value) : p.setField f v = p := by
  cases f with
  | highPriority => cases part <;> cases set
  | destination | source => exact setWord_of_le beyond v
  | segmentFlag flag => exact setOctet_of_le beyond _
  | segmentNumber => exact setOctet_of_le beyond _
  | extendedId =>
    have octet : p.setOctet (clientOffset + 1) v = p := setOctet_of_le beyond v
    show p.setExtendedId v = p
    rw [setExtendedId, octet, ite_self]
  | nonStandardId =>
    have later {n : Nat} (behind : clientOffset + 1 ≤ n) : p.frame.info.length ≤ n :=
      Nat.le_trans beyond behind
    show p.setNonStandardId v = p
    rw [setNonStandardId, setOctet_of_le (later (by decide)), setOctet_of_le (later (by decide)),
      setWord_of_le (later (by decide)), setOctet_of_le (later (by decide)), ite_self]

/-- A field that the identification does not have cannot be set. -/
theorem setField_of_absent {f : Field} (absent : ¬ f.Under p.rawClient) (v : f.Value) :
    p.setField f v = p := by
  cases f with
  | extendedId => exact if_neg absent
  | nonStandardId => exact if_neg absent
  | highPriority | destination | source | segmentFlag flag | segmentNumber =>
    exact absurd trivial absent

/-- What is set of a manufacturer's identification is at least its first octet. -/
theorem octetAt_setNonStandardId (present : Field.nonStandardId.Under p.rawClient)
    (begun : clientOffset + 1 < p.frame.info.length) (id : NonStandardId) :
    (p.setNonStandardId id).octetAt (clientOffset + 1) = id.country := by
  have set : p.setNonStandardId id = (((p.setOctet (clientOffset + 1) id.country).setOctet
      (clientOffset + 2) id.countryExtension).setWord (clientOffset + 3) id.manufacturer).setOctet
      (clientOffset + 5) id.client := if_pos present
  rw [set]
  simp only [setOctet, setWord, octetAt]
  rw [Octets.octetAt_set_ne (by decide), Octets.octetAt_setWord_ne (by decide) (by decide),
    Octets.octetAt_set_ne (by decide), Octets.octetAt_set_self begun]

theorem octets_ne_of_octetAt {q : Pdu} {i : Nat} (different : q.octetAt i ≠ p.octetAt i) :
    q.frame.octets ≠ p.frame.octets := by
  intro same
  have info : q.frame.info = p.frame.info := congrArg (List.drop 3) same
  exact different (congrArg (Octets.octetAt · i) info)

/-- What is there of a field that is cut can be set. -/
theorem exists_setField_ne {f : Field} (cut : p.Cuts f) :
    ∃ v, (p.setField f v).frame.octets ≠ p.frame.octets := by
  have several := cuts_iff.mp cut
  obtain ⟨present, begun, _⟩ := cut
  obtain ⟨rfl, _⟩ | ⟨rfl, _⟩ | ⟨rfl, _⟩ := several
  · obtain ⟨w, different⟩ := Octets.exists_octetAt_setWord_ne begun
    exact ⟨w, octets_ne_of_octetAt different⟩
  · obtain ⟨w, different⟩ := Octets.exists_octetAt_setWord_ne begun
    exact ⟨w, octets_ne_of_octetAt different⟩
  · -- The country code is written first, and one more than what is there is something else.
    have different : (p.setNonStandardId ⟨p.octetAt (clientOffset + 1) + 1, 0, 0, 0⟩).octetAt
        (clientOffset + 1) ≠ p.octetAt (clientOffset + 1) := by
      rw [octetAt_setNonStandardId present begun]
      exact fun same => absurd (UInt8.add_eq_left.mp same) (by decide)
    exact ⟨_, octets_ne_of_octetAt different⟩

/-! ## Both together -/

section Missing

variable {part : Part} (missing : ¬ p.Holds part) (present : part.Under p.rawClient)
include missing present

theorem short_of_missing :
    p.frame.info.length < part.offset p.rawClient + part.size :=
  Nat.not_le.mp fun inside => missing ⟨present, inside⟩

/-- If a part is missing the whole field that it is set with lies behind the end, unless the field
is cut. -/
theorem le_offset_of_missing {f : Field} (set : part.field? = some f) (uncut : ¬ p.Cuts f) :
    p.frame.info.length ≤ f.offset p.rawClient := by
  obtain ⟨_, ends⟩ := part.within_field set p.rawClient
  by_contra begun
  exact uncut ⟨present f set, Nat.not_le.mp begun,
    Nat.lt_of_lt_of_le (short_of_missing missing present) ends⟩

/-- Then the part is all missing. -/
theorem octetAt_of_missing (uncut : ∀ f ∈ part.field?, ¬ p.Cuts f) :
    p.octetAt (part.offset p.rawClient) = 0 := by
  apply octetAt_of_le
  cases set : part.field? with
  | none =>
    have short := short_of_missing missing present
    cases part <;> cases set
    exact Nat.le_of_lt_succ short
  | some f =>
    obtain ⟨begins, _⟩ := part.within_field set p.rawClient
    exact Nat.le_trans (le_offset_of_missing missing present set (uncut f set)) begins

end Missing

/-- What is not all there reads as zero and cannot be set, exactly if the information field does not
end inside the field. Where it does, the octets in front of the end are read as those of the whole
field, and they can be set. -/
theorem absent_zero_iff_uncut (p : Pdu) {part : Part} (missing : ¬ p.Holds part) :
    p.read part = (if part.Under p.rawClient then
        256 * (p.octetAt (part.offset p.rawClient)).toNat else 0) ∧
      ((p.read part = 0 ∧
        ∀ f ∈ part.field?, ∀ v, (p.setField f v).frame.octets = p.frame.octets) ↔
          ∀ f ∈ part.field?, ¬ p.Cuts f) := by
  by_cases present : part.Under p.rawClient
  · have value := read_of_short present (short_of_missing missing present)
    rw [if_pos present]
    refine ⟨value, ⟨?_, fun uncut => ⟨?_, fun f set v => ?_⟩⟩⟩
    · rintro ⟨_, unset⟩ f set cut
      obtain ⟨v, different⟩ := exists_setField_ne cut
      exact different (unset f set v)
    · rw [value, octetAt_of_missing missing present uncut]
      rfl
    · rw [setField_of_le set (le_offset_of_missing missing present set (uncut f set))]
  · -- A field that the identification does not have has no octets that could be cut.
    have absent (f : Field) (set : part.field? = some f) : ¬ f.Under p.rawClient := fun own =>
      present fun g set' => Option.some.inj (set.symm.trans set') ▸ own
    rw [if_neg present]
    refine ⟨read_of_absent present, ⟨fun _ f set cut => absent f set cut.1, fun _ => ?_⟩⟩
    refine ⟨read_of_absent present, fun f set v => ?_⟩
    rw [setField_of_absent (absent f set)]

/-- A PDU that has been refused for want of a header: the destination is cut, the source is not. -/
theorem absent_zero_iff_uncut_source :
    let p := ((default : Pdu).decode .annexQ [0, 4, 0, 0x61, 3, 0x12]).2
    ¬ p.Holds .source ∧ (∀ f ∈ Part.source.field?, ¬ p.Cuts f) ∧ p.read .source = 0 ∧
      (p.setSource 0x5678).frame.octets = p.frame.octets := by
  intro p
  have missing : ¬ p.Holds .source := by decide
  have uncut : ∀ f ∈ Part.source.field?, ¬ p.Cuts f := by decide
  obtain ⟨zero, unset⟩ := (absent_zero_iff_uncut p missing).2.mpr uncut
  exact ⟨missing, uncut, zero, unset .source rfl 0x5678⟩

/-- A PDU whose frame has no room for all of a manufacturer's identification, which the end cuts in
two: it is set and read as far as it is there. -/
theorem absent_zero_iff_uncut_manufacturer :
    let frame : Frame := ⟨0x00, 0x61, 0x03, [0, 0, 0, 0, 0, 0], 8⟩
    let p := setRawClient ⟨frame⟩ ClientId.nonStandardMarker
    let q := p.setField .nonStandardId ⟨1, 2, 0x3456, 7⟩
    ofFrame frame = .ok ⟨frame⟩ ∧ ¬ p.Holds .manufacturerClient ∧
      q.frame.octets ≠ p.frame.octets ∧ ¬ q.Holds .manufacturer ∧
      q.read .manufacturer = 0x3400 := by
  decide

end SimplexControl.Pdu
