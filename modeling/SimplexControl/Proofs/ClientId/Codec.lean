import SimplexControl.ClientId
import SimplexControl.Proofs.Bits
import SimplexControl.Proofs.Octets

/-!
# Identifications on the line

A valid identification is read back from the octets it is written as, whatever its free bit and
whatever follows, and the size that it announces is the number of these octets. The other way
round, octets that are as many as their first one announces are those of a valid identification.
-/

namespace SimplexControl.ClientId

/-! ## The two parts of the first octet -/

theorem toNat_and_idMask (o : UInt8) : (o &&& idMask).toNat = o.toNat % 128 := by
  rw [UInt8.toNat_and]
  exact Nat.and_two_pow_sub_one_eq_mod o.toNat 7

theorem and_idMask_of_lt {o : UInt8} (small : o < 0x80) : o &&& idMask = o := by
  have below : o.toNat < 128 := UInt8.lt_iff_toNat_lt.mp small
  apply UInt8.toNat_inj.mp
  rw [toNat_and_idMask, Nat.mod_eq_of_lt below]

theorem and_idMask_lt (o : UInt8) : o &&& idMask < 0x80 := by
  rw [UInt8.lt_iff_toNat_lt, toNat_and_idMask]
  exact Nat.mod_lt _ (by decide)

theorem raw_lt (id : ClientId) : id.raw < 0x80 := by
  cases id with
  | standard n => exact and_idMask_lt n
  | extended _ => exact (by decide : extendedMarker < 0x80)
  | nonStandard _ => exact (by decide : nonStandardMarker < 0x80)

theorem or_and_distrib (a b c : UInt8) : (a ||| b) &&& c = a &&& c ||| b &&& c := by
  apply UInt8.toNat_inj.mp
  simp only [UInt8.toNat_and, UInt8.toNat_or, Nat.and_or_distrib_right]

/-- The free bit and the seven bits of the identification share an octet without touching. -/
theorem mark_and_idMask (flags : UInt8) (id : ClientId) :
    (flags &&& highBit ||| id.raw) &&& idMask = id.raw := by
  have apart : highBit &&& idMask = 0 := by decide
  rw [or_and_distrib, UInt8.and_assoc, apart, UInt8.and_zero, UInt8.zero_or,
    and_idMask_of_lt id.raw_lt]

theorem mark_and_highBit (flags : UInt8) (id : ClientId) :
    (flags &&& highBit ||| id.raw) &&& highBit = flags &&& highBit := by
  have apart : idMask &&& highBit = 0 := by decide
  have free : id.raw &&& highBit = 0 := by
    rw [← and_idMask_of_lt id.raw_lt, UInt8.and_assoc, apart, UInt8.and_zero]
  rw [or_and_distrib, UInt8.and_assoc, UInt8.and_self, free, UInt8.or_zero]

/-! ## The whole identification -/

/-- The eighth bit has no part in sizes. -/
theorem extensionSize_masked (first : UInt8) :
    extensionSize (first &&& idMask) = extensionSize first := by
  have twice : first &&& idMask &&& idMask = first &&& idMask := by
    rw [UInt8.and_assoc, UInt8.and_self]
  rw [extensionSize, twice, extensionSize]

theorem extensionSize_le (first : UInt8) : extensionSize first ≤ nonStandardSize := by
  unfold extensionSize
  split
  · decide
  · split <;> decide

/-- A valid identification of seven bits is neither of the markers. -/
theorem standard_raw {n : UInt8} (valid : (standard n).isValid) :
    (standard n).raw = n ∧ n ≠ extendedMarker ∧ n ≠ nonStandardMarker := by
  have below : n.toNat < 126 := UInt8.lt_iff_toNat_lt.mp (of_decide_eq_true valid)
  refine ⟨and_idMask_of_lt (UInt8.lt_iff_toNat_lt.mpr ?_), ?_, ?_⟩
  · exact Nat.lt_trans below (by decide)
  · rintro rfl
    exact absurd below (by decide)
  · rintro rfl
    exact absurd below (by decide)

/-- The first octet announces how many follow. -/
theorem length_extension {id : ClientId} (valid : id.isValid) :
    id.extension.length = extensionSize id.raw := by
  cases id with
  | standard n =>
    obtain ⟨raw, notExtended, notNonStandard⟩ := standard_raw valid
    have small : n &&& idMask = n := raw
    rw [raw, extensionSize, small, if_neg notExtended, if_neg notNonStandard]
    rfl
  | extended n => exact (by decide : 1 = extensionSize extendedMarker)
  | nonStandard id => exact (by decide : 5 = extensionSize nonStandardMarker)

theorem length_write {id : ClientId} (valid : id.isValid) (flags : UInt8) :
    (id.write flags).length = id.size := by
  rw [write, List.length_cons, length_extension valid, size, Nat.add_comm]

/-- What follows the first octet is read as it was written. -/
theorem parseExtension?_append {id : ClientId} (valid : id.isValid) {first : UInt8}
    (opens : first &&& idMask = id.raw) (rest : Octets) :
    parseExtension? first (id.extension ++ rest) = some id := by
  unfold parseExtension?
  rw [opens]
  cases id with
  | standard n =>
    obtain ⟨raw, notExtended, notNonStandard⟩ := standard_raw valid
    rw [raw, if_neg notExtended, if_neg notNonStandard]
  | extended n => rfl
  | nonStandard id =>
    have apart : nonStandardMarker ≠ extendedMarker := by decide
    have word : Octets.wordAt [(id.manufacturer >>> 8).toUInt8, id.manufacturer.toUInt8] 0 =
        id.manufacturer := Octets.join_ofWord id.manufacturer
    simp only [raw, if_neg apart, if_true, extension, Octets.ofWord, List.cons_append,
      List.nil_append, word]

theorem parse?_write_append {id : ClientId} (valid : id.isValid) (flags : UInt8)
    (rest : Octets) :
    parse? (id.write flags ++ rest) = some ⟨id, flags &&& highBit ≠ 0, id.size⟩ := by
  rw [write, List.cons_append, parse?, parseExtension?_append valid (mark_and_idMask flags id),
    Option.map_some, mark_and_highBit]

/-- Behind an identification lies what was written behind it. -/
theorem drop_write_append {id : ClientId} (valid : id.isValid) (flags : UInt8) (rest : Octets) :
    (id.write flags ++ rest).drop id.size = rest := by
  rw [← length_write valid flags, List.drop_left]

/-! ## What has been read -/

/-- The flags that make the free bit what it is to be. -/
def mark (high : Bool) : UInt8 := if high then highBit else 0

theorem toNat_highBit : highBit.toNat = 1 <<< 7 := by decide

theorem mark_of_first (first : UInt8) :
    mark (first &&& highBit ≠ 0) &&& highBit = first &&& highBit := by
  rw [and_mask toNat_highBit first]
  split <;> decide

/-- The free bit and the seven bits of the identification are all of an octet. -/
theorem highBit_or_idMask (first : UInt8) : first &&& highBit ||| first &&& idMask = first := by
  apply octet_ext
  intro i inside
  have whole : ∀ i : Fin 8, (highBit ||| idMask).toNat.testBit i := by decide
  have lit := whole ⟨i, inside⟩
  rw [UInt8.toNat_or, Nat.testBit_or] at lit
  simp only [UInt8.toNat_or, UInt8.toNat_and, Nat.testBit_or, Nat.testBit_and]
  rw [← Bool.and_or_distrib_left, lit, Bool.and_true]

/-- Seven bits that are neither of the markers name a valid identification. -/
theorem isValid_standard {first : UInt8} (notExtended : first &&& idMask ≠ extendedMarker)
    (notNonStandard : first &&& idMask ≠ nonStandardMarker) :
    (standard (first &&& idMask)).isValid := by
  have below := UInt8.lt_iff_toNat_lt.mp (and_idMask_lt first)
  have first_ne : (first &&& idMask).toNat ≠ 126 := fun same =>
    notExtended (UInt8.toNat_inj.mp same)
  have second_ne : (first &&& idMask).toNat ≠ 127 := fun same =>
    notNonStandard (UInt8.toNat_inj.mp same)
  have limit : (0x80 : UInt8).toNat = 128 := rfl
  refine decide_eq_true (UInt8.lt_iff_toNat_lt.mpr ?_)
  show (first &&& idMask).toNat < 126
  omega

/-- What is read behind a first octet is a valid identification that opens with it. -/
theorem of_parseExtension? {first : UInt8} {rest : Octets} {id : ClientId}
    (read : parseExtension? first rest = some id) :
    id.isValid ∧ id.raw = first &&& idMask ∧ id.extension <+: rest := by
  unfold parseExtension? at read
  split at read
  next extended =>
    split at read
    · cases read
      exact ⟨rfl, extended.symm, List.prefix_append _ _⟩
    · cases read
  next notExtended =>
  split at read
  next nonStandard =>
    split at read
    next country countryExtension high low client behind =>
      cases read
      refine ⟨rfl, nonStandard.symm, ?_⟩
      show [country, countryExtension] ++ Octets.ofWord _ ++ [client] <+: _
      rw [show Octets.wordAt [high, low] 0 = high.toUInt16 <<< 8 ||| low.toUInt16 from rfl,
        Octets.ofWord_join]
      exact List.prefix_append _ behind
    · cases read
  next notNonStandard =>
    cases read
    refine ⟨isValid_standard notExtended notNonStandard, ?_, List.nil_prefix⟩
    rw [raw, UInt8.and_assoc, UInt8.and_self]

/-- Enough octets for what the first one announces are read. -/
theorem exists_parseExtension? {first : UInt8} {rest : Octets}
    (complete : extensionSize first ≤ rest.length) : ∃ id, parseExtension? first rest = some id := by
  unfold parseExtension?
  unfold extensionSize at complete
  split
  next extended =>
    rw [if_pos extended] at complete
    match rest, complete with
    | id :: _, _ => exact ⟨_, rfl⟩
  next notExtended =>
  rw [if_neg notExtended] at complete
  split
  next nonStandard =>
    rw [if_pos nonStandard] at complete
    match rest, complete with
    | country :: countryExtension :: high :: low :: client :: _, _ => exact ⟨_, rfl⟩
  next => exact ⟨_, rfl⟩

theorem write_mark {first : UInt8} {id : ClientId} (opens : id.raw = first &&& idMask) :
    id.write (mark (first &&& highBit ≠ 0)) = first :: id.extension := by
  rw [write, mark_of_first, opens, highBit_or_idMask]

/-- Octets that are as many as the first one announces begin with a valid identification. -/
theorem exists_write_append {first : UInt8} {rest : Octets}
    (complete : extensionSize first ≤ rest.length) :
    ∃ (id : ClientId) (high : Bool) (behind : Octets), id.isValid ∧
      id.write (mark high) ++ behind = first :: rest ∧
      extensionSize first + behind.length = rest.length := by
  obtain ⟨id, read⟩ := exists_parseExtension? complete
  obtain ⟨valid, opens, behind, rfl⟩ := of_parseExtension? read
  refine ⟨id, first &&& highBit ≠ 0, behind, valid, ?_, ?_⟩
  · rw [write_mark opens, List.cons_append]
  · rw [List.length_append, length_extension valid, opens, extensionSize_masked]

/-! ## What is read and what is written -/

theorem mark_and_highBit_ne_zero (high : Bool) : decide (mark high &&& highBit ≠ 0) = high := by
  cases high <;> decide

/-- What is read is a valid identification as it is written, with anything behind it. -/
theorem parse?_eq_some_iff {data : Octets} {p : Parsed} :
    parse? data = some p ↔
      p.id.isValid ∧ p.size = p.id.size ∧ ∃ rest, data = p.id.write (mark p.high) ++ rest := by
  constructor
  · intro read
    cases data with
    | nil => cases read
    | cons first rest =>
      obtain ⟨id, extension, rfl⟩ := Option.map_eq_some_iff.mp read
      obtain ⟨valid, opens, behind, rfl⟩ := of_parseExtension? extension
      refine ⟨valid, rfl, behind, ?_⟩
      rw [write_mark opens, List.cons_append]
  · rintro ⟨valid, size, rest, rfl⟩
    rw [parse?_write_append valid, mark_and_highBit_ne_zero, ← size]

variable {data : Octets} {p : Parsed}

theorem size_le_of_parse? (read : parse? data = some p) : p.size ≤ data.length := by
  obtain ⟨valid, size, rest, rfl⟩ := parse?_eq_some_iff.mp read
  rw [List.length_append, length_write valid, ← size]
  exact Nat.le_add_right _ _

theorem size_pos_of_parse? (read : parse? data = some p) : 0 < p.size := by
  obtain ⟨_, size, _⟩ := parse?_eq_some_iff.mp read
  rw [size, ClientId.size]
  exact Nat.lt_of_lt_of_le Nat.one_pos (Nat.le_add_right _ _)

theorem take_of_parse? (read : parse? data = some p) :
    data.take p.size = p.id.write (mark p.high) := by
  obtain ⟨valid, size, rest, rfl⟩ := parse?_eq_some_iff.mp read
  exact List.take_left' ((length_write valid _).trans size.symm)

/-- Octets behind an identification make no difference to it. -/
theorem parse?_append (read : parse? data = some p) (rest : Octets) :
    parse? (data ++ rest) = some p := by
  obtain ⟨valid, size, behind, rfl⟩ := parse?_eq_some_iff.mp read
  exact parse?_eq_some_iff.mpr ⟨valid, size, behind ++ rest, List.append_assoc _ _ _⟩

/-- No part of what is written that is cut off behind is read. -/
theorem parse?_take_write {id : ClientId} (valid : id.isValid) (flags : UInt8) {n : Nat}
    (short : n < id.size) : parse? ((id.write flags).take n) = none := by
  cases read : parse? ((id.write flags).take n) with
  | none => rfl
  | some p =>
    -- Read from the part, it would be read from the whole as well, and as one that fits the part.
    have whole := parse?_append read ((id.write flags).drop n)
    have written := parse?_write_append valid flags []
    rw [List.take_append_drop] at whole
    rw [List.append_nil, whole] at written
    obtain rfl := Option.some.inj written
    have fits := size_le_of_parse? read
    have cut := List.length_take_le n (id.write flags)
    exact absurd (Nat.le_trans fits cut) (Nat.not_le.mpr short)

end SimplexControl.ClientId
