import SimplexControl.Proofs.Pdu.Layout

/-!
# The fields of a header do not touch each other

Setting a field of a PDU replaces one of its parts and leaves the others as they are. So a field
reads back what it was set to, no other field notices, the client data stay, and it makes no
difference in which order two fields are set.
-/

namespace SimplexControl

namespace ClientId

/-- The identification with another octet if it is an extended one. -/
def withExtendedPart (octet : UInt8) : ClientId → ClientId
  | .extended _ => .extended octet
  | other => other

/-- The identification with other contents if it is a manufacturer's. -/
def withNonStandardPart (contents : NonStandardId) : ClientId → ClientId
  | .nonStandard _ => .nonStandard contents
  | other => other

theorem isValid_withExtendedPart (octet : UInt8) (id : ClientId) :
    (id.withExtendedPart octet).isValid = id.isValid := by
  cases id <;> rfl

theorem isValid_withNonStandardPart (contents : NonStandardId) (id : ClientId) :
    (id.withNonStandardPart contents).isValid = id.isValid := by
  cases id <;> rfl

theorem raw_withExtendedPart (octet : UInt8) (id : ClientId) :
    (id.withExtendedPart octet).raw = id.raw := by
  cases id <;> rfl

theorem raw_withNonStandardPart (contents : NonStandardId) (id : ClientId) :
    (id.withNonStandardPart contents).raw = id.raw := by
  cases id <;> rfl

theorem raw_eq_extendedMarker_iff {id : ClientId} (valid : id.isValid) :
    id.raw = extendedMarker ↔ ∃ octet, id = .extended octet := by
  cases id with
  | standard n =>
    obtain ⟨raw, notExtended, _⟩ := standard_raw valid
    simp [raw, notExtended]
  | extended octet => simp [raw]
  | nonStandard contents => simp [raw, nonStandardMarker, extendedMarker]

theorem raw_eq_nonStandardMarker_iff {id : ClientId} (valid : id.isValid) :
    id.raw = nonStandardMarker ↔ ∃ contents, id = .nonStandard contents := by
  cases id with
  | standard n =>
    obtain ⟨raw, _, notNonStandard⟩ := standard_raw valid
    simp [raw, notNonStandard]
  | extended octet => simp [raw, nonStandardMarker, extendedMarker]
  | nonStandard contents => simp [raw]

end ClientId

namespace Pdu

/-! ## Bits of the segmentation octet -/

namespace SegmentFlag

/-- The segmentation octet with a flag set or cleared. -/
def put (flag : SegmentFlag) (v : Bool) (o : UInt8) : UInt8 :=
  if v then o ||| flag.mask else o &&& ~~~flag.mask

variable {flag other : SegmentFlag}

theorem place_inj : flag.place = other.place ↔ flag = other := by
  cases flag <;> cases other <;> decide

theorem place_lt (flag : SegmentFlag) : flag.place < 8 := by
  cases flag <;> decide

theorem four_le_place (flag : SegmentFlag) : 4 ≤ flag.place := by
  cases flag <;> decide

theorem testBit_put (flag : SegmentFlag) (v : Bool) (o : UInt8) {i : Nat} (inside : i < 8) :
    (flag.put v o).toNat.testBit i = if i = flag.place then v else o.toNat.testBit i := by
  have lit : flag.mask.toNat.testBit i = decide (i = flag.place) := by
    rw [flag.toNat_mask, Nat.one_shiftLeft, Nat.testBit_two_pow, decide_eq_decide]
    exact eq_comm
  cases v with
  | true =>
    show (o ||| flag.mask).toNat.testBit i = _
    rw [UInt8.toNat_or, Nat.testBit_or, lit]
    by_cases here : i = flag.place <;> simp [here]
  | false =>
    show (o &&& ~~~flag.mask).toNat.testBit i = _
    rw [UInt8.toNat_and, Nat.testBit_and, testBit_toNat_not, lit, decide_eq_true inside]
    by_cases here : i = flag.place <;> simp [here]

end SegmentFlag

/-- The segmentation octet with another segment number. -/
def putNumber (n o : UInt8) : UInt8 := o &&& ~~~segmentNumberMask ||| n &&& segmentNumberMask

theorem testBit_segmentNumberMask (i : Nat) :
    segmentNumberMask.toNat.testBit i = decide (i < 4) := Nat.testBit_two_pow_sub_one 4 i

theorem testBit_putNumber (n o : UInt8) {i : Nat} (inside : i < 8) :
    (putNumber n o).toNat.testBit i =
      if i < 4 then n.toNat.testBit i else o.toNat.testBit i := by
  rw [putNumber, UInt8.toNat_or, UInt8.toNat_and, UInt8.toNat_and, Nat.testBit_or,
    Nat.testBit_and, Nat.testBit_and, testBit_toNat_not, testBit_segmentNumberMask,
    decide_eq_true inside]
  by_cases low : i < 4 <;> simp [low]

/-- Two octets with the same four lowest bits hold the same segment number. -/
theorem number_congr {x y : UInt8} (same : ∀ i < 4, x.toNat.testBit i = y.toNat.testBit i) :
    x &&& segmentNumberMask = y &&& segmentNumberMask := by
  apply octet_ext
  intro i _
  rw [UInt8.toNat_and, UInt8.toNat_and, Nat.testBit_and, Nat.testBit_and,
    testBit_segmentNumberMask]
  by_cases low : i < 4
  · rw [same i low]
  · simp [low]

theorem number_eq_mod (o : UInt8) : o &&& segmentNumberMask = o % 16 := by
  apply UInt8.toNat_inj.mp
  rw [UInt8.toNat_and, UInt8.toNat_mod]
  exact Nat.and_two_pow_sub_one_eq_mod o.toNat 4

/-! ### Flags and number side by side -/

variable (flag : SegmentFlag) {other : SegmentFlag} (v : Bool) (n o : UInt8)

theorem SegmentFlag.testBit_put_self : (flag.put v o).toNat.testBit flag.place = v := by
  rw [flag.testBit_put v o flag.place_lt, if_pos rfl]

theorem SegmentFlag.testBit_put_ne {flag : SegmentFlag} (different : other ≠ flag) :
    (flag.put v o).toNat.testBit other.place = o.toNat.testBit other.place := by
  have apart : other.place ≠ flag.place := fun same => different (place_inj.mp same)
  rw [flag.testBit_put v o other.place_lt, if_neg apart]

theorem SegmentFlag.number_put : flag.put v o &&& segmentNumberMask = o &&& segmentNumberMask := by
  apply number_congr
  intro i low
  have apart : i ≠ flag.place := Nat.ne_of_lt (Nat.lt_of_lt_of_le low flag.four_le_place)
  rw [flag.testBit_put v o (Nat.lt_trans low (by decide)), if_neg apart]

theorem SegmentFlag.testBit_putNumber :
    (putNumber n o).toNat.testBit flag.place = o.toNat.testBit flag.place := by
  rw [Pdu.testBit_putNumber n o flag.place_lt, if_neg (Nat.not_lt.mpr flag.four_le_place)]

theorem number_putNumber : putNumber n o &&& segmentNumberMask = n % 16 := by
  rw [← number_eq_mod]
  apply number_congr
  intro i low
  rw [testBit_putNumber n o (Nat.lt_trans low (by decide)), if_pos low]

/-! ## Fields -/

/-- The fields of the header that are set one by one. The octet that opens the identification is
none of them, because the others move with it. -/
inductive Field
  | highPriority
  | destination
  | source
  | segmentFlag (flag : SegmentFlag)
  | segmentNumber
  | extendedId
  | nonStandardId
deriving DecidableEq, Repr

namespace Field

/-- What a field holds. -/
abbrev Value : Field → Type
  | .highPriority => Bool
  | .destination => UInt16
  | .source => UInt16
  | .segmentFlag _ => Bool
  | .segmentNumber => UInt8
  | .extendedId => UInt8
  | .nonStandardId => NonStandardId

/-- Whether the field is there when the identification opens with these seven bits. -/
def Under (raw : UInt8) : Field → Prop
  | .extendedId => raw = ClientId.extendedMarker
  | .nonStandardId => raw = ClientId.nonStandardMarker
  | _ => True

/-- What a field keeps of a value: a segment number has only four bits. -/
def stored : (f : Field) → f.Value → f.Value
  | .segmentNumber, (n : UInt8) => n % 16
  | .highPriority, v => v
  | .destination, v => v
  | .source, v => v
  | .segmentFlag _, v => v
  | .extendedId, v => v
  | .nonStandardId, v => v

end Field

/-- Reads a field. -/
def field (p : Pdu) : (f : Field) → f.Value
  | .highPriority => p.highPriority
  | .destination => p.destination
  | .source => p.source
  | .segmentFlag flag => p.segmentFlag flag
  | .segmentNumber => p.segmentNumber
  | .extendedId => p.extendedId
  | .nonStandardId => p.nonStandardId

/-- Sets a field. -/
def setField (p : Pdu) : (f : Field) → f.Value → Pdu
  | .highPriority, v => p.setHighPriority v
  | .destination, address => p.setDestination address
  | .source, address => p.setSource address
  | .segmentFlag flag, v => p.setSegmentFlag flag v
  | .segmentNumber, n => p.setSegmentNumber n
  | .extendedId, id => p.setExtendedId id
  | .nonStandardId, id => p.setNonStandardId id

namespace Layout

/-- The part that a field is read from. -/
def field (l : Layout) : (f : Field) → f.Value
  | .highPriority => l.highPriority
  | .destination => l.destination
  | .source => l.source
  | .segmentFlag flag => l.segment.toNat.testBit flag.place
  | .segmentNumber => l.segment &&& segmentNumberMask
  | .extendedId => l.client.extendedPart
  | .nonStandardId => l.client.nonStandardPart

/-- The parts after a field has been set. -/
def setField (l : Layout) : (f : Field) → f.Value → Layout
  | .highPriority, v => { l with highPriority := v }
  | .destination, address => { l with destination := address }
  | .source, address => { l with source := address }
  | .segmentFlag flag, v => { l with segment := flag.put v l.segment }
  | .segmentNumber, n => { l with segment := putNumber n l.segment }
  | .extendedId, id =>
    { l with
      client := l.client.withExtendedPart id
      readable := (ClientId.isValid_withExtendedPart id l.client).trans l.readable }
  | .nonStandardId, id =>
    { l with
      client := l.client.withNonStandardPart id
      readable := (ClientId.isValid_withNonStandardPart id l.client).trans l.readable }

variable (l : Layout) (maxInfo : Nat)

theorem field_toPdu (f : Field) : (l.toPdu maxInfo).field f = l.field f := by
  cases f with
  | highPriority => exact l.highPriority_toPdu maxInfo
  | destination => exact l.destination_toPdu maxInfo
  | source => exact l.source_toPdu maxInfo
  | segmentFlag flag =>
    refine (segmentFlag_eq _ flag).trans ?_
    rw [segmentOctet_toPdu]
    rfl
  | segmentNumber => exact congrArg (· &&& segmentNumberMask) (l.segmentOctet_toPdu maxInfo)
  | extendedId => exact l.extendedId_toPdu maxInfo
  | nonStandardId => exact l.nonStandardId_toPdu maxInfo

theorem setSegmentOctet_toPdu (o : UInt8) :
    (l.toPdu maxInfo).setSegmentOctet o = ({ l with segment := o } : Layout).toPdu maxInfo := by
  have replaced : l.info.set l.front.length o = ({ l with segment := o } : Layout).info := by
    show ((l.front ++ [l.segment]) ++ l.data).set l.front.length o = (l.front ++ [o]) ++ l.data
    simp
  rw [setSegmentOctet, rawClient_toPdu, ← length_front, setOctet]
  show Pdu.mk { (l.toPdu maxInfo).frame with info := l.info.set l.front.length o } = _
  rw [replaced]
  rfl

theorem setExtendedId_toPdu (id : UInt8) :
    (l.toPdu maxInfo).setExtendedId id = (l.setField .extendedId id).toPdu maxInfo := by
  rw [setExtendedId, rawClient_toPdu]
  obtain ⟨_, _, _, client, _, _, _, readable⟩ := l
  cases client with
  | standard n =>
    obtain ⟨raw, notExtended, _⟩ := ClientId.standard_raw readable
    rw [raw, if_neg notExtended]
    rfl
  | extended old => rfl
  | nonStandard old => rfl

theorem setNonStandardId_toPdu (id : NonStandardId) :
    (l.toPdu maxInfo).setNonStandardId id = (l.setField .nonStandardId id).toPdu maxInfo := by
  rw [setNonStandardId, rawClient_toPdu]
  obtain ⟨_, _, _, client, _, _, _, readable⟩ := l
  cases client with
  | standard n =>
    obtain ⟨raw, _, notNonStandard⟩ := ClientId.standard_raw readable
    rw [raw, if_neg notNonStandard]
    rfl
  | extended old => rfl
  | nonStandard old => rfl

/-- Setting a field replaces its part and nothing else, one case for each field. -/
theorem setField_toPdu (f : Field) (v : f.Value) :
    (l.toPdu maxInfo).setField f v = (l.setField f v).toPdu maxInfo := by
  cases f with
  | highPriority => rfl
  | destination => rfl
  | source => rfl
  | segmentFlag flag =>
    refine (l.setSegmentOctet_toPdu maxInfo _).trans ?_
    rw [segmentOctet_toPdu]
    rfl
  | segmentNumber =>
    refine (l.setSegmentOctet_toPdu maxInfo _).trans ?_
    rw [segmentOctet_toPdu]
    rfl
  | extendedId => exact l.setExtendedId_toPdu maxInfo v
  | nonStandardId => exact l.setNonStandardId_toPdu maxInfo v

/-! ## One field and the others -/

variable {l : Layout} {f g : Field}

theorem raw_setField (l : Layout) (f : Field) (v : f.Value) :
    (l.setField f v).client.raw = l.client.raw := by
  cases f with
  | extendedId => exact ClientId.raw_withExtendedPart v l.client
  | nonStandardId => exact ClientId.raw_withNonStandardPart v l.client
  | _ => rfl

theorem data_setField (l : Layout) (f : Field) (v : f.Value) : (l.setField f v).data = l.data := by
  cases f <;> rfl

theorem marked_setField (l : Layout) (f : Field) (v : f.Value) :
    (l.setField f v).marked = l.marked := by
  cases f <;> rfl

theorem client_setField (notExtended : f ≠ .extendedId) (notNonStandard : f ≠ .nonStandardId)
    (v : f.Value) : (l.setField f v).client = l.client := by
  cases f with
  | extendedId => exact absurd rfl notExtended
  | nonStandardId => exact absurd rfl notNonStandard
  | _ => rfl

theorem field_setField_self (present : f.Under l.client.raw) (v : f.Value) :
    (l.setField f v).field f = f.stored v := by
  cases f with
  | segmentFlag flag => exact flag.testBit_put_self v l.segment
  | segmentNumber => exact number_putNumber v l.segment
  | extendedId =>
    obtain ⟨old, extended⟩ := (ClientId.raw_eq_extendedMarker_iff l.readable).mp present
    show (l.client.withExtendedPart v).extendedPart = v
    rw [extended]
    rfl
  | nonStandardId =>
    obtain ⟨old, nonStandard⟩ := (ClientId.raw_eq_nonStandardMarker_iff l.readable).mp present
    show (l.client.withNonStandardPart v).nonStandardPart = v
    rw [nonStandard]
    rfl
  | _ => rfl

theorem setField_of_absent (absent : ¬ f.Under l.client.raw) (v : f.Value) :
    l.setField f v = l := by
  cases f with
  | extendedId =>
    rw [Field.Under, ClientId.raw_eq_extendedMarker_iff l.readable] at absent
    have same : l.client.withExtendedPart v = l.client := by
      cases client : l.client with
      | extended old => exact absurd ⟨old, client⟩ absent
      | _ => rfl
    exact Layout.ext rfl rfl rfl same rfl rfl rfl
  | nonStandardId =>
    rw [Field.Under, ClientId.raw_eq_nonStandardMarker_iff l.readable] at absent
    have same : l.client.withNonStandardPart v = l.client := by
      cases client : l.client with
      | nonStandard old => exact absurd ⟨old, client⟩ absent
      | _ => rfl
    exact Layout.ext rfl rfl rfl same rfl rfl rfl
  | _ => exact absurd trivial absent

theorem field_setField_ne (different : g ≠ f) (v : f.Value) :
    (l.setField f v).field g = l.field g := by
  cases f with
  | highPriority =>
    cases g with
    | highPriority => exact absurd rfl different
    | _ => rfl
  | destination =>
    cases g with
    | destination => exact absurd rfl different
    | _ => rfl
  | source =>
    cases g with
    | source => exact absurd rfl different
    | _ => rfl
  | segmentFlag flag =>
    cases g with
    | segmentFlag other =>
      exact SegmentFlag.testBit_put_ne v l.segment fun same => different (congrArg _ same)
    | segmentNumber => exact flag.number_put v l.segment
    | _ => rfl
  | segmentNumber =>
    cases g with
    | segmentFlag flag => exact flag.testBit_putNumber v l.segment
    | segmentNumber => exact absurd rfl different
    | _ => rfl
  | extendedId =>
    cases g with
    | extendedId => exact absurd rfl different
    | nonStandardId =>
      show (l.client.withExtendedPart v).nonStandardPart = l.client.nonStandardPart
      cases l.client <;> rfl
    | _ => rfl
  | nonStandardId =>
    cases g with
    | extendedId =>
      show (l.client.withNonStandardPart v).extendedPart = l.client.extendedPart
      cases l.client <;> rfl
    | nonStandardId => exact absurd rfl different
    | _ => rfl

/-- The segmentation octet is all flags and number. -/
theorem segment_eq_of_fields {k : Layout}
    (flags : ∀ flag, l.field (.segmentFlag flag) = k.field (.segmentFlag flag))
    (number : l.field .segmentNumber = k.field .segmentNumber) : l.segment = k.segment := by
  apply octet_ext
  intro i inside
  by_cases low : i < 4
  · have masked : (l.segment &&& segmentNumberMask).toNat.testBit i =
        (k.segment &&& segmentNumberMask).toNat.testBit i :=
      congrArg (fun o : UInt8 => o.toNat.testBit i) number
    simpa only [UInt8.toNat_and, Nat.testBit_and, testBit_segmentNumberMask, low, decide_true,
      Bool.and_true] using masked
  · obtain ⟨flag, rfl⟩ : ∃ flag : SegmentFlag, i = flag.place := by
      obtain rfl | rfl | rfl | rfl : i = 4 ∨ i = 5 ∨ i = 6 ∨ i = 7 := by omega
      · exact ⟨.c0, rfl⟩
      · exact ⟨.c1, rfl⟩
      · exact ⟨.es, rfl⟩
      · exact ⟨.bs, rfl⟩
    exact flags flag

/-- Beside its fields a header has only the seven bits and the free bit of the identification. -/
theorem eq_of_fields {k : Layout} (raw : l.client.raw = k.client.raw) (marked : l.marked = k.marked)
    (data : l.data = k.data) (same : ∀ f, l.field f = k.field f) : l = k := by
  have extended : l.client.extendedPart = k.client.extendedPart := same .extendedId
  have nonStandard : l.client.nonStandardPart = k.client.nonStandardPart := same .nonStandardId
  have client : l.client = k.client := by
    rw [← ClientId.eq_of_parts l.readable, raw, extended, nonStandard,
      ClientId.eq_of_parts k.readable]
  have segment := segment_eq_of_fields (fun flag => same (.segmentFlag flag)) (same .segmentNumber)
  exact Layout.ext (same .highPriority) (same .destination) (same .source) client marked segment
    data

/-- A field after two others have been set tells which of them it was, not in which order. -/
theorem setField_comm (different : g ≠ f) (v : f.Value) (w : g.Value) :
    (l.setField f v).setField g w = (l.setField g w).setField f v := by
  by_cases hasF : f.Under l.client.raw
  case neg =>
    have hasF' : ¬ f.Under (l.setField g w).client.raw := by rwa [raw_setField]
    rw [setField_of_absent hasF, setField_of_absent hasF']
  by_cases hasG : g.Under l.client.raw
  case neg =>
    have hasG' : ¬ g.Under (l.setField f v).client.raw := by rwa [raw_setField]
    rw [setField_of_absent hasG, setField_of_absent hasG']
  apply eq_of_fields
  · simp only [raw_setField]
  · simp only [marked_setField]
  · simp only [data_setField]
  · intro h
    by_cases first : h = f
    · subst first
      rw [field_setField_ne different.symm, field_setField_self hasF,
        field_setField_self (by rwa [raw_setField])]
    by_cases second : h = g
    · subst second
      rw [field_setField_ne different, field_setField_self hasG,
        field_setField_self (by rwa [raw_setField])]
    rw [field_setField_ne second, field_setField_ne first, field_setField_ne first,
      field_setField_ne second]

end Layout

/-- A field that is set reads back what it keeps of the value, and one that the identification does
not have cannot be set. Every other field, the size of the header, the client data and the number
of octets stay, the PDU stays one, and two fields can be set in either order. -/
theorem fields_independent {q : Frame} {p : Pdu} (accepted : ofFrame q = .ok p) (f : Field)
    (v : f.Value) :
    let r := p.setField f v
    (f.Under p.rawClient → r.field f = f.stored v) ∧
      (¬ f.Under p.rawClient → r = p) ∧
      (∀ g, g ≠ f → r.field g = p.field g) ∧
      r.rawClient = p.rawClient ∧
      (f ≠ .extendedId → f ≠ .nonStandardId → r.client = p.client) ∧
      r.headerSize = p.headerSize ∧ r.data = p.data ∧ r.frame.maxInfo = p.frame.maxInfo ∧
      r.frame.octets.length = p.frame.octets.length ∧
      ofFrame r.frame = .ok r ∧
      ∀ g, g ≠ f → ∀ w : g.Value, r.setField g w = (p.setField g w).setField f v := by
  obtain ⟨_, wellFormed⟩ := ofFrame_eq_ok_iff.mp accepted
  obtain ⟨l, parts⟩ := wellFormed.exists_layout
  generalize p.frame.maxInfo = maxInfo at parts
  subst parts
  intro r
  have made : r = (l.setField f v).toPdu maxInfo := l.setField_toPdu maxInfo f v
  have raw := l.raw_setField f v
  have data := l.data_setField f v
  simp only [made, Layout.field_toPdu, Layout.setField_toPdu, Layout.rawClient_toPdu,
    Layout.client_toPdu, Layout.headerSize_toPdu, Layout.data_toPdu, raw, data]
  refine ⟨fun present => Layout.field_setField_self present v, ?_,
    fun g different => Layout.field_setField_ne different v, trivial,
    fun notExtended notNonStandard => Layout.client_setField notExtended notNonStandard v,
    trivial, trivial, rfl, ?_, ?_, ?_⟩
  · intro absent
    rw [Layout.setField_of_absent absent]
  · rw [Frame.length_octets, Frame.length_octets]
    show _ + (l.setField f v).info.length = _ + l.info.length
    rw [Layout.length_info, Layout.length_info, raw, data]
  · exact ofFrame_eq_ok_iff.mpr ⟨rfl, wellFormed_toPdu _ maxInfo⟩
  · intro g different w
    rw [Layout.setField_comm different]

/-- The segment number of an extended client next to its flags, in a frame without room to grow. -/
theorem fields_independent_segment :
    let p : Pdu := ⟨⟨0x00, 0x61, 0x03, [0x12, 0x34, 0xAB, 0xCD, 0xFE, 0x42, 0x95, 0x01, 0x02], 9⟩⟩
    let r := p.setSegmentNumber 0x1A
    ofFrame p.frame = .ok p ∧
      r.frame.info = [0x12, 0x34, 0xAB, 0xCD, 0xFE, 0x42, 0x9A, 0x01, 0x02] ∧
      r.segmentNumber = 0x0A ∧ r.segmentFlag .c0 = p.segmentFlag .c0 ∧
      r.data = [0x01, 0x02] ∧ ofFrame r.frame = .ok r ∧
      r.setSegmentFlag .c0 false = (p.setSegmentFlag .c0 false).setSegmentNumber 0x1A ∧
      p.setNonStandardId ⟨1, 2, 3, 4⟩ = p := by
  intro p r
  have accepted : ofFrame p.frame = .ok p := by decide
  have extended : p.rawClient ≠ ClientId.nonStandardMarker := by decide
  obtain ⟨own, _, others, _, _, _, data, _, _, again, order⟩ :=
    fields_independent accepted .segmentNumber (0x1A : UInt8)
  obtain ⟨_, absent, _⟩ := fields_independent accepted .nonStandardId ⟨1, 2, 3, 4⟩
  exact ⟨accepted, by decide, own trivial, others (.segmentFlag .c0) (by decide),
    data.trans (by decide), again, order (.segmentFlag .c0) (by decide) false,
    absent extended⟩

end Pdu

end SimplexControl
