import SimplexControl.Proofs.Hdlc.Arithmetic
import SimplexControl.Proofs.Hdlc.FirstItem

/-!
# What a deframer can hold and yield

Whatever bits come, and whenever a deframer begins anew, its counters stay within their ranges and
its candidate within the maximum. So everything that it yields is of a few kinds: content that the
maximum leaves room for, or a candidate that is too long by one octet, not in octets, too short, or
with a check sequence of other content.
-/

namespace SimplexControl.Hdlc

/-- What an item of a deframer with this maximum can be. -/
def Possible (maxInfo : Nat) : Item → Prop
  | .ok content =>
    Frame.headerSize ≤ content.length ∧ content.length ≤ Frame.headerSize + maxInfo
  | .error (.infoTooLarge size max) => size = maxInfo + 1 ∧ max = maxInfo
  | .error (.misaligned bits) => 9 ≤ bits ∧ bits % 8 ≠ 0
  | .error (.frameTooShort size) => 1 ≤ size ∧ size ≤ 4
  | .error (.fcsMismatch expected received) => expected ≠ received
  | .error _ => False

/-- What a candidate can be between two bits under this maximum. -/
structure Candidate.InBounds (maxInfo : Nat) (c : Candidate) : Prop where
  ones : c.ones ≤ 6
  bits : c.bits ≤ 7
  value : c.value < 1 <<< c.bits
  octets : c.octets.size ≤ maxInfo + 5

variable {maxInfo : Nat}

/-- How an item of a deframer comes about. -/
inductive Yielded (maxInfo : Nat) : Item → Prop
  | tooLong : Yielded maxInfo (Deframer.tooLong maxInfo)
  | verdict {bits : List Bool} {item : Item} (short : bits.length < Deframer.bitLimit maxInfo)
    (found : verdict bits = some item) : Yielded maxInfo item

theorem Yielded.headerSize_le {content : Octets} (h : Yielded maxInfo (.ok content)) :
    Frame.headerSize ≤ content.length := by
  generalize same : (.ok content : Item) = item at h
  cases h with
  | tooLong => cases same
  | verdict short found => exact headerSize_le_of_verdict (same ▸ found)

/-- A verdict on content that is not too long. -/
theorem possible_verdict (representable : shortestFrame + maxInfo < UInt64.size)
    {bits : List Bool} {item : Item} (short : bits.length < Deframer.bitLimit maxInfo)
    (found : verdict bits = some item) : Possible maxInfo item := by
  rw [Deframer.bitLimit_eq representable, shortestFrame, Frame.headerSize] at short
  dsimp only [verdict] at found
  split at found
  · cases found
  next some =>
  split at found
  next misaligned =>
    cases found
    exact ⟨by omega, misaligned⟩
  next aligned =>
  split at found
  next few =>
    cases found
    rw [shortestFrame, Frame.headerSize] at few
    exact ⟨by omega, by omega⟩
  next enough =>
  split at found
  · cases found
    have size := length_octetsOf bits (not_not.mp aligned)
    rw [shortestFrame, Frame.headerSize] at enough
    show 3 ≤ ((octetsOf bits).take _).length ∧ ((octetsOf bits).take _).length ≤ 3 + maxInfo
    rw [List.length_take, size]
    omega
  next different =>
    cases found
    exact fun same => different same.symm

theorem Yielded.possible (representable : shortestFrame + maxInfo < UInt64.size) {item : Item}
    (h : Yielded maxInfo item) : Possible maxInfo item := by
  cases h with
  | tooLong =>
    rw [Deframer.tooLong_eq representable]
    exact ⟨rfl, rfl⟩
  | verdict short found => exact possible_verdict representable short found

namespace Deframer

open Candidate

variable {d : Deframer}

/-- What a deframer is given: a bit, or the order to begin anew. -/
inductive Input
  | bit (b : Bool)
  | reset
deriving DecidableEq, Repr

/-- What it makes of that. -/
def take (d : Deframer) : Input → Deframer × Option Item
  | .bit b => d.step b
  | .reset => (d.reset, none)

/-- What it makes of all that it is given, with the items in order. -/
def takeAll (d : Deframer) : List Input → Deframer × List Item
  | [] => (d, [])
  | input :: inputs =>
    let (after, item) := d.take input
    let (last, items) := after.takeAll inputs
    (last, item.toList ++ items)

theorem takeAll_bits (bits : List Bool) :
    ∀ d : Deframer, d.takeAll (bits.map .bit) = d.feed bits := by
  induction bits with
  | nil => exact fun _ => rfl
  | cons b bits ih =>
    intro d
    rw [List.map_cons, takeAll, feed_cons]
    simp only [take, ih]

/-- The maximum is this one, and the candidate, if there is one, is in its bounds. -/
structure InBounds (maxInfo : Nat) (d : Deframer) : Prop where
  maxInfo_eq : d.maxInfo = maxInfo
  candidate : ∀ c, d.phase = .collecting c → c.InBounds maxInfo

theorem inBounds_holding (representable : shortestFrame + maxInfo < UInt64.size)
    (bits : List Bool) (heldZero : Bool) {ones : Nat} (run : ones ≤ 6)
    (short : bits.length < bitLimit maxInfo) :
    (holding bits heldZero ones).InBounds maxInfo := by
  obtain ⟨inOctet, value⟩ := sound_holding bits heldZero ones
  have octets : bits.length / 8 ≤ maxInfo + 5 := by
    rw [bitLimit_eq representable, shortestFrame, Frame.headerSize] at short
    omega
  exact ⟨run, Nat.le_of_lt_succ inOctet, value, (size_holding bits heldZero ones).symm ▸ octets⟩

theorem Reached.inBounds (representable : shortestFrame + maxInfo < UInt64.size)
    (h : Reached maxInfo d) : d.InBounds maxInfo := by
  refine ⟨h.maxInfo_eq, ?_⟩
  intro c collecting
  cases h with
  | hunting sawFlag recent => cases collecting
  | between bits heldZero ones run short =>
    cases collecting
    exact inBounds_holding representable bits heldZero run short

theorem Reached.yielded_step (h : Reached maxInfo d) {b : Bool} {item : Item}
    (yielded : (d.step b).2 = some item) : Yielded maxInfo item := by
  cases h with
  | hunting sawFlag recent =>
    rw [step_hunting] at yielded
    split at yielded
    · cases yielded
    · cases yielded
  | between bits heldZero ones run short =>
    by_cases six : ones = 6
    · subst six
      cases b with
      | true => cases yielded
      | false =>
        rw [step_zero_of_six] at yielded
        exact .verdict short yielded
    · have run' : ones < 6 := by omega
      cases b with
      | true =>
        rw [step_one run'] at yielded
        cases yielded
      | false =>
        by_cases fits : (bits ++ pending heldZero ones).length < bitLimit maxInfo
        · rw [step_zero run' fits] at yielded
          cases yielded
        · rw [step_zero_too_long run' short (Nat.not_lt.mp fits)] at yielded
          cases yielded
          exact .tooLong

theorem Reached.take (h : Reached maxInfo d) (input : Input) :
    Reached maxInfo (d.take input).1 ∧ (d.take input).1.inHand ≤ d.inHand + 1 ∧
      ∀ item ∈ (d.take input).2, Yielded maxInfo item := by
  cases input with
  | bit b => exact ⟨h.step b, h.inHand_step b, fun _ yielded => h.yielded_step yielded⟩
  | reset =>
    refine ⟨?_, Nat.zero_le _, fun _ none => by cases none⟩
    show Reached maxInfo (new d.maxInfo)
    rw [h.maxInfo_eq]
    exact reached_new

theorem Reached.takeAll (inputs : List Input) : ∀ {d : Deframer}, Reached maxInfo d →
    Reached maxInfo (d.takeAll inputs).1 ∧ (d.takeAll inputs).1.inHand ≤ d.inHand + inputs.length ∧
      ∀ item ∈ (d.takeAll inputs).2, Yielded maxInfo item := by
  induction inputs with
  | nil => exact fun h => ⟨h, Nat.le_refl _, fun _ none => by cases none⟩
  | cons input inputs ih =>
    intro d h
    obtain ⟨reached, more, first⟩ := h.take input
    obtain ⟨last, most, later⟩ := ih reached
    refine ⟨last, ?_, ?_⟩
    · rw [List.length_cons]
      exact Nat.le_trans most (by omega)
    · intro item yielded
      rcases List.mem_append.mp yielded with now | then'
      · exact first item (Option.mem_toList.mp now)
      · exact later item then'

theorem Reached.yielded_feed (h : Reached maxInfo d) (bits : List Bool) :
    ∀ item ∈ (d.feed bits).2, Yielded maxInfo item := by
  rw [← takeAll_bits]
  exact (h.takeAll _).2.2

end Deframer

/-- There is room for all content that is accepted: loading it adds no refusal and changes no
octet. -/
theorem Possible.map_octets_bind_load {item : Item} (possible : Possible maxInfo item)
    {f : Frame} (same : f.maxInfo = maxInfo) : (item.bind f.load).map Frame.octets = item := by
  cases item with
  | error cause => rfl
  | ok content =>
    obtain ⟨header, room⟩ := possible
    match content, header, room with
    | high :: low :: control :: info, _, room =>
      have fits : info.length ≤ f.maxInfo := by
        simp only [List.length_cons, Frame.headerSize] at room
        omega
      show (f.load (high :: low :: control :: info)).map Frame.octets = _
      rw [Frame.load, if_neg (Nat.not_lt.mpr fits)]
      rfl

namespace Deframer

theorem Reached.map_octets_read (representable : shortestFrame + maxInfo < UInt64.size)
    (h : Reached maxInfo d) (data : Octets) :
    (d.read data).2.map (Except.map Frame.octets) = (d.feed (lineBits data)).2 := by
  have unchanged : ∀ item ∈ (d.feed (lineBits data)).2,
      (toFrame maxInfo item).map Frame.octets = item :=
    fun item yielded =>
      ((h.yielded_feed _ item yielded).possible representable).map_octets_bind_load rfl
  rw [read_eq, List.map_map, h.maxInfo_eq]
  exact (List.map_congr_left unchanged).trans (List.map_id _)

end Deframer

/-- Reading a frame comes to the first item of the deframer, with nothing added by loading it. -/
theorem map_octets_decodeHdlc (representable : shortestFrame + maxInfo < UInt64.size) {f : Frame}
    (same : f.maxInfo = maxInfo) (data : Octets) :
    (f.decodeHdlc data).map Frame.octets =
      ((Deframer.new maxInfo).feed (lineBits data)).2.head?.getD
        (.error (if flag <:+: lineBits data then .incompleteFrame else .noFlag)) := by
  subst same
  cases found : ((Deframer.new f.maxInfo).feed (lineBits data)).2.head? with
  | none =>
    rw [Frame.decodeHdlc_of_silent (List.head?_eq_none_iff.mp found)]
    rfl
  | some item =>
    have yielded := Deframer.reached_new.yielded_feed _ item (List.mem_of_head? found)
    rw [Frame.decodeHdlc_of_head found, Option.getD_some]
    exact (yielded.possible representable).map_octets_bind_load rfl

/-- Whatever a deframer has been given, its candidate is in bounds and what it has yielded is
possible. No number of it leaves its word as it takes another bit, as long as the bits that it has
been given, or those that its maximum leaves room for, can be counted in sixty-four bits: a closing
flag has the bits of the candidate counted. Frames that are read from it, and from octets that are
complete in themselves, are what it yields: loading refuses nothing. -/
theorem Deframer.takeAll_bounds (representable : shortestFrame + maxInfo < UInt64.size)
    (inputs : List Deframer.Input) :
    let d := ((Deframer.new maxInfo).takeAll inputs).1
    d.InBounds maxInfo ∧
      (inputs.length < UInt64.size ∨ Deframer.bitLimit maxInfo ≤ UInt64.size →
        ∀ b, d.stepChecked b = some (d.step b)) ∧
      (∀ item ∈ ((Deframer.new maxInfo).takeAll inputs).2, Possible maxInfo item) ∧
      (∀ data, (d.read data).2.map (Except.map Frame.octets) = (d.feed (lineBits data)).2) ∧
      ∀ (f : Frame) (data : Octets), f.maxInfo = maxInfo →
        (f.decodeHdlc data).map Frame.octets =
          ((Deframer.new maxInfo).feed (lineBits data)).2.head?.getD
            (.error (if flag <:+: lineBits data then .incompleteFrame else .noFlag)) := by
  intro d
  obtain ⟨reached, inHand, yielded⟩ := (Deframer.Reached.takeAll inputs
    (Deframer.reached_new : Deframer.Reached maxInfo _))
  refine ⟨reached.inBounds representable, ?_,
    fun item found => (yielded item found).possible representable,
    reached.map_octets_read representable,
    fun f data same => map_octets_decodeHdlc representable same data⟩
  intro countable
  apply reached.stepChecked representable
  rcases countable with given | room
  · calc d.bitCount ≤ d.inHand := d.bitCount_le_inHand
      _ ≤ 0 + inputs.length := inHand
      _ = inputs.length := Nat.zero_add _
      _ < UInt64.size := given
  · exact Nat.lt_of_lt_of_le reached.bitCount_lt room

/-- A candidate that is too short, one that is not in octets and one that is too long for two
octets of information, a flag that is forgotten, and a candidate in progress. -/
theorem Deframer.takeAll_bounds_after_refusals :
    let bits (taken : List Bool) : List Deframer.Input := taken.map .bit
    let inputs := bits (flag ++ lsbFirst 0x05 ++ flag ++ List.replicate 11 false ++ flag ++
      List.replicate 65 false ++ flag) ++ [.reset] ++ bits (flag ++ [false, true, true])
    let d := ((Deframer.new 2).takeAll inputs).1
    shortestFrame + 2 < UInt64.size ∧ inputs.length < UInt64.size ∧
      ((Deframer.new 2).takeAll inputs).2 =
        [.error (.frameTooShort 1), .error (.misaligned 11), .error (.infoTooLarge 3 2)] ∧
      Possible 2 (.error (.infoTooLarge 3 2)) ∧ d.InBounds 2 ∧
      d.stepChecked false = some (d.step false) := by
  intro bits inputs d
  have representable : shortestFrame + 2 < UInt64.size := by decide
  have few : inputs.length < UInt64.size := by decide +kernel
  have items : ((Deframer.new 2).takeAll inputs).2 =
      [.error (.frameTooShort 1), .error (.misaligned 11), .error (.infoTooLarge 3 2)] := by
    decide +kernel
  obtain ⟨inBounds, checked, possible, _⟩ := takeAll_bounds representable inputs
  have last := possible (.error (.infoTooLarge 3 2)) (by rw [items]; decide)
  exact ⟨representable, few, items, last, inBounds, checked (.inl few) false⟩

end SimplexControl.Hdlc
