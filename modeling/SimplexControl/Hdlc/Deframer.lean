import SimplexControl.Hdlc.Stuffing
import SimplexControl.Size

/-!
# Finding frames in a stream of bits

A deframer hunts for a flag and then collects the bits up to the next one, taking the stuffed
zeros out. A zero is held back until the run of ones behind it has ended, because a zero, six
ones and a zero are a flag and not content. Seven ones abandon what has been collected and
start the hunt anew, and so does content that is longer than the maximum allows.
-/

namespace SimplexControl.Hdlc

/-- What has been collected since the last flag. -/
structure Candidate where
  /-- The ones in a row since the last zero. -/
  ones : Nat
  /-- Whether that zero is held back. -/
  heldZero : Bool
  /-- The octets that are complete. -/
  octets : Array UInt8
  /-- The bits of the octet in progress, the first of them in the lowest place. -/
  value : Nat
  /-- How many bits the octet in progress has. -/
  bits : Nat

/-- What a deframer is at. -/
inductive Phase
  /-- It looks for a flag in the last eight bits. -/
  | hunting (recent : UInt8)
  /-- It is between flags. -/
  | collecting (candidate : Candidate)

/-- A deframer. -/
structure Deframer where
  /-- The largest information field that is collected. -/
  maxInfo : Nat
  /-- Whether the hunt has ever met a flag. -/
  sawFlag : Bool
  /-- What it is at. -/
  phase : Phase

/-- What a candidate comes to: checked content, or why it is refused. -/
abbrev Item := Except DecodeError Octets

/-- The shortest content between two flags that is a frame: a header and a check sequence. -/
def shortestFrame : Nat := Frame.headerSize + 2

namespace Candidate

/-- Nothing collected yet. -/
def empty : Candidate := ⟨0, false, #[], 0, 0⟩

/-- Adds a bit of content. -/
def push (c : Candidate) (b : Bool) : Candidate :=
  let value := c.value + bitValue b <<< c.bits
  if c.bits = 7 then { c with octets := c.octets.push (UInt8.ofNat value), value := 0, bits := 0 }
  else { c with value := value, bits := c.bits + 1 }

/-- Adds the zero held back, if there is one, and the ones that follow it. -/
def flush (c : Candidate) : Candidate :=
  let c := if c.heldZero then c.push false else c
  Nat.repeat (·.push true) c.ones c

/-- The number of bits collected. -/
def bitCount (c : Candidate) : Nat := c.octets.size * 8 + c.bits

/-- Compares the check sequence in the last two octets with the one of the octets before. -/
def verify (octets : Octets) : Item :=
  let content := octets.take (octets.length - 2)
  let trailer := octets.drop (octets.length - 2)
  let expected := Fcs.ofOctets content
  let received := Fcs.ofReceived (Octets.octetAt trailer 0) (Octets.octetAt trailer 1)
  if received = expected then .ok content else .error (.fcsMismatch expected received)

/-- What a candidate comes to when a flag closes it. Less than an octet is mere filling. -/
def close (c : Candidate) : Option Item :=
  if c.bitCount < 8 then none
  else if c.bits ≠ 0 then some (.error (.misaligned c.bitCount))
  else if c.octets.size < shortestFrame then some (.error (.frameTooShort c.octets.size))
  else some (verify c.octets.toList)

/-- The bits collected, in the order in which they came. -/
def content (c : Candidate) : List Bool := contentBits c.octets.toList ++ lowBits c.bits c.value

/-- The octet in progress is not full, and no bit of it is set that has not come. -/
def Sound (c : Candidate) : Prop := c.bits < 8 ∧ c.value < 1 <<< c.bits

theorem sound_empty : empty.Sound := by simp [Sound, empty]

theorem Sound.push {c : Candidate} (h : c.Sound) (b : Bool) : (c.push b).Sound := by
  have bit : bitValue b <<< c.bits ≤ 1 <<< c.bits := by
    cases b <;> simp [bitValue]
  unfold Candidate.push
  split
  · exact ⟨Nat.zero_lt_succ 7, Nat.one_pos⟩
  · have := h.1
    have := h.2
    constructor
    · show c.bits + 1 < 8
      omega
    · show c.value + bitValue b <<< c.bits < 1 <<< (c.bits + 1)
      rw [Nat.shiftLeft_succ]
      omega

/-- A bit of content comes behind the bits before it. -/
theorem content_push {c : Candidate} (h : c.Sound) (b : Bool) :
    (c.push b).content = c.content ++ [b] := by
  unfold Candidate.push
  split
  case isTrue full =>
    have grown := lowBits_add_shiftLeft h.2 b
    have none : lowBits 0 0 = [] := rfl
    simp only [full] at grown
    simp only [content, Array.toList_push, contentBits_append, full]
    simp only [contentBits, List.flatMap_cons, List.flatMap_nil, List.append_nil, lsbFirst_ofNat,
      grown, List.append_assoc, none]
  case isFalse =>
    simp only [content, lowBits_add_shiftLeft h.2, List.append_assoc]

theorem length_content (c : Candidate) : c.content.length = c.bitCount := by
  simp [content, bitCount, Nat.mul_comm]

end Candidate

namespace Deframer

/-- A deframer that begins to hunt. It starts from ones, so that a flag must show in full. -/
def hunt (maxInfo : Nat) (sawFlag : Bool) : Deframer := ⟨maxInfo, sawFlag, .hunting 0xFF⟩

/-- A deframer before the first bit. -/
def new (maxInfo : Nat) : Deframer := hunt maxInfo false

/-- Forgets everything but the maximum. -/
def reset (d : Deframer) : Deframer := new d.maxInfo

/-- The octets that a candidate may have. Neither this sum nor the difference below is checked. -/
def octetLimit (maxInfo : Nat) : Nat := wrapped (shortestFrame + maxInfo)

/-- The octets of information in a candidate that has become too long. -/
def excess (c : Candidate) : Nat := wrapped (c.octets.size + (UInt64.size - shortestFrame))

/-- Goes on with a candidate that has just grown, unless it has become too long. -/
def keep (maxInfo : Nat) (sawFlag : Bool) (c : Candidate) : Deframer × Option Item :=
  if octetLimit maxInfo < c.octets.size then
    (hunt maxInfo sawFlag, some (.error (.infoTooLarge (excess c) maxInfo)))
  else (⟨maxInfo, sawFlag, .collecting c⟩, none)

/-- Takes one bit and gives the item that it completes, if any. -/
def step (d : Deframer) (b : Bool) : Deframer × Option Item :=
  match d, b with
  | ⟨maxInfo, sawFlag, .hunting recent⟩, b =>
    let recent := recent <<< 1 ||| UInt8.ofNat (bitValue b)
    if recent = flagOctet then (⟨maxInfo, true, .collecting .empty⟩, none)
    else (⟨maxInfo, sawFlag, .hunting recent⟩, none)
  | ⟨maxInfo, sawFlag, .collecting c⟩, true =>
    if c.ones < 6 then (⟨maxInfo, sawFlag, .collecting { c with ones := c.ones + 1 }⟩, none)
    else (hunt maxInfo sawFlag, none)
  | ⟨maxInfo, sawFlag, .collecting c⟩, false =>
    if c.ones = stuffAfter then
      keep maxInfo sawFlag { c.flush with heldZero := false, ones := 0 }
    else if c.ones = 6 then (⟨maxInfo, sawFlag, .collecting .empty⟩, c.close)
    else keep maxInfo sawFlag { c.flush with heldZero := true, ones := 0 }

/-- Takes bits and adds the items that they complete to the ones before. -/
def feedOnto (d : Deframer) (items : Array Item) : List Bool → Deframer × Array Item
  | [] => (d, items)
  | b :: bits =>
    match d.step b with
    | (d, none) => feedOnto d items bits
    | (d, some item) => feedOnto d (items.push item) bits

/-- Takes bits and gives the items that they complete, in order. -/
def feed (d : Deframer) (bits : List Bool) : Deframer × List Item :=
  let (d, items) := d.feedOnto #[] bits
  (d, items.toList)

/-- Takes bits up to the one that completes an item. -/
def feedUntilItem (d : Deframer) : List Bool → Deframer × Option Item
  | [] => (d, none)
  | b :: bits =>
    match d.step b with
    | (d, none) => feedUntilItem d bits
    | (d, some item) => (d, some item)

theorem feedOnto_eq (d : Deframer) (items : Array Item) (bits : List Bool) :
    d.feedOnto items bits = ((d.feed bits).1, items ++ (d.feed bits).2.toArray) := by
  induction bits generalizing d items with
  | nil => simp [feedOnto, feed]
  | cons b bits ih =>
    unfold feed
    rw [feedOnto, feedOnto]
    split
    · rw [ih _ items, ih _ #[]]
      simp
    · rw [ih _ (items.push _), ih _ (#[].push _)]
      simp

@[simp] theorem feed_nil (d : Deframer) : d.feed [] = (d, []) := rfl

/-- The first bit yields its item, if any, before those of the bits behind it. -/
theorem feed_cons (d : Deframer) (b : Bool) (bits : List Bool) :
    d.feed (b :: bits) =
      (((d.step b).1.feed bits).1, (d.step b).2.toList ++ ((d.step b).1.feed bits).2) := by
  cases h : d.step b with
  | mk after item =>
    rw [feed, feedOnto, h]
    cases item with
    | none => simp [feedOnto_eq]
    | some item => simp [feedOnto_eq]

/-- It makes no difference how a stream of bits is divided. -/
theorem feed_append (d : Deframer) (bits more : List Bool) :
    d.feed (bits ++ more) =
      (((d.feed bits).1.feed more).1, (d.feed bits).2 ++ ((d.feed bits).1.feed more).2) := by
  induction bits generalizing d with
  | nil => simp
  | cons b bits ih => simp only [List.cons_append, feed_cons, ih, List.append_assoc]

/-- The first item is the one at which `feedUntilItem` stops. -/
theorem feedUntilItem_snd (d : Deframer) (bits : List Bool) :
    (d.feedUntilItem bits).2 = (d.feed bits).2.head? := by
  induction bits generalizing d with
  | nil => rfl
  | cons b bits ih =>
    rw [feedUntilItem, feed_cons]
    cases h : d.step b with
    | mk after item =>
      cases item with
      | none => simp [ih]
      | some item => simp

end Deframer

end SimplexControl.Hdlc
