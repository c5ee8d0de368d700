import SimplexControl.Proofs.Hdlc.Reached

/-!
# A deframer in words

The numbers of a deframer have words to stand in: the octet in progress, the count of its bits and
the run of ones an octet each, and sizes sixty-four bits. `stepChecked` takes a bit as `step` does,
but fails where a number would not fit its word, a bit would be shifted out of it or a difference
would be below zero. None of this happens in a state that a deframer comes to.
-/

namespace SimplexControl.Hdlc

/-- The number, if it is one of the first `size` numbers. -/
def fitting (size n : Nat) : Option Nat := if n < size then some n else none

/-- The difference, if it is not below zero. -/
def difference? (m n : Nat) : Option Nat := if n ≤ m then some (m - n) else none

theorem fitting_of_lt {size n : Nat} (fits : n < size) : fitting size n = some n := if_pos fits

theorem difference?_of_le {m n : Nat} (less : n ≤ m) : difference? m n = some (m - n) :=
  if_pos less

namespace Candidate

/-- Adds a bit of content at its place in the octet in progress. -/
def pushChecked (c : Candidate) (b : Bool) : Option Candidate := do
  let place ← fitting 8 c.bits
  let value ← fitting UInt8.size (c.value ||| bitValue b <<< place)
  let bits ← fitting UInt8.size (c.bits + 1)
  if bits = 8 then
    some { c with octets := c.octets.push (UInt8.ofNat value), value := 0, bits := 0 }
  else some { c with value := value, bits := bits }

/-- Adds the bits that are pending. -/
def flushChecked (c : Candidate) : Option Candidate :=
  (pending c.heldZero c.ones).foldlM pushChecked c

/-- What the candidate comes to when a flag closes it. -/
def closeChecked (c : Candidate) : Option (Option Item) := do
  let bits ← fitting UInt64.size (c.octets.size * 8 + c.bits)
  if bits < 8 then some none
  else if c.bits ≠ 0 then some (some (.error (.misaligned bits)))
  else if c.octets.size < shortestFrame then some (some (.error (.frameTooShort c.octets.size)))
  else
    let _ ← difference? c.octets.size 2
    some (some (verify c.octets.toList))

variable {c : Candidate}

/-- The place of a bit is free, so it makes no difference whether the bit is joined or added. -/
theorem Sound.or_eq_add (h : c.Sound) (b : Bool) :
    c.value ||| bitValue b <<< c.bits = c.value + bitValue b <<< c.bits := by
  have below : c.value < 2 ^ c.bits := by
    rw [← Nat.one_shiftLeft]
    exact h.2
  rw [Nat.or_comm, ← Nat.shiftLeft_add_eq_or_of_lt below, Nat.add_comm]

/-- The octet in progress stays an octet. -/
theorem Sound.add_lt (h : c.Sound) (b : Bool) :
    c.value + bitValue b <<< c.bits < UInt8.size := by
  have bit : bitValue b <<< c.bits ≤ 1 <<< c.bits := by cases b <;> simp [bitValue]
  have whole : 1 <<< c.bits ≤ 1 <<< 7 := by
    rw [Nat.one_shiftLeft, Nat.one_shiftLeft]
    exact Nat.pow_le_pow_right (by decide) (Nat.le_of_lt_succ h.1)
  have half : 1 <<< 7 + 1 <<< 7 = UInt8.size := rfl
  have below := h.2
  omega

theorem Sound.pushChecked (h : c.Sound) (b : Bool) : c.pushChecked b = some (c.push b) := by
  have place := fitting_of_lt h.1
  have value := fitting_of_lt (h.add_lt b)
  have bits : fitting UInt8.size (c.bits + 1) = some (c.bits + 1) :=
    fitting_of_lt (Nat.lt_trans (Nat.succ_lt_succ h.1) (by decide))
  simp only [Candidate.pushChecked, Candidate.push, place, Option.bind_eq_bind, Option.bind_some,
    h.or_eq_add, value, bits, Nat.succ.injEq]
  split <;> rfl

theorem foldlM_pushChecked (bits : List Bool) : ∀ {c : Candidate}, c.Sound →
    bits.foldlM Candidate.pushChecked c = some (bits.foldl push c) := by
  induction bits with
  | nil => exact fun _ => rfl
  | cons b bits ih =>
    intro c h
    rw [List.foldlM_cons, h.pushChecked b, Option.bind_eq_bind, Option.bind_some]
    exact ih (h.push b)

theorem ones_push (c : Candidate) (b : Bool) : (c.push b).ones = c.ones := by
  unfold push
  split <;> rfl

theorem foldl_pending (c : Candidate) : (pending c.heldZero c.ones).foldl push c = c.flush := by
  have run (n : Nat) : ∀ c : Candidate,
      (List.replicate n true).foldl push c = Nat.repeat (·.push true) n c := by
    induction n with
    | zero => exact fun _ => rfl
    | succ n ih =>
      intro c
      rw [List.replicate_succ', List.foldl_append, ih]
      rfl
  rw [pending, List.foldl_append, run, flush]
  cases c.heldZero with
  | false => rfl
  | true => exact congrArg (Nat.repeat (·.push true) · (c.push false)) (c.ones_push false).symm

theorem Sound.flushChecked (h : c.Sound) : c.flushChecked = some c.flush := by
  rw [Candidate.flushChecked, foldlM_pushChecked _ h, foldl_pending]

theorem closeChecked_eq (countable : c.bitCount < UInt64.size) :
    c.closeChecked = some c.close := by
  have bits : fitting UInt64.size (c.octets.size * 8 + c.bits) = some c.bitCount :=
    fitting_of_lt countable
  simp only [closeChecked, close, bits, Option.bind_eq_bind, Option.bind_some]
  split
  · rfl
  split
  · rfl
  split
  · rfl
  next long =>
    have enough : 2 ≤ c.octets.size := Nat.le_trans (by decide) (Nat.not_lt.mp long)
    rw [difference?_of_le enough]
    rfl

end Candidate

namespace Deframer

open Candidate

/-- Goes on with a candidate that has just grown, unless it has become too long. -/
def keepChecked (maxInfo : Nat) (sawFlag : Bool) (c : Candidate) :
    Option (Deframer × Option Item) := do
  let limit ← fitting UInt64.size (shortestFrame + maxInfo)
  if c.octets.size ≤ limit then some (⟨maxInfo, sawFlag, .collecting c⟩, none)
  else
    let size ← difference? c.octets.size shortestFrame
    some (hunt maxInfo sawFlag, some (.error (.infoTooLarge size maxInfo)))

/-- Takes one bit. The hunt shifts its bits out on purpose. -/
def stepChecked (d : Deframer) (b : Bool) : Option (Deframer × Option Item) :=
  match d, b with
  | ⟨_, _, .hunting _⟩, b => some (d.step b)
  | ⟨maxInfo, sawFlag, .collecting c⟩, true => do
    let ones ← fitting UInt8.size (c.ones + 1)
    if 7 ≤ ones then some (hunt maxInfo sawFlag, none)
    else some (⟨maxInfo, sawFlag, .collecting { c with ones := ones }⟩, none)
  | ⟨maxInfo, sawFlag, .collecting c⟩, false =>
    if c.ones = 6 then do
      let item ← c.closeChecked
      some (⟨maxInfo, sawFlag, .collecting .empty⟩, item)
    else do
      let flushed ← c.flushChecked
      keepChecked maxInfo sawFlag { flushed with heldZero := c.ones != stuffAfter, ones := 0 }

variable {maxInfo : Nat}

/-- A candidate that has become too long by one octet at most has its sums in 64 bits. -/
theorem keepChecked_eq (representable : shortestFrame + maxInfo < UInt64.size) (sawFlag : Bool)
    {c : Candidate} (short : c.octets.size ≤ octetLimit maxInfo + 1) :
    keepChecked maxInfo sawFlag c = some (keep maxInfo sawFlag c) := by
  have limit : octetLimit maxInfo = shortestFrame + maxInfo := wrapped_of_lt representable
  simp only [keepChecked, keep, fitting_of_lt representable, limit, Option.bind_eq_bind,
    Option.bind_some]
  by_cases long : shortestFrame + maxInfo < c.octets.size
  · have size : c.octets.size = shortestFrame + (maxInfo + 1) := by omega
    have enough : shortestFrame ≤ c.octets.size := size ▸ Nat.le_add_right _ _
    have beyond : excess c = c.octets.size - shortestFrame := by
      rw [excess_eq (by rw [size, limit]; rfl), wrapped_succ_eq representable, size,
        Nat.add_sub_cancel_left]
    rw [if_neg (Nat.not_le.mpr long), if_pos long, difference?_of_le enough, beyond]
    rfl
  · rw [if_pos (Nat.not_lt.mp long), if_neg long]

/-- The bits in hand: those of the candidate, and those of which it is not known yet. -/
def inHand (d : Deframer) : Nat :=
  match d.phase with
  | .hunting _ => 0
  | .collecting c => c.bitCount + (pending c.heldZero c.ones).length

/-- The bits that the candidate has collected. -/
def bitCount (d : Deframer) : Nat :=
  match d.phase with
  | .hunting _ => 0
  | .collecting c => c.bitCount

theorem bitCount_le_inHand (d : Deframer) : d.bitCount ≤ d.inHand := by
  obtain ⟨maxInfo, sawFlag, hunting | collecting⟩ := d
  · exact Nat.le_refl 0
  · exact Nat.le_add_right _ _

theorem bitCount_between (bits : List Bool) (heldZero : Bool) (ones : Nat) :
    (between maxInfo bits heldZero ones).bitCount = bits.length :=
  bitCount_holding bits heldZero ones

theorem inHand_between (bits : List Bool) (heldZero : Bool) (ones : Nat) :
    (between maxInfo bits heldZero ones).inHand = bits.length + (pending heldZero ones).length :=
  congrArg (· + _) (bitCount_holding bits heldZero ones)

/-- The maximum limits the candidate. -/
theorem Reached.bitCount_lt {d : Deframer} (h : Reached maxInfo d) :
    d.bitCount < bitLimit maxInfo := by
  cases h with
  | hunting sawFlag recent => exact bitLimit_pos maxInfo
  | between bits heldZero ones run short => rwa [bitCount_between]

/-- A bit adds no more than itself to what is in hand. -/
theorem Reached.inHand_step {d : Deframer} (h : Reached maxInfo d) (b : Bool) :
    (d.step b).1.inHand ≤ d.inHand + 1 := by
  cases h with
  | hunting sawFlag recent =>
    rw [step_hunting]
    split
    · exact Nat.zero_le _
    · exact Nat.zero_le _
  | between bits heldZero ones run short =>
    by_cases six : ones = 6
    · subst six
      cases b with
      | true => exact Nat.zero_le _
      | false =>
        rw [step_zero_of_six]
        exact Nat.zero_le _
    · have run' : ones < 6 := by omega
      cases b with
      | true =>
        rw [step_one run', inHand_between, inHand_between, pending_succ, List.length_append]
        exact Nat.le_refl _
      | false =>
        by_cases fits : (bits ++ pending heldZero ones).length < bitLimit maxInfo
        · rw [step_zero run' fits, inHand_between, inHand_between, List.length_append]
          have held := length_pending_le (ones != stuffAfter) 0
          omega
        · rw [step_zero_too_long run' short (Nat.not_lt.mp fits)]
          exact Nat.zero_le _

/-- In a state that a deframer comes to all numbers fit, as long as the bits of the candidate can
be counted. -/
theorem Reached.stepChecked {d : Deframer} (h : Reached maxInfo d)
    (representable : shortestFrame + maxInfo < UInt64.size) (countable : d.bitCount < UInt64.size)
    (b : Bool) : d.stepChecked b = some (d.step b) := by
  cases h with
  | hunting sawFlag recent => rfl
  | between bits heldZero ones run short =>
    have sound := sound_holding bits heldZero ones
    cases b with
    | true =>
      have counted : fitting UInt8.size (ones + 1) = some (ones + 1) :=
        fitting_of_lt (Nat.lt_of_le_of_lt (Nat.succ_le_succ run) (by decide))
      show (fitting UInt8.size (ones + 1) >>= _) = _
      rw [counted, Option.bind_eq_bind, Option.bind_some]
      by_cases six : ones = 6
      · subst six
        rfl
      · rw [if_neg (by omega), step_one (by omega)]
        rfl
    | false =>
      by_cases six : ones = 6
      · subst six
        have closed := closeChecked_eq (c := holding bits heldZero 6) countable
        show ((holding bits heldZero 6).closeChecked >>= _) = _
        rw [closed, close_holding, step_zero_of_six]
        rfl
      · show (if ones = 6 then _ else (holding bits heldZero ones).flushChecked >>= _) = _
        have size : (holding (bits ++ pending heldZero ones) (ones != stuffAfter) 0).octets.size ≤
            octetLimit maxInfo + 1 := by
          have added := length_pending_le heldZero ones
          rw [bitLimit] at short
          rw [size_holding, List.length_append]
          omega
        rw [if_neg six, sound.flushChecked, flush_holding, Option.bind_eq_bind, Option.bind_some,
          step_zero_eq_keep (by omega), ← keepChecked_eq representable true size]
        rfl

end Deframer

end SimplexControl.Hdlc
