import SimplexControl.Proofs.Hdlc.Verdict

/-!
# A deframer between flags

A candidate is known by three things: the content it has collected, whether a zero is held back
behind it, and how many ones have come since. `Deframer.between` is the deframer with such a
candidate, and each bit takes one of these states to another one, to the hunt, or to the closing
flag. The stuffed form of a string of bits is so collected as that string, and a flag behind it
gives its verdict.
-/

namespace SimplexControl.Hdlc

namespace Candidate

/-- The candidate with this content, behind which a zero may be held back and ones counted. -/
def holding (bits : List Bool) (heldZero : Bool) (ones : Nat) : Candidate :=
  { bits.foldl push empty with heldZero := heldZero, ones := ones }

/-- The bits of which it is not known yet whether they are content. -/
def pending (heldZero : Bool) (ones : Nat) : List Bool :=
  (if heldZero then [false] else []) ++ List.replicate ones true

theorem length_pending_le (heldZero : Bool) (ones : Nat) :
    (pending heldZero ones).length ≤ ones + 1 := by
  cases heldZero <;> simp [pending]

theorem pending_succ (heldZero : Bool) (ones : Nat) :
    pending heldZero (ones + 1) = pending heldZero ones ++ [true] := by
  rw [pending, pending, List.replicate_succ', List.append_assoc]

theorem push_holding (bits : List Bool) (heldZero : Bool) (ones : Nat) (b : Bool) :
    (holding bits heldZero ones).push b = holding (bits ++ [b]) heldZero ones := by
  rw [holding, holding, List.foldl_append, List.foldl_cons, List.foldl_nil]
  unfold push
  split <;> rfl

theorem repeat_push_holding (bits : List Bool) (heldZero : Bool) (ones n : Nat) :
    Nat.repeat (·.push true) n (holding bits heldZero ones) =
      holding (bits ++ List.replicate n true) heldZero ones := by
  induction n with
  | zero => rw [List.replicate_zero, List.append_nil]; rfl
  | succ n ih =>
    rw [Nat.repeat, ih, push_holding, List.replicate_succ', List.append_assoc]

/-- A flush makes content of the bits that are pending. -/
theorem flush_holding (bits : List Bool) (heldZero : Bool) (ones : Nat) :
    (holding bits heldZero ones).flush =
      holding (bits ++ pending heldZero ones) heldZero ones := by
  cases heldZero with
  | false => exact repeat_push_holding bits false ones ones
  | true =>
    have held : (holding bits true ones).flush =
        Nat.repeat (·.push true) ones ((holding bits true ones).push false) := by
      rw [flush, push_holding]
      rfl
    rw [held, push_holding, repeat_push_holding, pending, List.append_assoc]
    rfl

theorem sound_foldl_push (bits : List Bool) :
    ∀ c : Candidate, c.Sound →
      (bits.foldl push c).Sound ∧ (bits.foldl push c).content = c.content ++ bits := by
  induction bits with
  | nil => intro c h; exact ⟨h, (List.append_nil _).symm⟩
  | cons b bits ih =>
    intro c h
    obtain ⟨sound, content⟩ := ih (c.push b) (h.push b)
    refine ⟨sound, ?_⟩
    rw [List.foldl_cons, content, content_push h, List.append_assoc, List.singleton_append]

theorem sound_holding (bits : List Bool) (heldZero : Bool) (ones : Nat) :
    (holding bits heldZero ones).Sound :=
  (sound_foldl_push bits empty sound_empty).1

theorem content_holding (bits : List Bool) (heldZero : Bool) (ones : Nat) :
    (holding bits heldZero ones).content = bits :=
  (sound_foldl_push bits empty sound_empty).2

theorem bitCount_holding (bits : List Bool) (heldZero : Bool) (ones : Nat) :
    (holding bits heldZero ones).bitCount = bits.length := by
  rw [← length_content, content_holding]

theorem size_holding (bits : List Bool) (heldZero : Bool) (ones : Nat) :
    (holding bits heldZero ones).octets.size = bits.length / 8 := by
  have count := bitCount_holding bits heldZero ones
  have inOctet := (sound_holding bits heldZero ones).1
  rw [bitCount] at count
  omega

theorem bits_holding (bits : List Bool) (heldZero : Bool) (ones : Nat) :
    (holding bits heldZero ones).bits = bits.length % 8 := by
  have count := bitCount_holding bits heldZero ones
  have inOctet := (sound_holding bits heldZero ones).1
  rw [bitCount] at count
  omega

theorem octets_holding (bits : List Bool) (heldZero : Bool) (ones : Nat) :
    (holding bits heldZero ones).octets.toList = octetsOf bits := by
  have content := content_holding bits heldZero ones
  have inOctet := (sound_holding bits heldZero ones).1
  have octets := octetsOf_contentBits_append (holding bits heldZero ones).octets.toList
    (lowBits (holding bits heldZero ones).bits (holding bits heldZero ones).value)
    (by rw [length_lowBits]; exact inOctet)
  rw [Candidate.content] at content
  rw [content] at octets
  exact octets.symm

/-- A flag closes a candidate with the verdict on its content. -/
theorem close_holding (bits : List Bool) (heldZero : Bool) (ones : Nat) :
    (holding bits heldZero ones).close = verdict bits := by
  have count := size_holding bits heldZero ones
  have size : (octetsOf bits).length = bits.length / 8 := by
    rw [← octets_holding bits heldZero ones, Array.length_toList, count]
  have offset (i : Nat) (xs : Octets) (n : Nat) :
      Octets.octetAt (xs.drop n) i = xs.octetAt (n + i) := by
    simp [Octets.octetAt, List.getD_eq_getElem?_getD]
  unfold close verdict verify
  simp only [bitCount_holding, bits_holding, count, octets_holding, size, offset]
  by_cases few : bits.length < 8
  · rw [if_pos few, if_pos few]
  · rw [if_neg few, if_neg few]
    by_cases aligned : bits.length % 8 ≠ 0
    · rw [if_pos aligned, if_pos aligned]
    · rw [if_neg aligned, if_neg aligned]
      by_cases short : bits.length / 8 < shortestFrame
      · rw [if_pos short, if_pos short]
      · have last : bits.length / 8 - 2 + 1 = bits.length / 8 - 1 := by
          rw [shortestFrame] at short
          omega
        rw [if_neg short, if_neg short, last, Nat.add_zero]
        split <;> rfl

end Candidate

namespace Deframer

open Candidate

/-- The number of bits of content with which a candidate has become too long. -/
def bitLimit (maxInfo : Nat) : Nat := 8 * (octetLimit maxInfo + 1)

theorem bitLimit_pos (maxInfo : Nat) : 0 < bitLimit maxInfo :=
  Nat.mul_pos (Nat.succ_pos 7) (Nat.succ_pos _)

/-- Under a maximum that can be counted together with a frame there is room for the maximum. -/
theorem bitLimit_eq {maxInfo : Nat} (representable : shortestFrame + maxInfo < UInt64.size) :
    bitLimit maxInfo = 8 * (shortestFrame + maxInfo + 1) := by
  rw [bitLimit, octetLimit, wrapped_of_lt representable]

/-- The refusal of a candidate that has become too long. -/
def tooLong (maxInfo : Nat) : Item := .error (.infoTooLarge (wrapped (maxInfo + 1)) maxInfo)

theorem wrapped_succ_eq {maxInfo : Nat} (representable : shortestFrame + maxInfo < UInt64.size) :
    wrapped (maxInfo + 1) = maxInfo + 1 := by
  rw [shortestFrame] at representable
  exact wrapped_of_lt (by omega)

theorem tooLong_eq {maxInfo : Nat} (representable : shortestFrame + maxInfo < UInt64.size) :
    tooLong maxInfo = .error (.infoTooLarge (maxInfo + 1) maxInfo) := by
  rw [tooLong, wrapped_succ_eq representable]

/-- One octet beyond the limit is one octet of information beyond the maximum, also where the limit
has wrapped around. -/
theorem excess_eq {maxInfo : Nat} {c : Candidate} (size : c.octets.size = octetLimit maxInfo + 1) :
    excess c = wrapped (maxInfo + 1) := by
  rw [excess, size, octetLimit, shortestFrame, Frame.headerSize]
  simp only [wrapped, UInt64.size]
  omega

/-- A deframer with a candidate. -/
def between (maxInfo : Nat) (bits : List Bool) (heldZero : Bool) (ones : Nat) : Deframer :=
  ⟨maxInfo, true, .collecting (holding bits heldZero ones)⟩

/-- A deframer that has just met a flag. -/
def afterFlag (maxInfo : Nat) : Deframer := between maxInfo [] false 0

variable {maxInfo ones : Nat} {bits : List Bool} {heldZero : Bool}

/-! ## One bit -/

theorem step_one (few : ones < 6) :
    (between maxInfo bits heldZero ones).step true =
      (between maxInfo bits heldZero (ones + 1), none) :=
  if_pos few

theorem step_seventh_one :
    (between maxInfo bits heldZero 6).step true = (hunt maxInfo true, none) := rfl

theorem step_zero_of_six :
    (between maxInfo bits heldZero 6).step false = (afterFlag maxInfo, verdict bits) := by
  rw [← close_holding bits heldZero 6]
  rfl

/-- A zero that is not the end of a flag makes content of the bits that were pending. -/
theorem step_zero_eq_keep (few : ones < 6) :
    (between maxInfo bits heldZero ones).step false =
      keep maxInfo true (holding (bits ++ pending heldZero ones) (ones != stuffAfter) 0) := by
  have flushed := flush_holding bits heldZero ones
  by_cases full : ones = stuffAfter
  · subst full
    show keep maxInfo true { (holding bits heldZero stuffAfter).flush with
      heldZero := false, ones := 0 } = _
    rw [flushed]
    rfl
  · have held : (ones != stuffAfter) = true := by simpa using full
    have branch : (between maxInfo bits heldZero ones).step false =
        keep maxInfo true { (holding bits heldZero ones).flush with
          heldZero := true, ones := 0 } :=
      (if_neg full).trans (if_neg (by show ones ≠ 6; omega))
    rw [branch, flushed, held]
    rfl

theorem step_zero (few : ones < 6)
    (fits : (bits ++ pending heldZero ones).length < bitLimit maxInfo) :
    (between maxInfo bits heldZero ones).step false =
      (between maxInfo (bits ++ pending heldZero ones) (ones != stuffAfter) 0, none) := by
  rw [step_zero_eq_keep few, keep, size_holding]
  rw [bitLimit] at fits
  rw [if_neg (by omega)]
  rfl

/-- The bits of one zero cannot fill two octets, so a candidate that becomes too long does so by
one octet. -/
theorem step_zero_too_long (few : ones < 6) (before : bits.length < bitLimit maxInfo)
    (long : bitLimit maxInfo ≤ (bits ++ pending heldZero ones).length) :
    (between maxInfo bits heldZero ones).step false =
      (hunt maxInfo true, some (tooLong maxInfo)) := by
  have added := length_pending_le heldZero ones
  rw [bitLimit] at before long
  have size : (bits ++ pending heldZero ones).length / 8 = octetLimit maxInfo + 1 := by
    rw [List.length_append] at long ⊢
    omega
  rw [step_zero_eq_keep few, keep, size_holding, size, if_pos (Nat.lt_succ_self _),
    excess_eq ((size_holding _ _ _).trans size), tooLong]

/-! ## Runs of ones and flags -/

theorem feed_ones (n : Nat) : ∀ ones, ones + n ≤ 6 →
    (between maxInfo bits heldZero ones).feed (List.replicate n true) =
      (between maxInfo bits heldZero (ones + n), []) := by
  induction n with
  | zero => intro ones _; rfl
  | succ n ih =>
    intro ones few
    rw [List.replicate_succ, feed_cons, step_one (by omega), ih (ones + 1) (by omega),
      Nat.add_right_comm]
    rfl

/-- What follows the first zero of a flag closes the candidate. -/
theorem feed_flag_tail :
    (between maxInfo bits heldZero 0).feed (List.replicate 6 true ++ [false]) =
      (afterFlag maxInfo, (verdict bits).toList) := by
  rw [feed_append, feed_ones 6 0 (Nat.le_refl 6), feed_cons, step_zero_of_six, feed_nil]
  simp

theorem flag_eq_cons : flag = false :: (List.replicate 6 true ++ [false]) := by decide

/-- A flag gives the verdict on the bits since the last one. -/
theorem feed_flag (few : ones < 6)
    (fits : (bits ++ pending heldZero ones).length < bitLimit maxInfo) :
    (between maxInfo bits heldZero ones).feed flag =
      (afterFlag maxInfo, (verdict (bits ++ pending heldZero ones)).toList) := by
  rw [flag_eq_cons, feed_cons, step_zero few fits, feed_flag_tail]
  rfl

/-- Six ones are the middle of a flag already, which its zero completes. -/
theorem feed_flag_of_six :
    (between maxInfo bits heldZero 6).feed flag =
      (afterFlag maxInfo, (verdict bits).toList) := by
  rw [flag_eq_cons, feed_cons, step_zero_of_six, afterFlag, feed_flag_tail, verdict_nil]
  exact congrArg _ (List.append_nil _)

theorem feed_flag_afterFlag : (afterFlag maxInfo).feed flag = (afterFlag maxInfo, []) := by
  have room : ([] ++ pending false 0).length < bitLimit maxInfo := bitLimit_pos maxInfo
  rw [afterFlag, feed_flag (Nat.succ_pos 5) room]
  rfl

/-! ## Stuffed content -/

/-- A bit of content, with the zero stuffed behind it if there is one, is collected or makes the
candidate too long. -/
theorem feed_stuffed_bit (heldZero b : Bool) (more : List Bool) (few : ones < stuffAfter)
    (before : bits.length < bitLimit maxInfo) :
    ∃ line ones', ones' < stuffAfter ∧ stuffFrom ones (b :: more) = line ++ stuffFrom ones' more ∧
      ((∃ bits' heldZero', bits'.length < bitLimit maxInfo ∧
          bits' ++ pending heldZero' ones' = bits ++ pending heldZero ones ++ [b] ∧
          (between maxInfo bits heldZero ones).feed line =
            (between maxInfo bits' heldZero' ones', [])) ∨
        (ones' = 0 ∧ bitLimit maxInfo ≤ (bits ++ pending heldZero ones ++ [b]).length ∧
          (between maxInfo bits heldZero ones).feed line =
            (hunt maxInfo true, [tooLong maxInfo]))) := by
  have few' : ones < 6 := Nat.lt_succ_of_lt few
  cases b with
  | false =>
    have notFull : (ones != stuffAfter) = true := by simpa using Nat.ne_of_lt few
    refine ⟨[false], 0, stuffAfter_pos, rfl, ?_⟩
    rw [feed_cons, feed_nil]
    by_cases fits : (bits ++ pending heldZero ones).length < bitLimit maxInfo
    · refine .inl ⟨bits ++ pending heldZero ones, true, fits, rfl, ?_⟩
      rw [step_zero few' fits, notFull]
      rfl
    · refine .inr ⟨rfl, ?_, ?_⟩
      · rw [List.length_append]
        omega
      · rw [step_zero_too_long few' before (Nat.not_lt.mp fits)]
        rfl
  | true =>
    by_cases full : ones + 1 = stuffAfter
    · have stuffed : stuffFrom ones (true :: more) = [true, false] ++ stuffFrom 0 more := if_pos full
      have last : bits ++ pending heldZero (ones + 1) = bits ++ pending heldZero ones ++ [true] := by
        rw [pending_succ, List.append_assoc]
      have five : ones + 1 < 6 := by rw [full]; decide
      refine ⟨[true, false], 0, stuffAfter_pos, stuffed, ?_⟩
      rw [feed_cons, step_one few', feed_cons, feed_nil, ← last]
      by_cases fits : (bits ++ pending heldZero (ones + 1)).length < bitLimit maxInfo
      · refine .inl ⟨bits ++ pending heldZero (ones + 1), false, fits, List.append_nil _, ?_⟩
        rw [step_zero five fits, full]
        rfl
      · refine .inr ⟨rfl, Nat.not_lt.mp fits, ?_⟩
        rw [step_zero_too_long five before (Nat.not_lt.mp fits)]
        rfl
    · have plain : stuffFrom ones (true :: more) = [true] ++ stuffFrom (ones + 1) more :=
        if_neg full
      refine ⟨[true], ones + 1, by omega, plain, .inl ⟨bits, heldZero, before, ?_, ?_⟩⟩
      · rw [pending_succ, List.append_assoc]
      · rw [feed_cons, feed_nil, step_one few']
        rfl

/-- The stuffed form of bits is collected as these bits. -/
theorem feed_stuffFrom (more : List Bool) : ∀ bits heldZero ones, ones < stuffAfter →
    (bits ++ pending heldZero ones ++ more).length < bitLimit maxInfo →
    ∃ bits' heldZero' ones', ones' < stuffAfter ∧
      bits' ++ pending heldZero' ones' = bits ++ pending heldZero ones ++ more ∧
      (between maxInfo bits heldZero ones).feed (stuffFrom ones more) =
        (between maxInfo bits' heldZero' ones', []) := by
  induction more with
  | nil =>
    intro bits heldZero ones few _
    exact ⟨bits, heldZero, ones, few, (List.append_nil _).symm, rfl⟩
  | cons b more ih =>
    intro bits heldZero ones few fits
    rw [List.append_cons] at fits ⊢
    have before : bits.length < bitLimit maxInfo := by
      simp only [List.length_append] at fits
      omega
    obtain ⟨line, ones', few', split, collected | ⟨_, long, _⟩⟩ :=
      feed_stuffed_bit heldZero b more few before
    · rcases collected with ⟨bits', heldZero', _, content, after⟩
      rw [← content] at fits ⊢
      obtain ⟨bits'', heldZero'', ones'', few'', content', after'⟩ :=
        ih bits' heldZero' ones' few' fits
      refine ⟨bits'', heldZero'', ones'', few'', content', ?_⟩
      rw [split, feed_append, after, after']
      rfl
    · rw [List.length_append] at fits
      omega

theorem feed_stuff {content : List Bool} (fits : content.length < bitLimit maxInfo) :
    ∃ bits heldZero ones, ones < 6 ∧ bits ++ pending heldZero ones = content ∧
      (afterFlag maxInfo).feed (stuff content) = (between maxInfo bits heldZero ones, []) := by
  have fits' : ([] ++ pending false 0 ++ content).length < bitLimit maxInfo := fits
  obtain ⟨bits, heldZero, ones, few, collected, after⟩ :=
    feed_stuffFrom content [] false 0 stuffAfter_pos fits'
  exact ⟨bits, heldZero, ones, Nat.lt_succ_of_lt few, collected, after⟩

/-- Stuffed content between two flags gives the verdict on the content. -/
theorem feed_stuff_flag {content : List Bool} (fits : content.length < bitLimit maxInfo) :
    (afterFlag maxInfo).feed (stuff content ++ flag) =
      (afterFlag maxInfo, (verdict content).toList) := by
  obtain ⟨bits, heldZero, ones, few, rfl, after⟩ := feed_stuff fits
  rw [feed_append, after, feed_flag few fits]
  rfl

end Deframer

end SimplexControl.Hdlc
