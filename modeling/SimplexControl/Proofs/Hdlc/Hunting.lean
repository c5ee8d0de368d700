import SimplexControl.Proofs.Hdlc.Collecting

/-!
# A deframer between candidates

A hunt ends at the next flag, wherever it begins: no earlier than the flag inside stuffed
content, and at its first zero at the earliest if the bits before it were a flag but for their
last zero. Fewer than eight bits between two flags are nothing, so a deframer that is `Idle`
passes from frame to frame over the bits that fill up an octet.
-/

namespace SimplexControl.Hdlc.Deframer

open Candidate

variable {maxInfo : Nat} {sawFlag : Bool}

/-- A deframer that looks for a flag. -/
def hunting (maxInfo : Nat) (sawFlag : Bool) (recent : UInt8) : Deframer :=
  ⟨maxInfo, sawFlag, .hunting recent⟩

/-- The last eight bits when one more has come. -/
def shiftIn (recent : UInt8) (b : Bool) : UInt8 := recent <<< 1 ||| UInt8.ofNat (bitValue b)

theorem toNat_shiftIn (recent : UInt8) (b : Bool) :
    (shiftIn recent b).toNat = (2 * recent.toNat + bitValue b) % 256 := by
  have small : bitValue b < 2 ^ 1 := by cases b <;> decide
  have joined := Nat.two_pow_add_eq_or_of_lt small (recent.toNat % 128)
  have shifted : recent.toNat * 2 % 256 = 2 ^ 1 * (recent.toNat % 128) := by omega
  have bit : bitValue b % 256 = bitValue b := by omega
  simp only [shiftIn, UInt8.toNat_or, UInt8.toNat_shiftLeft, UInt8.toNat_ofNat', Nat.reducePow,
    UInt8.reduceToNat, Nat.reduceMod, Nat.shiftLeft_eq, shifted, bit]
  rw [← joined]
  omega

theorem step_hunting (recent : UInt8) (b : Bool) :
    (hunting maxInfo sawFlag recent).step b =
      if shiftIn recent b = flagOctet then (afterFlag maxInfo, none)
      else (hunting maxInfo sawFlag (shiftIn recent b), none) := rfl

theorem lsbFirst_shiftIn (recent : UInt8) (b : Bool) :
    lsbFirst (shiftIn recent b) = b :: (lsbFirst recent).take 7 := by
  have octet : shiftIn recent b = UInt8.ofNat (2 * recent.toNat + bitValue b) := by
    apply UInt8.toNat_inj.mp
    rw [toNat_shiftIn, UInt8.toNat_ofNat']
  rw [octet, lsbFirst_ofNat, lowBits_double_add, lsbFirst, lowBits, lowBits, ← List.map_take,
    List.take_range]
  rfl

/-- A flag ends with a zero. -/
theorem shiftIn_true_ne_flag (recent : UInt8) : shiftIn recent true ≠ flagOctet := by
  intro found
  have value := toNat_shiftIn recent true
  rw [found] at value
  simp only [flagOctet, bitValue, UInt8.reduceToNat, if_true] at value
  omega

theorem feed_hunting_ones (n : Nat) : ∀ recent,
    (hunting maxInfo sawFlag recent).feed (List.replicate n true) =
      (hunting maxInfo sawFlag ((List.replicate n true).foldl shiftIn recent), []) := by
  induction n with
  | zero => intro recent; rfl
  | succ n ih =>
    intro recent
    rw [List.replicate_succ, feed_cons, step_hunting, if_neg (shiftIn_true_ne_flag recent), ih]
    rfl

/-- A hunt starts from ones, so more of them change nothing. -/
theorem feed_hunt_ones (n : Nat) :
    (hunt maxInfo sawFlag).feed (List.replicate n true) = (hunt maxInfo sawFlag, []) := by
  have same : (List.replicate n true).foldl shiftIn 0xFF = 0xFF := by
    induction n with
    | zero => rfl
    | succ n ih => exact ih
  have start : hunt maxInfo sawFlag = hunting maxInfo sawFlag 0xFF := rfl
  rw [start, feed_hunting_ones, same]

/-- Seven ones in a row abandon a candidate, and more of them change nothing. -/
theorem feed_seven_ones (n : Nat) : ∀ {bits : List Bool} {heldZero : Bool} {ones : Nat},
    ones ≤ 6 → 7 ≤ ones + n →
    (between maxInfo bits heldZero ones).feed (List.replicate n true) =
      (hunt maxInfo true, []) := by
  induction n with
  | zero => intro _ _ _ run many; omega
  | succ n ih =>
    intro bits heldZero ones run many
    rw [List.replicate_succ, feed_cons]
    by_cases six : ones = 6
    · subst six
      rw [step_seventh_one, feed_hunt_ones]
      rfl
    · rw [step_one (by omega), ih (by omega) (by omega)]
      rfl

/-- Whatever came before, the hunt ends with a flag. -/
theorem feed_flag_hunting (recent : UInt8) :
    (hunting maxInfo sawFlag recent).feed flag = (afterFlag maxInfo, []) := by
  rw [flag_eq_cons, feed_cons, step_hunting]
  by_cases early : shiftIn recent false = flagOctet
  · -- The zero is the last one of an earlier flag and the first one of this flag.
    rw [if_pos early, afterFlag, feed_flag_tail, verdict_nil]
    rfl
  · have found : shiftIn ((List.replicate 6 true).foldl shiftIn (shiftIn recent false)) false =
        flagOctet := by
      apply UInt8.toNat_inj.mp
      simp only [List.replicate, List.foldl_cons, List.foldl_nil, toNat_shiftIn, bitValue,
        flagOctet, UInt8.reduceToNat, if_true, Bool.false_eq_true, if_false]
      omega
    rw [if_neg early, feed_append, feed_hunting_ones, feed_cons, step_hunting, if_pos found]
    rfl

theorem feed_flag_hunt :
    (hunt maxInfo sawFlag).feed flag = (afterFlag maxInfo, []) := feed_flag_hunting 0xFF

/-! ## Stuffed content -/

/-- The last bits are so many ones behind a zero, or there is no zero among them: no flag is
complete before this run of ones has grown to six. -/
def Quiet (recent : UInt8) (ones : Nat) : Prop :=
  recent = 0xFF ∨ ∃ older, lsbFirst recent = List.replicate ones true ++ false :: older

theorem Quiet.one {recent : UInt8} {ones : Nat} (few : ones < stuffAfter)
    (h : Quiet recent ones) : Quiet (shiftIn recent true) (ones + 1) := by
  rcases h with rfl | ⟨older, run⟩
  · exact .inl (by decide)
  · have seven : 7 = (List.replicate ones true).length + (6 - ones + 1) := by
      rw [stuffAfter] at few
      rw [List.length_replicate]
      omega
    refine .inr ⟨older.take (6 - ones), ?_⟩
    rw [lsbFirst_shiftIn, run, seven, List.take_length_add_append, List.take_succ_cons,
      List.replicate_succ, List.cons_append]

theorem Quiet.zero {recent : UInt8} {ones : Nat} (few : ones ≤ stuffAfter)
    (h : Quiet recent ones) :
    shiftIn recent false ≠ flagOctet ∧ Quiet (shiftIn recent false) 0 := by
  have grown := lsbFirst_shiftIn recent false
  refine ⟨?_, .inr ⟨_, grown⟩⟩
  intro found
  have bits : lsbFirst flagOctet = false :: (List.replicate 6 true ++ [false]) := by decide
  rw [found, bits, List.cons.injEq] at grown
  rcases h with rfl | ⟨older, run⟩
  · exact absurd grown.2 (by decide)
  · -- The run ends with a zero where a flag has a one.
    have short : ones < 6 := Nat.lt_succ_of_le few
    have one : (List.replicate 6 true ++ [false])[ones]? = some true := by
      rw [List.getElem?_append_left (by simpa using short), List.getElem?_replicate_of_lt short]
    have zero : ((List.replicate ones true ++ false :: older).take 7)[ones]? = some false := by
      rw [List.getElem?_take_of_lt (by omega), List.getElem?_append_right (by simp)]
      simp
    rw [run] at grown
    rw [← grown.2, one] at zero
    cases zero

/-- A hunt does not end inside stuffed content. -/
theorem feed_hunting_stuffFrom (bits : List Bool) : ∀ recent ones, ones < stuffAfter →
    Quiet recent ones → ∃ recent',
      (hunting maxInfo sawFlag recent).feed (stuffFrom ones bits) =
        (hunting maxInfo sawFlag recent', []) := by
  induction bits with
  | nil => intro recent _ _ _; exact ⟨recent, rfl⟩
  | cons b bits ih =>
    intro recent ones few quiet
    cases b with
    | false =>
      rcases quiet.zero (Nat.le_of_lt few) with ⟨notFlag, quiet'⟩
      obtain ⟨recent', after⟩ := ih _ 0 stuffAfter_pos quiet'
      refine ⟨recent', ?_⟩
      rw [stuffFrom, feed_cons, step_hunting, if_neg notFlag, after]
      rfl
    | true =>
      have notFlag := shiftIn_true_ne_flag recent
      have quiet' := quiet.one few
      by_cases full : ones + 1 = stuffAfter
      · rcases quiet'.zero (Nat.le_of_eq full) with ⟨notFlag', quiet''⟩
        obtain ⟨recent', after⟩ := ih _ 0 stuffAfter_pos quiet''
        refine ⟨recent', ?_⟩
        rw [stuffFrom, if_pos full, feed_cons, step_hunting, if_neg notFlag, feed_cons,
          step_hunting, if_neg notFlag', after]
        rfl
      · obtain ⟨recent', after⟩ := ih _ (ones + 1) (by omega) quiet'
        refine ⟨recent', ?_⟩
        rw [stuffFrom, if_neg full, feed_cons, step_hunting, if_neg notFlag, after]
        rfl

/-- A hunt passes over the rest of stuffed content up to the flag behind it. -/
theorem feed_hunting_stuff_flag {recent : UInt8} (quiet : Quiet recent 0) (bits : List Bool) :
    (hunting maxInfo sawFlag recent).feed (stuff bits ++ flag) = (afterFlag maxInfo, []) := by
  obtain ⟨recent', after⟩ : ∃ recent',
      (hunting maxInfo sawFlag recent).feed (stuffFrom 0 bits) =
        (hunting maxInfo sawFlag recent', []) :=
    feed_hunting_stuffFrom bits recent 0 stuffAfter_pos quiet
  rw [stuff, feed_append, after, feed_flag_hunting]
  rfl

/-! ## Idle deframers -/

/-- A deframer that hunts, or that has taken at most `count` bits since the last flag. -/
inductive Idle (maxInfo count : Nat) : Deframer → Prop
  | hunting (sawFlag : Bool) (recent : UInt8) : Idle maxInfo count (hunting maxInfo sawFlag recent)
  | between (bits : List Bool) (heldZero : Bool) (ones : Nat) (run : ones ≤ 6)
      (few : (bits ++ pending heldZero ones).length ≤ count) :
      Idle maxInfo count (between maxInfo bits heldZero ones)

variable {count : Nat} {d : Deframer}

theorem idle_hunt : Idle maxInfo count (hunt maxInfo sawFlag) := .hunting sawFlag 0xFF

theorem idle_afterFlag : Idle maxInfo count (afterFlag maxInfo) :=
  .between [] false 0 (Nat.zero_le 6) (Nat.zero_le count)

theorem Idle.mono {count' : Nat} (h : Idle maxInfo count d) (le : count ≤ count') :
    Idle maxInfo count' d := by
  cases h with
  | hunting sawFlag recent => exact .hunting sawFlag recent
  | between bits heldZero ones run few =>
    exact .between bits heldZero ones run (Nat.le_trans few le)

theorem lt_bitLimit_of_lt {n : Nat} (few : n < 8) : n < bitLimit maxInfo := by
  rw [bitLimit]
  omega

/-- One bit more leaves a deframer idle as long as they fill no octet. -/
theorem Idle.step (h : Idle maxInfo count d) (few : count < 7) (b : Bool) :
    Idle maxInfo (count + 1) (d.step b).1 ∧ (d.step b).2 = none := by
  cases h with
  | hunting sawFlag recent =>
    rw [step_hunting]
    split
    · exact ⟨idle_afterFlag, rfl⟩
    · exact ⟨.hunting sawFlag _, rfl⟩
  | between bits heldZero ones run short =>
    have fits : (bits ++ pending heldZero ones).length < bitLimit maxInfo :=
      lt_bitLimit_of_lt (by omega)
    by_cases six : ones = 6
    · subst six
      cases b with
      | true => exact ⟨idle_hunt, rfl⟩
      | false =>
        rw [List.length_append] at short
        rw [step_zero_of_six, verdict_of_length_lt (by omega)]
        exact ⟨idle_afterFlag, rfl⟩
    · have run' : ones < 6 := by omega
      cases b with
      | true =>
        rw [step_one run']
        refine ⟨.between _ _ _ run' ?_, rfl⟩
        rw [pending_succ, ← List.append_assoc, List.length_append, List.length_singleton]
        omega
      | false =>
        rw [step_zero run' fits]
        refine ⟨.between _ _ _ (Nat.zero_le 6) ?_, rfl⟩
        have added := length_pending_le (ones != stuffAfter) 0
        rw [List.length_append]
        omega

theorem Idle.feed (bits : List Bool) : ∀ {d : Deframer} {count : Nat}, Idle maxInfo count d →
    count + bits.length < 8 →
    Idle maxInfo (count + bits.length) (d.feed bits).1 ∧ (d.feed bits).2 = [] := by
  induction bits with
  | nil => intro d count h _; exact ⟨h, rfl⟩
  | cons b bits ih =>
    intro d count h few
    rw [List.length_cons] at few ⊢
    obtain ⟨idle, silent⟩ := h.step (by omega) b
    obtain ⟨idle', silent'⟩ := ih idle (by omega)
    rw [feed_cons, silent, silent', ← Nat.add_assoc, Nat.add_right_comm]
    exact ⟨idle', rfl⟩

/-- A flag behind fewer than eight bits closes nothing. -/
theorem Idle.feed_flag (h : Idle maxInfo 7 d) : d.feed flag = (afterFlag maxInfo, []) := by
  cases h with
  | hunting sawFlag recent => exact feed_flag_hunting recent
  | between bits heldZero ones run few =>
    by_cases six : ones = 6
    · subst six
      rw [List.length_append] at few
      rw [feed_flag_of_six, verdict_of_length_lt (by omega)]
      rfl
    · have short : (bits ++ pending heldZero ones).length < 8 := by omega
      rw [Deframer.feed_flag (by omega) (lt_bitLimit_of_lt short), verdict_of_length_lt short]
      rfl

end SimplexControl.Hdlc.Deframer
