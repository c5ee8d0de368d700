import SimplexControl.Hdlc.Deframer
import SimplexControl.Proofs.Octets

/-!
# What the bits between two flags come to

`verdict` says, for the bits between two flags with the stuffed zeros taken out, whether they
are a frame and which, by looking at the string of bits as a whole. A deframer, which never has
the whole string before it, is compared with this definition.
-/

namespace SimplexControl.Hdlc

/-- The number that bits stand for, the first of them in the lowest place. -/
def ofLsbFirst (bits : List Bool) : Nat := bits.foldr (fun b v => 2 * v + bitValue b) 0

/-- The octets whose content bits these are; bits that fill no octet are left out. -/
def octetsOf : List Bool → Octets
  | b₀ :: b₁ :: b₂ :: b₃ :: b₄ :: b₅ :: b₆ :: b₇ :: bits =>
    UInt8.ofNat (ofLsbFirst [b₀, b₁, b₂, b₃, b₄, b₅, b₆, b₇]) :: octetsOf bits
  | _ => []

/-- What the content between two flags comes to. -/
def verdict (bits : List Bool) : Option Item :=
  let octets := octetsOf bits
  let size := bits.length / 8
  let content := octets.take (size - 2)
  let expected := Fcs.ofOctets content
  let received := Fcs.ofReceived (octets.octetAt (size - 2)) (octets.octetAt (size - 1))
  if bits.length < 8 then none
  else if bits.length % 8 ≠ 0 then some (.error (.misaligned bits.length))
  else if size < shortestFrame then some (.error (.frameTooShort size))
  else if received = expected then some (.ok content)
  else some (.error (.fcsMismatch expected received))

theorem ofLsbFirst_lt (bits : List Bool) : ofLsbFirst bits < 1 <<< bits.length := by
  induction bits with
  | nil => exact Nat.one_pos
  | cons b bits ih =>
    have grown : ofLsbFirst (b :: bits) = 2 * ofLsbFirst bits + bitValue b := rfl
    have bit : bitValue b ≤ 1 := by cases b <;> decide
    rw [grown, List.length_cons, Nat.shiftLeft_succ]
    omega

theorem ofLsbFirst_lowBits (n : Nat) : ∀ v, v < 1 <<< n → ofLsbFirst (lowBits n v) = v := by
  induction n with
  | zero => intro v small; exact (Nat.lt_one_iff.mp small).symm
  | succ n ih =>
    intro v small
    have split := lowBits_double_add n (v / 2) (v.testBit 0)
    rw [double_half_add] at split
    rw [Nat.shiftLeft_succ] at small
    have later := ih (v / 2) (by omega)
    rw [ofLsbFirst] at later
    rw [split, ofLsbFirst, List.foldr_cons, later, double_half_add]

theorem octetsOf_lsbFirst_append (o : UInt8) (bits : List Bool) :
    octetsOf (lsbFirst o ++ bits) = o :: octetsOf bits := by
  have value : ofLsbFirst (lsbFirst o) = o.toNat := by
    exact ofLsbFirst_lowBits 8 o.toNat o.toNat_lt
  have first : octetsOf (lsbFirst o ++ bits) =
      UInt8.ofNat (ofLsbFirst (lsbFirst o)) :: octetsOf bits := rfl
  rw [first, value, UInt8.ofNat_toNat]

theorem octetsOf_of_length_lt {bits : List Bool} (short : bits.length < 8) : octetsOf bits = [] := by
  unfold octetsOf
  split
  · simp only [List.length_cons] at short
    omega
  · rfl

/-- Bits that fill no octet make no difference behind complete ones. -/
theorem octetsOf_contentBits_append (xs : Octets) (bits : List Bool) (short : bits.length < 8) :
    octetsOf (contentBits xs ++ bits) = xs := by
  induction xs with
  | nil => exact octetsOf_of_length_lt short
  | cons o xs ih => rw [contentBits_cons, List.append_assoc, octetsOf_lsbFirst_append, ih]

theorem octetsOf_contentBits (xs : Octets) : octetsOf (contentBits xs) = xs := by
  have whole := octetsOf_contentBits_append xs [] (by decide)
  rwa [List.append_nil] at whole

theorem verdict_of_length_lt {bits : List Bool} (short : bits.length < 8) :
    verdict bits = none := by
  rw [verdict, if_pos short]

theorem verdict_nil : verdict [] = none := rfl

/-- Length is judged before a candidate is closed, so no verdict finds it excessive. -/
theorem verdict_ne_infoTooLarge (bits : List Bool) (size maxInfo : Nat) :
    verdict bits ≠ some (.error (.infoTooLarge size maxInfo)) := by
  intro refused
  dsimp only [verdict] at refused
  repeat' split at refused
  all_goals cases refused

/-- The two octets sent for a check sequence stand for it. -/
theorem ofReceived_octets (v : UInt16) :
    Fcs.ofReceived v.toUInt8 (v >>> 8).toUInt8 = v := by
  rw [Fcs.ofReceived, UInt16.or_comm]
  exact Octets.join_ofWord v

/-- Octets enough for a frame are judged by the last two of them. -/
theorem verdict_append {xs : Octets} (long : Frame.headerSize ≤ xs.length) (low high : UInt8) :
    verdict (contentBits (xs ++ [low, high])) = some
      (if Fcs.ofReceived low high = Fcs.ofOctets xs then .ok xs
        else .error (.fcsMismatch (Fcs.ofOctets xs) (Fcs.ofReceived low high))) := by
  have count : (contentBits (xs ++ [low, high])).length = 8 * (xs.length + 2) := by
    rw [length_contentBits, List.length_append]
    rfl
  have size : 8 * (xs.length + 2) / 8 = xs.length + 2 := Nat.mul_div_cancel_left _ (by decide)
  have whole : 8 * (xs.length + 2) % 8 = 0 := Nat.mul_mod_right 8 _
  have enough : ¬ xs.length + 2 < shortestFrame := by
    rw [shortestFrame]
    omega
  have first : (xs ++ [low, high]).octetAt xs.length = low := by simp [Octets.octetAt]
  have second : (xs ++ [low, high]).octetAt (xs.length + 1) = high := by simp [Octets.octetAt]
  rw [verdict]
  simp only [count, size, whole, octetsOf_contentBits, Nat.add_sub_cancel, List.take_left]
  rw [if_neg (by omega), if_neg (by simp), if_neg enough]
  rw [show xs.length + 2 - 1 = xs.length + 1 from rfl, first, second]
  split <;> rfl

/-- Content behind which its own check sequence follows is a frame. -/
theorem verdict_sealed {xs : Octets} (long : Frame.headerSize ≤ xs.length) :
    verdict (contentBits (Fcs.sealed xs)) = some (.ok xs) := by
  rw [Fcs.sealed, Fcs.octets, verdict_append long, ofReceived_octets, if_pos rfl]

/-! ## Accepted content -/

theorem lowBits_ofLsbFirst (bits : List Bool) : lowBits bits.length (ofLsbFirst bits) = bits := by
  induction bits with
  | nil => rfl
  | cons b bits ih =>
    have grown := lowBits_double_add bits.length (ofLsbFirst bits) b
    rw [ih] at grown
    exact grown

theorem contentBits_octetsOf (bits : List Bool) (whole : bits.length % 8 = 0) :
    contentBits (octetsOf bits) = bits := by
  fun_induction octetsOf bits with
  | case1 b₀ b₁ b₂ b₃ b₄ b₅ b₆ b₇ bits ih =>
    have later := ih (by simp only [List.length_cons] at whole; omega)
    have first := lowBits_ofLsbFirst [b₀, b₁, b₂, b₃, b₄, b₅, b₆, b₇]
    rw [contentBits_cons, later, lsbFirst_ofNat, show lowBits 8 _ = _ from first]
    rfl
  | case2 bits short =>
    cases bits with
    | nil => rfl
    | cons b₀ bits =>
      -- A string of eight bits or more has the shape that the first case takes.
      match bits with
      | [] | [_] | [_, _] | [_, _, _] | [_, _, _, _] | [_, _, _, _, _] | [_, _, _, _, _, _] =>
        simp at whole
      | b₁ :: b₂ :: b₃ :: b₄ :: b₅ :: b₆ :: b₇ :: bits =>
        exact (short b₀ b₁ b₂ b₃ b₄ b₅ b₆ b₇ bits rfl).elim

theorem length_octetsOf (bits : List Bool) (whole : bits.length % 8 = 0) :
    (octetsOf bits).length = bits.length / 8 := by
  have count := congrArg List.length (contentBits_octetsOf bits whole)
  rw [length_contentBits] at count
  omega

theorem octets_ofReceived (low high : UInt8) :
    Fcs.octets (Fcs.ofReceived low high) = [low, high] := by
  have joined := Octets.ofWord_join high low
  rw [Octets.ofWord, List.cons.injEq, List.cons.injEq] at joined
  rw [Fcs.octets, Fcs.ofReceived, UInt16.or_comm, joined.1, joined.2.1]

theorem take_append_last_two (xs : Octets) (n : Nat) (size : n + 2 = xs.length) :
    xs.take n ++ [xs.octetAt n, xs.octetAt (n + 1)] = xs := by
  have first : xs.octetAt n = xs[n] := by
    rw [Octets.octetAt, List.getD_eq_getElem?_getD, List.getElem?_eq_getElem (by omega),
      Option.getD_some]
  have second : xs.octetAt (n + 1) = xs[n + 1] := by
    rw [Octets.octetAt, List.getD_eq_getElem?_getD, List.getElem?_eq_getElem (by omega),
      Option.getD_some]
  have none : xs.drop (n + 2) = [] := List.drop_eq_nil_of_le (Nat.le_of_eq size.symm)
  rw [first, second, ← none, ← List.drop_eq_getElem_cons, ← List.drop_eq_getElem_cons,
    List.take_append_drop]

/-- Content is accepted only behind itself with its own check sequence. -/
theorem eq_sealed_of_verdict {bits : List Bool} {content : Octets}
    (accepted : verdict bits = some (.ok content)) :
    bits = contentBits (Fcs.sealed content) := by
  dsimp only [verdict] at accepted
  split at accepted
  · cases accepted
  split at accepted
  · cases accepted
  split at accepted
  · cases accepted
  next misaligned short =>
  split at accepted
  · next checked =>
    have whole : bits.length % 8 = 0 := Nat.eq_zero_of_not_pos fun pos => misaligned (by omega)
    have size := length_octetsOf bits whole
    rw [shortestFrame, Frame.headerSize] at short
    have last : bits.length / 8 - 2 + 1 = bits.length / 8 - 1 := by omega
    have split := take_append_last_two (octetsOf bits) (bits.length / 8 - 2) (by omega)
    rw [last] at split
    obtain rfl : content = (octetsOf bits).take (bits.length / 8 - 2) := by
      cases accepted
      rfl
    rw [Fcs.sealed, ← checked, octets_ofReceived, split, contentBits_octetsOf bits whole]
  · cases accepted

/-- What is accepted holds a header. -/
theorem headerSize_le_of_verdict {bits : List Bool} {content : Octets}
    (accepted : verdict bits = some (.ok content)) : Frame.headerSize ≤ content.length := by
  have size : bits.length / 8 = content.length + 2 := by
    rw [eq_sealed_of_verdict accepted, length_contentBits, Fcs.sealed, List.length_append,
      Fcs.length_octets]
    omega
  dsimp only [verdict] at accepted
  split at accepted
  · cases accepted
  split at accepted
  · cases accepted
  split at accepted
  · cases accepted
  next long =>
  rw [size, shortestFrame] at long
  omega

end SimplexControl.Hdlc
