import Mathlib.Data.List.Induction
import SimplexControl.Hdlc.Reception
import SimplexControl.Proofs.Hdlc.Reached

/-!
# Where an accepted frame stands on the line

Whatever octets a deframer takes, a frame that it gives is on the line between two flags, bit for
bit and stuffed, and the closing flag ends with the bit that completes the frame. No part of a
frame serves for another one but the flag between them. `Traced` ties the state of a deframer to
the bits that it has taken, and a bit keeps it.
-/

namespace SimplexControl.Hdlc

/-! ## Stuffing in parts -/

theorem stuffFrom_append_zero (more : List Bool) (bits : List Bool) : ∀ ones,
    stuffFrom ones (bits ++ false :: more) = stuffFrom ones bits ++ false :: stuff more := by
  induction bits with
  | nil => intro ones; rfl
  | cons b bits ih =>
    intro ones
    cases b with
    | false => simp only [List.cons_append, stuffFrom, ih]
    | true =>
      simp only [List.cons_append, stuffFrom]
      split <;> simp only [ih, List.cons_append]

theorem stuffFrom_ones (n : Nat) : ∀ ones, ones + n < stuffAfter →
    stuffFrom ones (List.replicate n true) = List.replicate n true := by
  induction n with
  | zero => intro ones _; rfl
  | succ n ih =>
    intro ones few
    rw [List.replicate_succ, stuffFrom, if_neg (by omega), ih (ones + 1) (by omega)]

theorem stuff_five_ones (more : List Bool) :
    stuff (List.replicate stuffAfter true ++ more) =
      List.replicate stuffAfter true ++ false :: stuff more := rfl

/-- Stuffing starts anew behind these bits. -/
def Settled (bits : List Bool) : Prop := ∀ more, stuff (bits ++ more) = stuff bits ++ stuff more

/-- The stuffed form of these bits ends with a stuffed zero. -/
def EndsStuffed (bits : List Bool) : Prop :=
  List.replicate stuffAfter true ++ [false] <:+ stuff bits

/-- The first `stop` bits of a line end with a flag, the stuffed form of `bits` from bit `start`
on, and a flag. The first zero of the closing flag may be the zero stuffed at the end. -/
def Delimited (line bits : List Bool) (start stop : Nat) : Prop :=
  ∃ opened, flag <:+ opened ∧ opened.length = start ∧
    (line.take stop = opened ++ stuff bits ++ flag ∨
      EndsStuffed bits ∧ line.take stop = opened ++ stuff bits ++ flag.tail)

namespace Deframer

open Candidate

/-- Content that has been collected behind `opened`, the bits up to the last flag. A zero that is
not held back any longer has been taken out behind five ones. -/
structure Collected (taken opened bits : List Bool) (heldZero : Bool) (ones : Nat) : Prop where
  split : taken = opened ++ stuff bits ++ pending heldZero ones
  flagged : flag <:+ opened
  settled : heldZero = false → Settled bits
  stuffed : heldZero = false → bits = [] ∨ EndsStuffed bits

section Collected

variable {taken opened bits : List Bool} {heldZero : Bool} {ones : Nat}

theorem Collected.afterFlag (flagged : flag <:+ taken) : Collected taken taken [] false 0 where
  split := by simp [stuff, stuffFrom, pending]
  flagged := flagged
  settled := fun _ _ => rfl
  stuffed := fun _ => .inl rfl

theorem Collected.one (h : Collected taken opened bits heldZero ones) :
    Collected (taken ++ [true]) opened bits heldZero (ones + 1) where
  split := by rw [h.split, pending_succ, ← List.append_assoc]
  flagged := h.flagged
  settled := h.settled
  stuffed := h.stuffed

theorem Collected.stuff_append (h : Collected taken opened bits heldZero ones)
    (more : List Bool) :
    stuff (bits ++ pending heldZero 0 ++ more) =
      stuff bits ++ pending heldZero 0 ++ stuff more := by
  cases heldZero with
  | false =>
    simp only [pending, Bool.false_eq_true, if_false, List.replicate_zero, List.append_nil]
    exact h.settled rfl more
  | true =>
    simp only [pending, if_true, List.replicate_zero, List.append_nil, List.append_assoc,
      List.singleton_append]
    exact stuffFrom_append_zero more bits 0

theorem pending_eq (heldZero : Bool) (ones : Nat) :
    pending heldZero ones = pending heldZero 0 ++ List.replicate ones true := by
  simp [pending]

/-- A zero behind fewer than five ones is held back, and what was pending is content. -/
theorem Collected.zero (h : Collected taken opened bits heldZero ones) (few : ones < stuffAfter) :
    Collected (taken ++ [false]) opened (bits ++ pending heldZero ones) true 0 where
  split := by
    have run : stuff (List.replicate ones true) = List.replicate ones true :=
      stuffFrom_ones ones 0 (by omega)
    have grown := h.stuff_append (List.replicate ones true)
    rw [run, List.append_assoc, List.append_assoc, ← pending_eq] at grown
    rw [h.split, grown]
    simp [pending]
  flagged := h.flagged
  settled := fun held => by cases held
  stuffed := fun held => by cases held

/-- A zero behind five ones is the stuffed one, and what was pending is content. -/
theorem Collected.stuffedZero (h : Collected taken opened bits heldZero stuffAfter) :
    Collected (taken ++ [false]) opened (bits ++ pending heldZero stuffAfter) false 0 := by
  have grown (more : List Bool) : stuff (bits ++ pending heldZero stuffAfter ++ more) =
      stuff bits ++ pending heldZero stuffAfter ++ false :: stuff more := by
    have parts := h.stuff_append (List.replicate stuffAfter true ++ more)
    rw [stuff_five_ones] at parts
    rw [pending_eq heldZero stuffAfter]
    simpa only [List.append_assoc] using parts
  have whole : stuff (bits ++ pending heldZero stuffAfter) =
      stuff bits ++ pending heldZero stuffAfter ++ [false] := by
    have parts := grown []
    rwa [List.append_nil] at parts
  refine ⟨?_, h.flagged, fun _ more => ?_, fun _ => .inr ?_⟩
  · rw [h.split, whole]
    simp [pending]
  · rw [grown, whole]
    simp
  · rw [EndsStuffed, whole, pending_eq]
    exact ⟨stuff bits ++ pending heldZero 0, by simp only [List.append_assoc]⟩

theorem flag_suffix_of_zero {line : List Bool} (zero : [false] <:+ line) :
    flag <:+ line ++ List.replicate 6 true ++ [false] := by
  obtain ⟨before, rfl⟩ := zero
  exact ⟨before, by simp [flag_eq]⟩

/-- Behind six ones a zero ends a flag. -/
theorem Collected.flag_suffix (h : Collected taken opened bits heldZero 6) :
    flag <:+ taken ++ [false] := by
  rw [h.split, pending_eq, ← List.append_assoc]
  apply flag_suffix_of_zero
  have zeroOfFlag : [false] <:+ flag := ⟨false :: List.replicate 6 true, by decide⟩
  cases heldZero with
  | true => exact ⟨opened ++ stuff bits, by simp [pending]⟩
  | false =>
    simp only [pending, Bool.false_eq_true, if_false, List.replicate_zero, List.append_nil]
    rcases h.stuffed rfl with rfl | ends
    · rw [show stuff [] = [] from rfl, List.append_nil]
      exact zeroOfFlag.trans h.flagged
    · exact ((List.suffix_append _ _).trans ends).trans (List.suffix_append _ _)

/-- The content that a flag closes stands between this flag and the last one. -/
theorem Collected.delimited (h : Collected taken opened bits heldZero 6) (some : bits ≠ []) :
    Delimited (taken ++ [false]) bits opened.length (taken.length + 1) := by
  have all : (taken ++ [false]).take (taken.length + 1) = taken ++ [false] :=
    List.take_of_length_le (by simp)
  refine ⟨opened, h.flagged, rfl, ?_⟩
  rw [all, h.split]
  simp only [List.append_assoc]
  cases heldZero with
  | true => exact .inl rfl
  | false =>
    rcases h.stuffed rfl with none | ends
    · exact absurd none some
    · exact .inr ⟨ends, rfl⟩

end Collected

/-! ## Runs -/

/-- The state of a deframer that has taken these bits. The last item was complete with bit `mark`,
and none of the bits before it is used again. -/
inductive Traced (maxInfo mark : Nat) (taken : List Bool) : Deframer → Prop
  | hunting (sawFlag : Bool) (recent : UInt8) (older since : List Bool)
      (split : taken = older ++ since)
      (last : lsbFirst recent = (since.reverse ++ List.replicate 8 true).take 8)
      (past : mark ≤ taken.length) : Traced maxInfo mark taken (hunting maxInfo sawFlag recent)
  | between (opened bits : List Bool) (heldZero : Bool) (ones : Nat) (run : ones ≤ 6)
      (short : bits.length < bitLimit maxInfo)
      (collected : Collected taken opened bits heldZero ones)
      (past : mark ≤ opened.length) : Traced maxInfo mark taken (between maxInfo bits heldZero ones)

variable {maxInfo mark : Nat} {taken : List Bool} {d : Deframer}

theorem traced_hunt (sawFlag : Bool) (past : mark ≤ taken.length) :
    Traced maxInfo mark taken (hunt maxInfo sawFlag) :=
  .hunting sawFlag 0xFF taken [] (List.append_nil _).symm (by decide) past

theorem traced_afterFlag (flagged : flag <:+ taken) (past : mark ≤ taken.length) :
    Traced maxInfo mark taken (afterFlag maxInfo) :=
  .between taken [] false 0 (Nat.zero_le 6) (bitLimit_pos maxInfo) (.afterFlag flagged) past

/-- The hunt starts from ones, so a flag that it meets is one of bits that have come. -/
theorem flag_suffix_of_last {since : List Bool}
    (found : flag = (since.reverse ++ List.replicate 8 true).take 8) : flag <:+ since := by
  by_cases many : 8 ≤ since.length
  · rw [List.take_append_of_le_length (by simpa using many)] at found
    have palindrome : flag.reverse = flag := by decide
    rw [← List.reverse_prefix, palindrome, found]
    exact List.take_prefix 8 since.reverse
  · have zero : flag[7]? = some false := by decide
    have one : ((since.reverse ++ List.replicate 8 true).take 8)[7]? = some true := by
      rw [List.getElem?_take_of_lt (by decide), List.getElem?_append_right (by simp; omega),
        List.getElem?_replicate_of_lt (by omega)]
    rw [← found, zero] at one
    cases one

/-- A bit that completes nothing leaves the mark, and one that does may become the mark. -/
theorem Traced.step (h : Traced maxInfo mark taken d) (b : Bool) :
    Traced maxInfo (if (d.step b).2 = none then mark else taken.length + 1) (taken ++ [b])
      (d.step b).1 := by
  have length : (taken ++ [b]).length = taken.length + 1 := by simp
  cases h with
  | hunting sawFlag recent older since split last past =>
    have last' : lsbFirst (shiftIn recent b) =
        ((since ++ [b]).reverse ++ List.replicate 8 true).take 8 := by
      rw [lsbFirst_shiftIn, last]
      simp [List.take_take]
    have split' : taken ++ [b] = older ++ (since ++ [b]) := by rw [split, List.append_assoc]
    rw [step_hunting]
    split
    · next found =>
      rw [found] at last'
      have flagged : flag <:+ taken ++ [b] := by
        rw [split']
        exact (flag_suffix_of_last last').trans (List.suffix_append _ _)
      exact traced_afterFlag flagged (by simp; omega)
    · exact .hunting sawFlag _ older (since ++ [b]) split' last' (by simp; omega)
  | between opened bits heldZero ones run short collected past =>
    have before : opened.length ≤ taken.length := by
      rw [collected.split]
      simp
    -- Behind six ones the bit ends a flag or an abort, before that it is stuffed or content.
    by_cases six : ones = 6
    · subst six
      cases b with
      | true => exact traced_hunt true (by simp [step_seventh_one]; omega)
      | false =>
        rw [step_zero_of_six]
        apply traced_afterFlag collected.flag_suffix
        split <;> omega
    · have run' : ones < 6 := by omega
      cases b with
      | true =>
        rw [step_one run']
        exact .between opened bits heldZero (ones + 1) run' short collected.one past
      | false =>
        by_cases fits : (bits ++ pending heldZero ones).length < bitLimit maxInfo
        · rw [step_zero run' fits]
          by_cases full : ones = stuffAfter
          · subst full
            exact .between opened _ false 0 (Nat.zero_le 6) fits collected.stuffedZero past
          · have held : (ones != stuffAfter) = true := by simpa using full
            rw [held]
            have few : ones < stuffAfter := by
              rw [stuffAfter] at full ⊢
              omega
            exact .between opened _ true 0 (Nat.zero_le 6) fits (collected.zero few) past
        · rw [step_zero_too_long run' short (Nat.not_lt.mp fits)]
          exact traced_hunt true (Nat.le_of_eq length.symm)

/-- Content is accepted between two flags, behind the mark. -/
theorem Traced.delimited (h : Traced maxInfo mark taken d) {b : Bool} {content : Octets}
    (accepted : (d.step b).2 = some (.ok content)) :
    ∃ start, mark ≤ start ∧
      Delimited (taken ++ [b]) (contentBits (Fcs.sealed content)) start (taken.length + 1) := by
  cases h with
  | hunting sawFlag recent older since split last past =>
    rw [step_hunting] at accepted
    split at accepted <;> cases accepted
  | between opened bits heldZero ones run short collected past =>
    by_cases six : ones = 6
    · subst six
      cases b with
      | true => cases accepted
      | false =>
        rw [step_zero_of_six] at accepted
        have nonempty : bits ≠ [] := by
          rintro rfl
          cases accepted
        rw [← eq_sealed_of_verdict accepted]
        exact ⟨opened.length, past, collected.delimited nonempty⟩
    · have run' : ones < 6 := by omega
      cases b with
      | true =>
        rw [step_one run'] at accepted
        cases accepted
      | false =>
        by_cases fits : (bits ++ pending heldZero ones).length < bitLimit maxInfo
        · rw [step_zero run' fits] at accepted
          cases accepted
        · rw [step_zero_too_long run' short (Nat.not_lt.mp fits)] at accepted
          cases accepted

/-- The item that bit `n` of a line completes, if any. -/
def itemAt (d : Deframer) (bits : List Bool) (n : Nat) : Option Item :=
  bits[n]?.bind fun b => ((d.feed (bits.take n)).1.step b).2

theorem feed_snd_eq_filterMap (line : List Bool) : ∀ d : Deframer,
    (d.feed line).2 = (List.range line.length).filterMap (d.itemAt line) := by
  induction line with
  | nil => intro d; rfl
  | cons b line ih =>
    intro d
    have first : d.itemAt (b :: line) 0 = (d.step b).2 := rfl
    have later (n : Nat) : d.itemAt (b :: line) (n + 1) = (d.step b).1.itemAt line n := by
      simp only [itemAt, List.getElem?_cons_succ, List.take_succ_cons, feed_cons]
    rw [feed_cons, List.length_cons, List.range_succ_eq_map, List.filterMap_cons, first,
      List.filterMap_map, ih]
    simp only [Function.comp_def, later]
    cases (d.step b).2 <;> rfl

theorem itemAt_append_of_lt {line : List Bool} (more : List Bool) {n : Nat}
    (inside : n < line.length) : d.itemAt (line ++ more) n = d.itemAt line n := by
  rw [itemAt, itemAt, List.getElem?_append_left inside,
    List.take_append_of_le_length (Nat.le_of_lt inside)]

theorem itemAt_length (line : List Bool) (b : Bool) :
    d.itemAt (line ++ [b]) line.length = ((d.feed line).1.step b).2 := by
  simp [itemAt]

/-- Every state is traced, with a mark behind all the items so far. -/
theorem traced_feed (maxInfo : Nat) (line : List Bool) : ∃ mark,
    Traced maxInfo mark line ((new maxInfo).feed line).1 ∧
      ∀ n < line.length, (new maxInfo).itemAt line n ≠ none → n < mark := by
  induction line using List.reverseRecOn with
  | nil => exact ⟨0, traced_hunt false (Nat.zero_le _), fun n inside => absurd inside n.not_lt_zero⟩
  | append_singleton line b ih =>
    obtain ⟨mark, traced, marked⟩ := ih
    have after : ((new maxInfo).feed (line ++ [b])).1 =
        (((new maxInfo).feed line).1.step b).1 := by
      rw [feed_append, feed_cons, feed_nil]
    refine ⟨_, after ▸ traced.step b, ?_⟩
    intro n inside completed
    rw [List.length_append, List.length_singleton] at inside
    by_cases last : n = line.length
    · subst last
      rw [itemAt_length] at completed
      rw [if_neg completed]
      exact Nat.lt_succ_self _
    · have inside' : n < line.length := by omega
      rw [itemAt_append_of_lt [b] inside'] at completed
      split
      · exact marked n inside' completed
      · omega

/-- Content that bit `n` completes stands on the line up to this bit, behind the items before. -/
theorem delimited_of_itemAt {line : List Bool} {n : Nat} {content : Octets}
    (accepted : (new maxInfo).itemAt line n = some (.ok content)) :
    ∃ start, Delimited line (contentBits (Fcs.sealed content)) start (n + 1) ∧
      ∀ m < n, (new maxInfo).itemAt line m ≠ none → m < start := by
  obtain ⟨b, present, completed⟩ := Option.bind_eq_some_iff.mp accepted
  obtain ⟨inside, bit⟩ := List.getElem?_eq_some_iff.mp present
  have taken : line.take n ++ [b] = line.take (n + 1) := by
    rw [← bit, List.take_append_getElem]
  have length : (line.take n).length = n := List.length_take_of_le (Nat.le_of_lt inside)
  obtain ⟨mark, traced, marked⟩ := traced_feed maxInfo (line.take n)
  obtain ⟨start, past, opened, flagged, place, closed⟩ := traced.delimited completed
  rw [taken, length, List.take_take, Nat.min_self] at closed
  refine ⟨start, ⟨opened, flagged, place, closed⟩, fun m before completed' => ?_⟩
  have inside' : m < (line.take n).length := by rwa [length]
  have same : (new maxInfo).itemAt (line.take n ++ line.drop n) m = _ :=
    itemAt_append_of_lt (line.drop n) inside'
  rw [List.take_append_drop] at same
  rw [same] at completed'
  exact Nat.lt_of_lt_of_le (marked m inside' completed') past

/-- Whatever octets come in whatever pieces, the items are those that the bits of the line complete
in turn, and each frame among them is not too long and stands on the line up to the bit that
completes it, behind all the frames before it. -/
theorem readPieces_delimited (maxInfo : Nat) (pieces : List Octets) :
    let line := lineBits pieces.flatten
    let yielded := fun n => ((new maxInfo).itemAt line n).map (toFrame maxInfo)
    ((new maxInfo).readPieces pieces).2 = (List.range line.length).filterMap yielded ∧
      ∀ n f, yielded n = some (.ok f) →
        f.info.length ≤ maxInfo ∧
          ∃ start, Delimited line f.checkedBits start (n + 1) ∧
            ∀ m g, m < n → yielded m = some (.ok g) → m < start := by
  intro line yielded
  constructor
  · rw [readPieces_eq, read_eq, feed_snd_eq_filterMap, List.map_filterMap]
    rfl
  · intro n f accepted
    obtain ⟨item, completed, loaded⟩ := Option.map_eq_some_iff.mp accepted
    cases item with
    | error cause => cases loaded
    | ok content =>
      obtain ⟨octets, _, room⟩ := Frame.load_eq_ok_iff.mp loaded
      obtain ⟨start, delimited, behind⟩ := delimited_of_itemAt completed
      refine ⟨room, start, ?_, fun m g before accepted' => behind m before fun none => ?_⟩
      · rw [Frame.checkedBits, octets]
        exact delimited
      · simp only [yielded, line, none, Option.map_none] at accepted'
        cases accepted'

/-- A frame behind noise, in two pieces. -/
theorem readPieces_delimited_behind_noise :
    let pieces : List Octets := [[0x55, 0x7E, 0x00], [0x86, 0xC0, 0x5B, 0x11, 0x7E]]
    let f : Frame := ⟨0, 0x61, 3, [], 0⟩
    ((new 0).itemAt (lineBits pieces.flatten) 63).map (toFrame 0) = some (.ok f) ∧
      ∃ start, Delimited (lineBits pieces.flatten) f.checkedBits start 64 := by
  intro pieces f
  have completed : ((new 0).itemAt (lineBits pieces.flatten) 63).map (toFrame 0) =
      some (.ok f) := by decide +kernel
  obtain ⟨_, start, delimited, _⟩ := (readPieces_delimited 0 pieces).2 63 f completed
  exact ⟨completed, start, delimited⟩

end Deframer

end SimplexControl.Hdlc
