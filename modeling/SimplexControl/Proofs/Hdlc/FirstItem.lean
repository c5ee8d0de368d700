import Mathlib.Data.List.Infix
import SimplexControl.Frame.Edit
import SimplexControl.Proofs.Bits
import SimplexControl.Proofs.Hdlc.Provenance
import SimplexControl.Proofs.Hdlc.RoundTrip

/-!
# The first of many

Reading one frame stops where a stream gives its first item. Where there is none, the hunt tells
whether a flag has come at all: it starts from ones and misses no flag, and once it has met one
nothing makes it forget.
-/

namespace SimplexControl

namespace Hdlc.Deframer

variable {maxInfo : Nat} {d : Deframer} {taken : List Bool}

theorem sawFlag_keep (maxInfo : Nat) (sawFlag : Bool) (c : Candidate) :
    (keep maxInfo sawFlag c).1.sawFlag = sawFlag := by
  unfold keep
  split <;> rfl

/-- A flag that has been met is not forgotten. -/
theorem sawFlag_step (met : d.sawFlag = true) (b : Bool) : (d.step b).1.sawFlag = true := by
  obtain ⟨maxInfo, sawFlag, phase⟩ := d
  cases phase with
  | hunting recent =>
    dsimp only [step]
    split
    · rfl
    · exact met
  | collecting c =>
    cases b with
    | true =>
      dsimp only [step]
      split <;> exact met
    | false =>
      dsimp only [step]
      split
      · rw [sawFlag_keep]; exact met
      · split
        · exact met
        · rw [sawFlag_keep]; exact met

/-- What a deframer knows of flags when it has taken these bits. -/
inductive Watching (maxInfo : Nat) (taken : List Bool) : Deframer → Prop
  | met {d : Deframer} (sawFlag : d.sawFlag = true) (flagged : flag <:+: taken) :
      Watching maxInfo taken d
  | hunting (recent : UInt8) (unflagged : ¬ flag <:+: taken)
      (last : lsbFirst recent = (taken.reverse ++ List.replicate 8 true).take 8) :
      Watching maxInfo taken (hunting maxInfo false recent)

theorem last_of_flag_suffix {taken : List Bool} (flagged : flag <:+ taken) :
    (taken.reverse ++ List.replicate 8 true).take 8 = flag := by
  obtain ⟨before, rfl⟩ := flagged
  have palindrome : flag.reverse = flag := by decide
  rw [List.reverse_append, palindrome, List.append_assoc]
  exact List.take_left' (by decide)

theorem Watching.step (h : Watching maxInfo taken d) (b : Bool) :
    Watching maxInfo (taken ++ [b]) (d.step b).1 := by
  cases h with
  | met sawFlag flagged =>
    exact .met (sawFlag_step sawFlag b) (flagged.trans (List.prefix_append taken [b]).isInfix)
  | hunting recent unflagged last =>
    have last' : lsbFirst (shiftIn recent b) =
        ((taken ++ [b]).reverse ++ List.replicate 8 true).take 8 := by
      rw [lsbFirst_shiftIn, last]
      simp [List.take_take]
    rw [step_hunting]
    split
    · next found =>
      rw [found] at last'
      exact .met rfl (flag_suffix_of_last last').isInfix
    · next other =>
      refine .hunting _ ?_ last'
      intro flagged
      rcases List.infix_concat_iff.mp flagged with now | before
      · rw [last_of_flag_suffix now] at last'
        exact other (lsbFirst_inj.mp last')
      · exact unflagged before

theorem Watching.feed (bits : List Bool) : ∀ {taken : List Bool} {d : Deframer},
    Watching maxInfo taken d → Watching maxInfo (taken ++ bits) (d.feed bits).1 := by
  induction bits with
  | nil => intro taken d h; rwa [List.append_nil]
  | cons b bits ih =>
    intro taken d h
    rw [feed_cons, List.append_cons]
    exact ih (h.step b)

/-- A deframer has met a flag exactly if there has been one anywhere. -/
theorem sawFlag_feed_iff (maxInfo : Nat) (bits : List Bool) :
    ((new maxInfo).feed bits).1.sawFlag = true ↔ flag <:+: bits := by
  have start : Watching maxInfo [] (new maxInfo) := .hunting 0xFF (by decide) (by decide)
  have watched := start.feed bits
  rw [List.nil_append] at watched
  generalize ((new maxInfo).feed bits).1 = after at watched ⊢
  cases watched with
  | met sawFlag flagged => exact iff_of_true sawFlag flagged
  | hunting recent unflagged last => exact iff_of_false Bool.false_ne_true unflagged

theorem feedUntilItem_of_silent (bits : List Bool) : ∀ {d : Deframer}, (d.feed bits).2 = [] →
    d.feedUntilItem bits = ((d.feed bits).1, none) := by
  induction bits with
  | nil => intro d _; rfl
  | cons b bits ih =>
    intro d silent
    rw [feed_cons] at silent ⊢
    obtain ⟨first, later⟩ := List.append_eq_nil_iff.mp silent
    rw [feedUntilItem]
    split
    · next after none =>
      rw [none] at later ⊢
      exact ih later
    · next after item completed =>
      rw [completed] at first
      cases first

end Hdlc.Deframer

namespace Frame

open Hdlc

theorem decodeHdlc_of_silent {g : Frame} {data : Octets}
    (silent : ((Deframer.new g.maxInfo).feed (lineBits data)).2 = []) :
    g.decodeHdlc data =
      .error (if flag <:+: lineBits data then .incompleteFrame else .noFlag) := by
  have met := Deframer.sawFlag_feed_iff g.maxInfo (lineBits data)
  rw [decodeHdlc, Deframer.feedUntilItem_of_silent _ silent]
  dsimp only
  by_cases flagged : flag <:+: lineBits data
  · rw [if_pos flagged, if_pos (met.mpr flagged)]
  · rw [if_neg flagged, if_neg (mt met.mp flagged)]

/-- Octets taken at once come to the first item that they give as a stream in any pieces. If they
give none it is a matter of whether there is a flag among their bits. A refusal leaves the frame as
it was. -/
theorem decodeHdlc_first_of_many (g : Frame) (pieces : List Octets) :
    let data := pieces.flatten
    let items := ((Deframer.new g.maxInfo).readPieces pieces).2
    let outcome := items.head?.getD
      (.error (if flag <:+: lineBits data then .incompleteFrame else .noFlag))
    g.decodeHdlc data = outcome ∧ g.after (.decodeHdlc data) = outcome.toOption.getD g := by
  intro data items outcome
  have yielded : items = ((Deframer.new g.maxInfo).feed (lineBits data)).2.map
      (Deframer.toFrame g.maxInfo) := congrArg Prod.snd (Deframer.readPieces_eq pieces _)
  have decoded : g.decodeHdlc data = outcome := by
    simp only [outcome, yielded, List.head?_map]
    cases found : ((Deframer.new g.maxInfo).feed (lineBits data)).2.head? with
    | none => exact decodeHdlc_of_silent (List.head?_eq_none_iff.mp found)
    | some item =>
      rw [decodeHdlc_of_head found, Option.map_some, Option.getD_some, Deframer.toFrame]
      exact congrArg item.bind (load_of_maxInfo rfl)
  refine ⟨decoded, ?_⟩
  rw [after, edit, decoded]
  cases outcome <;> rfl

end Frame

end SimplexControl
