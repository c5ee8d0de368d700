import Mathlib.Control.Monad.Basic
import SimplexControl.Proofs.Hdlc.Packing

/-!
# Transparency

A run of ones does not reach beyond a zero, so in line forms one after another each is taken by
itself: a zero stands at either end of a flag, and stuffed content has no six ones. What six ones
there are stand in the flags, and so every flag that shows is one that has been put there.
-/

namespace SimplexControl

namespace Hdlc

variable {k n : Nat} {bits more : List Bool}

/-- At this place so many ones come in a row, at least. -/
def OnesAt (k : Nat) (bits : List Bool) (n : Nat) : Prop :=
  List.replicate k true <+: bits.drop n

theorem OnesAt.add_le (h : OnesAt (k + 1) bits n) : n + (k + 1) ≤ bits.length := by
  have count := h.length_le
  rw [List.length_replicate, List.length_drop] at count
  omega

theorem OnesAt.mono {m : Nat} (h : OnesAt k bits n) (fewer : m ≤ k) : OnesAt m bits n := by
  refine List.IsPrefix.trans ?_ h
  obtain ⟨rest, rfl⟩ := Nat.exists_eq_add_of_le fewer
  exact ⟨List.replicate rest true, List.replicate_append_replicate⟩

theorem replicate_infix_iff : List.replicate k true <:+: bits ↔ ∃ n, OnesAt k bits n := by
  constructor
  · rintro ⟨before, after, rfl⟩
    refine ⟨before.length, after, ?_⟩
    rw [List.append_assoc, List.drop_left]
  · rintro ⟨n, run⟩
    exact run.isInfix.trans (List.drop_suffix n bits).isInfix

theorem ones_prefix_append_zero (k : Nat) : ∀ {bits : List Bool},
    List.replicate k true <+: bits ++ false :: more ↔ List.replicate k true <+: bits := by
  induction k with
  | zero => intro bits; exact iff_of_true List.nil_prefix List.nil_prefix
  | succ k ih =>
    intro bits
    cases bits with
    | nil => simp [List.replicate_succ]
    | cons b bits =>
      rw [List.replicate_succ, List.cons_append, List.cons_prefix_cons, List.cons_prefix_cons, ih]

/-- A run of ones is before a zero or behind it. -/
theorem OnesAt.of_append_zero (run : OnesAt (k + 1) (bits ++ false :: more) n) :
    OnesAt (k + 1) bits n ∨ ∃ m, n = bits.length + 1 + m ∧ OnesAt (k + 1) more m := by
  rcases Nat.lt_or_ge bits.length n with behind | before
  · obtain ⟨m, rfl⟩ := Nat.exists_eq_add_of_le (Nat.succ_le_of_lt behind)
    have rest : (bits ++ false :: more).drop (bits.length.succ + m) = more.drop m := by
      rw [List.append_cons, ← List.drop_drop]
      congr 1
      exact List.drop_left' (by rw [List.length_append, List.length_singleton])
    rw [OnesAt, rest] at run
    exact .inr ⟨m, rfl, run⟩
  · rw [OnesAt, List.drop_append_of_le_length before, ones_prefix_append_zero] at run
    exact .inl run

theorem not_onesAt_nil : ¬ OnesAt (k + 1) [] n := by
  intro run
  have := run.add_le
  rw [List.length_nil] at this
  omega

/-- Stuffed content has no six ones in a row, with the ones before it that it goes on from. -/
theorem not_onesAt_stuffFrom (bits : List Bool) : ∀ {ones n : Nat}, ones < stuffAfter →
    ¬ OnesAt 6 (List.replicate ones true ++ stuffFrom ones bits) n := by
  have short {ones n : Nat} (few : ones ≤ stuffAfter) :
      ¬ OnesAt 6 (List.replicate ones true) n := by
    intro run
    have := run.add_le
    rw [List.length_replicate] at this
    rw [stuffAfter] at few
    omega
  induction bits with
  | nil =>
    intro ones n few
    rw [stuffFrom, List.append_nil]
    exact short (Nat.le_of_lt few)
  | cons b bits ih =>
    intro ones n few run
    cases b with
    | false =>
      rw [stuffFrom] at run
      rcases run.of_append_zero with run | ⟨m, _, run⟩
      · exact short (Nat.le_of_lt few) run
      · exact ih stuffAfter_pos run
    | true =>
      rw [stuffFrom] at run
      split at run
      · -- The fifth one in a row, behind which a zero is stuffed.
        rw [List.append_cons, ← List.replicate_succ'] at run
        rcases run.of_append_zero with run | ⟨m, _, run⟩
        · exact short few run
        · exact ih stuffAfter_pos run
      · next notFull =>
        rw [List.append_cons, ← List.replicate_succ'] at run
        exact ih (by omega) run

theorem flag_append (more : List Bool) :
    flag ++ more = false :: (List.replicate 6 true ++ false :: more) := rfl

/-- A flag takes the one run of six ones that it has and cuts all others off. -/
theorem OnesAt.of_append_flag (run : OnesAt 6 (bits ++ (flag ++ more)) n) :
    OnesAt 6 bits n ∨ n = bits.length + 1 ∨
      ∃ m, n = bits.length + 8 + m ∧ OnesAt 6 more m := by
  have ones : (List.replicate 6 true).length = 6 := List.length_replicate
  rw [flag_append] at run
  rcases run.of_append_zero with before | ⟨m, rfl, inside⟩
  · exact .inl before
  · rcases inside.of_append_zero with within | ⟨behind, rfl, later⟩
    · have := within.add_le
      exact .inr (.inl (by omega))
    · exact .inr (.inr ⟨behind, by omega, later⟩)

/-- Where a flag is, six ones begin at the next place, and no seventh comes. -/
theorem onesAt_of_flag (found : flag <+: bits.drop n) :
    OnesAt 6 bits (n + 1) ∧ ¬ OnesAt 7 bits (n + 1) := by
  obtain ⟨rest, split⟩ := found
  have behind : bits.drop (n + 1) = List.replicate 6 true ++ false :: rest := by
    rw [← List.drop_drop, ← split]
    rfl
  rw [OnesAt, OnesAt, behind, ones_prefix_append_zero, ones_prefix_append_zero]
  exact ⟨by decide, by decide⟩

end Hdlc

namespace Frame

open Hdlc

/-- The only six ones in a row that a frame has are those in its flags. -/
theorem onesAt_lineForm_append {f : Frame} {more : List Bool} {n : Nat}
    (run : OnesAt 6 (f.lineForm ++ more) n) :
    n = 1 ∨ n + 7 = f.lineForm.length ∨ ∃ m, n = f.lineForm.length + m ∧ OnesAt 6 more m := by
  have length := f.length_lineForm
  rw [lineForm_append, List.append_assoc, ← List.nil_append (flag ++ _)] at run
  rcases run.of_append_flag with before | opening | ⟨m, rfl, inside⟩
  · exact absurd before not_onesAt_nil
  · exact .inl opening
  · rw [List.length_nil]
    rcases inside.of_append_flag with content | closing | ⟨behind, rfl, later⟩
    · exact absurd content (not_onesAt_stuffFrom f.checkedBits stuffAfter_pos)
    · exact .inr (.inl (by omega))
    · exact .inr (.inr ⟨behind, by omega, later⟩)

theorem flag_prefix_lineForm (f : Frame) (more : List Bool) :
    flag <+: f.lineForm ++ more ∧
      flag <+: (f.lineForm ++ more).drop (f.lineForm.length - 8) := by
  have opened : f.lineForm.length - 8 = (flag ++ stuff f.checkedBits).length := by
    rw [length_lineForm, List.length_append]
    exact Nat.add_sub_cancel _ _
  rw [opened, lineForm_append, List.append_assoc, ← List.append_assoc flag, List.drop_left,
    List.append_assoc]
  exact ⟨List.prefix_append _ _, List.prefix_append _ _⟩

end Frame

namespace Hdlc

/-- The bits before which each frame begins and ends if the first of all begins at `start`. -/
def bounds (start : Nat) : List Frame → List (Nat × Nat)
  | [] => []
  | f :: frames =>
    (start, start + f.lineForm.length) :: bounds (start + f.lineForm.length) frames

theorem bounds_le (frames : List Frame) : ∀ {start : Nat} {place : Nat × Nat},
    place ∈ bounds start frames → start ≤ place.1 ∧ place.1 + 16 ≤ place.2 := by
  induction frames with
  | nil => intro start place member; cases member
  | cons f frames ih =>
    intro start place member
    have length := f.length_lineForm
    rcases List.mem_cons.mp member with rfl | later
    · exact ⟨Nat.le_refl _, by omega⟩
    · have := ih later
      omega

/-- Six ones in a row are all in flags. -/
theorem onesAt_lineForms (frames : List Frame) : ∀ {start n : Nat},
    OnesAt 6 (frames.flatMap Frame.lineForm) n →
      ∃ place ∈ bounds start frames, start + n = place.1 + 1 ∨ start + n + 7 = place.2 := by
  induction frames with
  | nil => intro start n run; exact absurd run not_onesAt_nil
  | cons f frames ih =>
    intro start n run
    rw [List.flatMap_cons] at run
    rw [bounds]
    rcases Frame.onesAt_lineForm_append run with rfl | closing | ⟨m, rfl, later⟩
    · exact ⟨_, List.mem_cons_self, .inl rfl⟩
    · exact ⟨_, List.mem_cons_self, .inr (by omega)⟩
    · obtain ⟨place, member, found⟩ := @ih (start + f.lineForm.length) m later
      exact ⟨place, List.mem_cons_of_mem _ member, by omega⟩

theorem flag_of_bounds (frames : List Frame) : ∀ {start n : Nat} {place : Nat × Nat},
    place ∈ bounds start frames → start + n = place.1 ∨ start + n + 8 = place.2 →
      flag <+: (frames.flatMap Frame.lineForm).drop n := by
  induction frames with
  | nil => intro start n place member; cases member
  | cons f frames ih =>
    intro start n place member found
    obtain ⟨opening, closing⟩ := f.flag_prefix_lineForm (frames.flatMap Frame.lineForm)
    rw [List.flatMap_cons]
    rcases List.mem_cons.mp member with rfl | later
    · have length := f.length_lineForm
      rcases found with first | last
      · obtain rfl : n = 0 := by omega
        exact opening
      · obtain rfl : n = f.lineForm.length - 8 := by omega
        exact closing
    · have := bounds_le frames later
      obtain ⟨m, rfl⟩ : ∃ m, n = f.lineForm.length + m := Nat.exists_eq_add_of_le (by omega)
      rw [List.drop_length_add_append]
      exact ih later (by omega)

/-- Frames one after another show a flag where one of them begins or ends, and nowhere else. -/
theorem flag_at_lineForms {frames : List Frame} (start : Nat) {n : Nat} :
    flag <+: (frames.flatMap Frame.lineForm).drop n ↔
      ∃ place ∈ bounds start frames, start + n = place.1 ∨ start + n + 8 = place.2 := by
  constructor
  · intro found
    obtain ⟨place, member, run⟩ := @onesAt_lineForms frames start _ (onesAt_of_flag found).1
    exact ⟨place, member, by omega⟩
  · rintro ⟨place, member, found⟩
    exact flag_of_bounds frames member found

theorem not_onesAt_seven {frames : List Frame} (n : Nat) :
    ¬ OnesAt 7 (frames.flatMap Frame.lineForm) n := by
  intro run
  -- The first six of them are in a flag, which has a zero where the seventh would be.
  obtain ⟨place, member, found⟩ := @onesAt_lineForms frames 0 n (run.mono (Nat.le_succ 6))
  have := bounds_le frames member
  obtain ⟨m, rfl⟩ : ∃ m, n = m + 1 := Nat.exists_eq_add_of_le' (by omega)
  have behind : flag <+: (frames.flatMap Frame.lineForm).drop m :=
    (flag_at_lineForms 0).mpr ⟨place, member, by omega⟩
  exact (onesAt_of_flag behind).2 run

theorem getLastD_bounds (frames : List Frame) : ∀ start,
    ((bounds start frames).map Prod.snd).getLastD start =
      start + (frames.flatMap Frame.lineForm).length := by
  induction frames with
  | nil => intro start; rfl
  | cons f frames ih =>
    intro start
    rw [bounds, List.map_cons, List.getLastD_cons, ih, List.flatMap_cons, List.length_append,
      Nat.add_assoc]

theorem length_bounds (frames : List Frame) : ∀ start,
    (bounds start frames).length = frames.length := by
  induction frames with
  | nil => intro start; rfl
  | cons f frames ih => intro start; rw [bounds, List.length_cons, ih, List.length_cons]

/-- The bits before which packed frames begin and end, as their answers tell, if the first of all
begins at a place behind so many octets. -/
def extents (offset position : Nat) : List Span → List (Nat × Nat)
  | [] => []
  | span :: spans =>
    (8 * offset + (7 - position), 8 * offset + span.bits) ::
      extents (offset + span.advance) span.position.val spans

theorem extents_spans (frames : List Frame) : ∀ (offset : Nat) (position : BitPosition),
    extents offset position.val (List.zipWith Frame.span frames (starts position frames)) =
      bounds (8 * offset + (7 - position.val)) frames := by
  induction frames with
  | nil => intro offset position; rfl
  | cons f frames ih =>
    intro offset position
    have place := f.bits_span position
    have stop : 8 * offset + (f.span position).bits =
        8 * offset + (7 - position.val) + f.lineForm.length := by omega
    have next : 8 * (offset + (f.span position).advance) + (7 - (f.span position).position.val) =
        8 * offset + (7 - position.val) + f.lineForm.length := by
      rw [← stop, Span.bits]
      omega
    rw [starts, List.zipWith_cons_cons, extents, ih, bounds, stop, next]

end Hdlc

namespace Frame

open Hdlc

/-- An encoding that has succeeded begins and ends with flags, and has no six ones in a row between
them. -/
theorem encodeHdlcAt_between_flags {f : Frame} {buffer : Octets} {position : Nat} {span : Span}
    (encoded : (f.encodeHdlcAt buffer position).result = .ok span) :
    let line := lineBits (f.encodeHdlcAt buffer position).buffer
    let start := 7 - position
    let stop := span.bits
    start + 16 ≤ stop ∧ flag <+: line.drop start ∧ flag <+: line.drop (stop - 8) ∧
      ¬ List.replicate 6 true <:+: (line.take (stop - 8)).drop (start + 8) := by
  obtain ⟨ends, kept, more, count, shown⟩ := lineBits_encodeHdlcAt encoded
  intro line start stop
  have length := f.length_lineForm
  have stop_eq : stop = kept.length + f.lineForm.length := by omega
  have line_eq : line = kept ++ (f.lineForm ++ more) := shown
  obtain ⟨opening, closing⟩ := f.flag_prefix_lineForm more
  have content : (line.take (stop - 8)).drop (start + 8) = stuff f.checkedBits := by
    have before : (kept ++ flag).length = start + 8 := by rw [List.length_append, count]; rfl
    have upTo : (kept ++ flag ++ stuff f.checkedBits).length = stop - 8 := by
      rw [List.length_append, before]
      omega
    have divided : line = kept ++ flag ++ stuff f.checkedBits ++ (flag ++ more) := by
      rw [line_eq, lineForm_append]
      simp only [List.append_assoc]
    rw [divided, List.take_left' upTo, List.drop_left' before]
  refine ⟨by omega, ?_, ?_, ?_⟩
  · have first : start = kept.length := count.symm
    rw [line_eq, first, List.drop_left]
    exact opening
  · have last : stop - 8 = kept.length + (f.lineForm.length - 8) := by omega
    rw [line_eq, last, List.drop_length_add_append]
    exact closing
  · rw [content, replicate_infix_iff]
    rintro ⟨n, run⟩
    exact not_onesAt_stuffFrom f.checkedBits stuffAfter_pos run

end Frame

namespace Hdlc

/-- What packed frames have put on the line is their line forms. -/
theorem packed_bits {frames : List Frame} {buffer : Octets} {position : Nat} {spans : List Span}
    (answers : (pack frames buffer position).1 = spans.map .ok) :
    let places := extents 0 position spans
    let stop := (places.map Prod.snd).getLastD (7 - position)
    places = bounds (7 - position) frames ∧
      ((lineBits (pack frames buffer position).2).take stop).drop (7 - position) =
        frames.flatMap Frame.lineForm := by
  cases frames with
  | nil =>
    obtain rfl : spans = [] := List.map_eq_nil_iff.mp answers.symm
    exact ⟨rfl, List.drop_eq_nil_of_le (List.length_take_le _ _)⟩
  | cons f frames =>
    intro places stop
    obtain ⟨place, rfl⟩ : ∃ place : BitPosition, place.val = position := by
      by_cases within : position < 8
      · exact ⟨⟨position, within⟩, rfl⟩
      · rw [pack, Frame.encodeHdlcAt, dif_neg within] at answers
        cases spans <;> cases answers
    have placed : places = bounds (7 - place.val) (f :: frames) := by
      have same := extents_spans (f :: frames) 0 place
      rw [← spans_of_pack _ answers, Nat.mul_zero, Nat.zero_add] at same
      exact same
    refine ⟨placed, ?_⟩
    obtain ⟨padding, _, line⟩ := lineBits_pack frames answers
    have ends : stop = 7 - place.val + ((f :: frames).flatMap Frame.lineForm).length := by
      simp only [stop, placed, getLastD_bounds]
    have room := (pack_cons_inv answers).1
    have kept : ((lineBits buffer).take (7 - place.val)).length = 7 - place.val := by
      have := Frame.size_span_le_iff.mp room
      rw [List.length_take, length_lineBits]
      omega
    rw [line, List.take_left', List.drop_left' kept]
    rw [List.length_append, kept, ends]

/-- Between its flags an encoded frame has no six ones in a row. Packed frames show a flag exactly
where one of them begins and where one ends, and never seven ones in a row. -/
theorem transparency :
    (∀ (f : Frame) (buffer : Octets) (position : Nat) (span : Span),
      (f.encodeHdlcAt buffer position).result = .ok span →
        let line := lineBits (f.encodeHdlcAt buffer position).buffer
        let start := 7 - position
        let stop := span.bits
        start + 16 ≤ stop ∧ flag <+: line.drop start ∧ flag <+: line.drop (stop - 8) ∧
          ¬ List.replicate 6 true <:+: (line.take (stop - 8)).drop (start + 8)) ∧
    ∀ (frames : List Frame) (buffer : Octets) (position : Nat) (spans : List Span),
      (pack frames buffer position).1 = spans.map .ok →
        let places := extents 0 position spans
        let start := 7 - position
        let stop := (places.map Prod.snd).getLastD start
        let line := (lineBits (pack frames buffer position).2).take stop
        places.length = frames.length ∧
          (∀ n, start ≤ n →
            (flag <+: line.drop n ↔ ∃ place ∈ places, n = place.1 ∨ n + 8 = place.2)) ∧
          ¬ List.replicate 7 true <:+: line.drop start := by
  refine ⟨fun f buffer position span => Frame.encodeHdlcAt_between_flags, ?_⟩
  intro frames buffer position spans answers places start stop line
  obtain ⟨placed, shown⟩ := packed_bits answers
  have places_eq : places = bounds start frames := placed
  have line_eq : line.drop start = frames.flatMap Frame.lineForm := shown
  refine ⟨by rw [places_eq, length_bounds], ?_, ?_⟩
  · intro n behind
    obtain ⟨m, rfl⟩ := Nat.exists_eq_add_of_le behind
    rw [← List.drop_drop, line_eq, places_eq]
    exact flag_at_lineForms start
  · rw [line_eq, replicate_infix_iff]
    rintro ⟨n, run⟩
    exact not_onesAt_seven n run

/-- Two frames with runs of ones across their octets, the second of which begins inside one. -/
theorem transparency_inside_octets :
    let f : Frame := ⟨0xFF, 0xFF, 0xFF, [0xFF, 0x7E], 9⟩
    let g : Frame := ⟨0, 0x61, 3, [0x3F], 260⟩
    let buffer : Octets := List.replicate 28 0xBF
    let alone := lineBits (f.encodeHdlcAt buffer 4).buffer
    let packed := (lineBits (pack [f, g] buffer 4).2).take 147
    ¬ List.replicate 6 true <:+: (alone.take 74).drop 11 ∧
      (∀ n, 3 ≤ n → (flag <+: packed.drop n ↔ n = 3 ∨ n = 74 ∨ n = 82 ∨ n = 139)) ∧
      ¬ List.replicate 7 true <:+: packed.drop 3 := by
  intro f g buffer alone packed
  have encoded : (f.encodeHdlcAt buffer 4).result = .ok ⟨11, 5⟩ := by decide +kernel
  have answers : (pack [f, g] buffer 4).1 = [⟨11, 5⟩, ⟨9, 4⟩].map .ok := by decide +kernel
  obtain ⟨_, _, _, between⟩ := transparency.1 f buffer 4 _ encoded
  obtain ⟨_, flags, ones⟩ := transparency.2 [f, g] buffer 4 _ answers
  have places : extents 0 4 [⟨11, 5⟩, ⟨9, 4⟩] = [(3, 82), (82, 147)] := by decide
  refine ⟨between, fun n behind => (flags n behind).trans ?_, ones⟩
  simp only [places, List.mem_cons, List.not_mem_nil, or_false, exists_eq_or_imp, exists_eq_left]
  omega

end Hdlc

end SimplexControl
