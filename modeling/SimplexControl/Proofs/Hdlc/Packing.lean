import Mathlib.Algebra.GroupWithZero.Nat
import SimplexControl.Hdlc.Reception
import SimplexControl.Proofs.Hdlc.Extent

/-!
# Packed frames

Frames that are packed one after another into a buffer of the size that their bounds add up to
always fit. The octets in use then show their line forms without a gap, behind the bits kept
from the first octet, and a deframer that takes them in any pieces gives exactly one item for
each frame, in order.
-/

namespace SimplexControl

namespace Hdlc

theorem take_advance_append_occupied (span : Span) (buffer : Octets) (some : 0 < span.size) :
    buffer.take span.advance ++ occupied (buffer.drop span.advance) span.position.val =
      buffer.take span.size := by
  by_cases aligned : span.position = octetAligned
  · rw [occupied, Span.advance, if_pos aligned, if_pos (by rw [aligned]), List.append_nil]
  · have inside : span.position.val ≠ octetAligned.val := fun same => aligned (Fin.ext same)
    have last : span.size - 1 + 1 = span.size := by omega
    rw [occupied, Span.advance, if_neg aligned, if_neg inside, ← List.take_add, last]

theorem pack_cons_of_ok {f : Frame} {buffer written : Octets} {position : Nat} {span : Span}
    (encoded : f.encodeHdlcAt buffer position = ⟨.ok span, written⟩) (frames : List Frame) :
    pack (f :: frames) buffer position =
      (.ok span :: (pack frames (written.drop span.advance) span.position.val).1,
        written.take span.advance ++
          (pack frames (written.drop span.advance) span.position.val).2) := by
  rw [pack, encoded]

/-- Packing that goes on behind a frame has written it whole. -/
theorem pack_cons_inv {f : Frame} {frames : List Frame} {buffer : Octets}
    {position : BitPosition} {spans : List Span}
    (answers : (pack (f :: frames) buffer position.val).1 = spans.map .ok) :
    let written := (f.encodeHdlcFrom buffer position).buffer
    let span := f.span position
    let rest := pack frames (written.drop span.advance) span.position.val
    span.size ≤ buffer.length ∧ (∃ later, spans = span :: later ∧ rest.1 = later.map .ok) ∧
      (pack (f :: frames) buffer position.val).2 = written.take span.advance ++ rest.2 := by
  intro written span rest
  cases encoded : (f.encodeHdlcAt buffer position.val).result with
  | error e =>
    rw [pack, encoded] at answers
    cases spans <;> cases answers
  | ok answer =>
    obtain ⟨place, same, rfl, room⟩ := Frame.encodeHdlcAt_inv encoded
    obtain rfl := Fin.ext same
    have whole : f.encodeHdlcAt buffer place.val = ⟨.ok span, written⟩ := by
      rw [← encoded, Frame.encodeHdlcAt_val]
    rw [pack_cons_of_ok whole] at answers ⊢
    obtain ⟨first, later, rfl, same, answers'⟩ := List.map_eq_cons_iff.mp answers.symm
    cases same
    exact ⟨room, ⟨later, rfl, answers'.symm⟩, rfl⟩

/-- The places at which frames begin, each where the one before it has ended. -/
def starts : BitPosition → List Frame → List BitPosition
  | _, [] => []
  | position, f :: frames => position :: starts (f.span position).position frames

/-- Packing that has succeeded gives the span of every frame from its place on. -/
theorem spans_of_pack (frames : List Frame) : ∀ {buffer : Octets} {position : BitPosition}
    {spans : List Span}, (pack frames buffer position.val).1 = spans.map .ok →
      spans = List.zipWith Frame.span frames (starts position frames) := by
  induction frames with
  | nil =>
    intro buffer position spans answers
    exact List.map_eq_nil_iff.mp answers.symm
  | cons f frames ih =>
    intro buffer position spans answers
    obtain ⟨_, ⟨later, rfl, answers'⟩, _⟩ := pack_cons_inv answers
    rw [ih answers']
    rfl

/-- The line forms of packed frames follow one another behind the bits kept. -/
theorem lineBits_pack (frames : List Frame) : ∀ {f : Frame} {buffer : Octets}
    {position : BitPosition} {spans : List Span},
    (pack (f :: frames) buffer position.val).1 = spans.map .ok →
    ∃ padding < 8, lineBits (pack (f :: frames) buffer position.val).2 =
      (lineBits buffer).take (7 - position.val) ++ (f :: frames).flatMap Frame.lineForm ++
        List.replicate padding false := by
  induction frames with
  | nil =>
    intro f buffer position spans answers
    obtain ⟨room, _, octets⟩ := pack_cons_inv answers
    obtain ⟨_, line⟩ := Frame.lineBits_encodeHdlcFrom room
    have fits := Frame.size_span_le_iff.mp room
    have some : 0 < (f.span position).size := by
      have := List.length_pos_iff.mpr f.lineForm_ne_nil
      simp only [Frame.span]
      omega
    have enough : 7 - position.val + f.lineForm.length ≤ 8 * (f.span position).size ∧
        8 * (f.span position).size < 7 - position.val + f.lineForm.length + 8 := by
      simp only [Frame.span]
      omega
    refine ⟨8 * (f.span position).size - (7 - position.val + f.lineForm.length), by omega, ?_⟩
    rw [octets, pack, take_advance_append_occupied _ _ some, lineBits_take, line,
      List.flatMap_cons, List.flatMap_nil, List.append_nil]
    apply List.take_left'
    simp only [List.length_append, List.length_take, length_lineBits, List.length_replicate]
    omega
  | cons g frames ih =>
    intro f buffer position spans answers
    obtain ⟨room, ⟨later, _, answers'⟩, octets⟩ := pack_cons_inv answers
    obtain ⟨padding, short, rest⟩ := ih answers'
    obtain ⟨_, line⟩ := Frame.lineBits_encodeHdlcFrom room
    have fits := Frame.size_span_le_iff.mp room
    have place : 8 * (f.span position).advance + (7 - (f.span position).position.val) =
        7 - position.val + f.lineForm.length := f.bits_span position
    -- The bits before the place where the frame ends stay, whichever octets they are in.
    have before : (lineBits (f.encodeHdlcFrom buffer position).buffer).take
        (7 - position.val + f.lineForm.length) =
        (lineBits buffer).take (7 - position.val) ++ f.lineForm := by
      rw [line, List.append_assoc _ _ (List.drop _ _)]
      apply List.take_left'
      simp only [List.length_append, List.length_take, length_lineBits]
      omega
    refine ⟨padding, short, ?_⟩
    rw [octets, lineBits_append, rest, lineBits_take, lineBits_drop, List.append_assoc,
      ← List.append_assoc, ← List.take_add, place, before]
    simp only [List.flatMap_cons, List.append_assoc]

/-- Frames whose bounds there is room for are all encoded. -/
theorem answers_of_sized (frames : List Frame) : ∀ {buffer : Octets} {position : BitPosition},
    (∀ f ∈ frames, f.hdlcSize ≠ 0) → (frames.map Frame.hdlcSize).sum ≤ buffer.length →
    ∃ spans : List Span, spans.length = frames.length ∧
      (pack frames buffer position.val).1 = spans.map .ok := by
  induction frames with
  | nil => intro buffer position _ _; exact ⟨[], rfl, rfl⟩
  | cons f frames ih =>
    intro buffer position sized room
    obtain ⟨sizedFirst, sizedRest⟩ := List.forall_mem_cons.mp sized
    rw [List.map_cons, List.sum_cons] at room
    obtain ⟨used, size, whole, _⟩ :=
      Frame.encodeHdlcFrom_of_hdlcSize_le sizedFirst (by omega : f.hdlcSize ≤ buffer.length)
        position
    rw [← Frame.encodeHdlcAt_val] at whole
    have touched : (f.span position).size ≤ f.hdlcSize := Frame.size_span_le_hdlcSize sizedFirst
    have complete := (f.span position).advance_le_size
    have room' : (frames.map Frame.hdlcSize).sum ≤
        ((used ++ buffer.drop used.length).drop (f.span position).advance).length := by
      rw [List.length_drop, List.length_append, List.length_drop]
      omega
    obtain ⟨spans, count, answers⟩ := ih sizedRest room'
    refine ⟨f.span position :: spans, by rw [List.length_cons, count, List.length_cons], ?_⟩
    rw [pack_cons_of_ok whole, answers, List.map_cons]

/-- Packed frames that have room are all encoded, and their line forms follow one another. -/
theorem pack_of_sized (frames : List Frame) (f : Frame) (buffer : Octets)
    (position : BitPosition) (sized : ∀ g ∈ f :: frames, g.hdlcSize ≠ 0)
    (room : ((f :: frames).map Frame.hdlcSize).sum ≤ buffer.length) :
    (∃ spans : List Span, spans.length = (f :: frames).length ∧
      (pack (f :: frames) buffer position.val).1 = spans.map .ok) ∧
    ∃ padding < 8, lineBits (pack (f :: frames) buffer position.val).2 =
      (lineBits buffer).take (7 - position.val) ++ (f :: frames).flatMap Frame.lineForm ++
        List.replicate padding false := by
  obtain ⟨spans, count, answers⟩ := answers_of_sized (f :: frames) sized room
  exact ⟨⟨spans, count, answers⟩, lineBits_pack frames answers⟩

namespace Deframer

variable {maxInfo : Nat}

section Representable

variable (representable : shortestFrame + maxInfo < UInt64.size)
include representable

/-- Frames without a gap between them give exactly their items. -/
theorem Idle.feed_lineForms (frames : List Frame) : ∀ {d : Deframer} (f : Frame),
    Idle maxInfo 7 d →
    Idle maxInfo 0 (d.feed ((f :: frames).flatMap Frame.lineForm)).1 ∧
      (d.feed ((f :: frames).flatMap Frame.lineForm)).2 = (f :: frames).map (received maxInfo) := by
  induction frames with
  | nil =>
    intro d f h
    rw [List.flatMap_cons, List.flatMap_nil, List.append_nil]
    exact h.feed_lineForm representable f
  | cons g frames ih =>
    intro d f h
    obtain ⟨idle, item⟩ := h.feed_lineForm representable f
    obtain ⟨idle', items⟩ := ih g (idle.mono (Nat.zero_le 7))
    rw [List.flatMap_cons, feed_append, item, items]
    exact ⟨idle', rfl⟩

/-- Fewer than eight bits before the frames and behind them make no difference. -/
theorem feed_padded_lineForms (f : Frame) (frames : List Frame) {kept : List Bool}
    {padding : Nat} (few : kept.length < 8) (short : padding < 8) :
    ((new maxInfo).feed (kept ++ (f :: frames).flatMap Frame.lineForm ++
        List.replicate padding false)).2 =
      (f :: frames).map (received maxInfo) := by
  have start : Idle maxInfo 0 (new maxInfo) := idle_hunt
  obtain ⟨before, silent⟩ := start.feed kept (by omega)
  obtain ⟨between, items⟩ := (before.mono (by omega)).feed_lineForms representable frames f
  obtain ⟨_, silent'⟩ := between.feed (List.replicate padding false)
    (by rw [List.length_replicate]; omega)
  rw [feed_append, feed_append, silent, items, silent', List.nil_append, List.append_nil]

theorem toFrame_received (f : Frame) :
    toFrame maxInfo (received maxInfo f) =
      if f.info.length ≤ maxInfo then .ok { f with maxInfo := maxInfo }
      else .error (.infoTooLarge (maxInfo + 1) maxInfo) := by
  rw [received]
  by_cases fits : f.info.length ≤ maxInfo
  · rw [if_pos fits, if_pos fits]
    exact Frame.load_octets { Frame.ofSize 0 with maxInfo := maxInfo } fits
  · rw [if_neg fits, if_neg fits, tooLong_eq representable]
    rfl

/-- A deframer with room for all packed frames gives exactly these frames. -/
theorem read_pack {frames : List Frame} {buffer : Octets} (sized : ∀ f ∈ frames, f.hdlcSize ≠ 0)
    (room : (frames.map Frame.hdlcSize).sum ≤ buffer.length)
    (fits : ∀ f ∈ frames, f.info.length ≤ maxInfo) :
    ((new maxInfo).read (pack frames buffer octetAligned.val).2).2 =
      frames.map fun f => .ok { f with maxInfo := maxInfo } := by
  cases frames with
  | nil => rfl
  | cons f frames =>
    obtain ⟨_, padding, short, line⟩ := pack_of_sized frames f buffer octetAligned sized room
    have kept : ((lineBits buffer).take (7 - octetAligned.val)).length < 8 := by
      rw [List.length_take]
      omega
    rw [read_eq, line, feed_padded_lineForms representable f frames kept short, List.map_map]
    apply List.map_congr_left
    intro g member
    exact (toFrame_received representable g).trans (if_pos (fits g member))

end Representable

end Deframer

/-- Packing into a buffer of the size that the bounds add up to never fails, and a deframer gives
exactly one item for each frame. A bound of 0 stands for one that cannot be represented. -/
theorem readPieces_pack {maxInfo : Nat} (representable : shortestFrame + maxInfo < UInt64.size)
    {frames : List Frame} {buffer : Octets} {position : Nat} {pieces : List Octets}
    (nonempty : frames ≠ []) (sized : ∀ f ∈ frames, f.hdlcSize ≠ 0)
    (within : position < 8) (size : buffer.length = (frames.map Frame.hdlcSize).sum)
    (divided : pieces.flatten = (pack frames buffer position).2) :
    (∃ spans : List Span, spans.length = frames.length ∧
      (pack frames buffer position).1 = spans.map .ok) ∧
    ((Deframer.new maxInfo).readPieces pieces).2 = frames.map fun f =>
      if f.info.length ≤ maxInfo then .ok { f with maxInfo := maxInfo }
      else .error (.infoTooLarge (maxInfo + 1) maxInfo) := by
  obtain ⟨f, frames, rfl⟩ := List.exists_cons_of_ne_nil nonempty
  obtain ⟨place, rfl⟩ : ∃ place : BitPosition, place.val = position := ⟨⟨position, within⟩, rfl⟩
  obtain ⟨answers, padding, short, line⟩ :=
    pack_of_sized frames f buffer place sized (Nat.le_of_eq size.symm)
  refine ⟨answers, ?_⟩
  have kept : ((lineBits buffer).take (7 - place.val)).length < 8 := by
    rw [List.length_take]
    omega
  rw [Deframer.readPieces_eq, divided, Deframer.read_eq, line,
    Deframer.feed_padded_lineForms representable f frames kept short, List.map_map]
  apply List.map_congr_left
  intro g _
  exact Deframer.toFrame_received representable g

/-- Three frames, the second of which is too long, in two pieces. -/
theorem readPieces_pack_too_long_between :
    let frames : List Frame := [⟨0, 0x61, 3, [], 0⟩, ⟨0, 0x61, 3, [0xFF], 1⟩, ⟨0, 0x71, 3, [], 9⟩]
    let stream := (pack frames (List.replicate 28 0xFF) 4).2
    ((Deframer.new 0).readPieces [stream.take 5, stream.drop 5]).2 =
      [.ok ⟨0, 0x61, 3, [], 0⟩, .error (.infoTooLarge 1 0), .ok ⟨0, 0x71, 3, [], 0⟩] := by
  intro frames stream
  have divided : [stream.take 5, stream.drop 5].flatten = stream := by
    rw [List.flatten_cons, List.flatten_cons, List.flatten_nil, List.append_nil,
      List.take_append_drop]
  have representable : shortestFrame + 0 < UInt64.size := by decide
  have items := readPieces_pack representable (List.cons_ne_nil _ _ : frames ≠ []) (by decide)
    (by decide : 4 < 8) (by decide) divided
  exact items.2

end Hdlc

end SimplexControl
