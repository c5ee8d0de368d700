import SimplexControl.Proofs.Hdlc.SizeBound

/-!
# What an encoding writes, to the bit

A frame takes the bits of its buffer from its place on, as many as its line form has, and the rest
of the octet in which it ends. All other bits stay as they were. Whether it has room is a matter of
the octets that it touches, so a buffer that is full to the last bit is not too small.
-/

namespace SimplexControl

namespace Hdlc.Span

theorem advance_le_size (s : Span) : s.advance ≤ s.size := by
  rw [advance]
  split <;> omega

/-- The bits from the first octet on after which a span ends. -/
def bits (s : Span) : Nat := 8 * s.advance + (7 - s.position.val)

end Hdlc.Span

namespace Frame

open Hdlc

variable {f : Frame} {buffer : Octets} {position : BitPosition}

/-- There are octets enough exactly if there are bits enough. -/
theorem size_span_le_iff : (f.span position).size ≤ buffer.length ↔
    7 - position.val + f.lineForm.length ≤ 8 * buffer.length := by
  simp only [span]
  omega

/-- No octet less than those that a frame touches is asked for. -/
theorem size_span_le_hdlcSize (sized : f.hdlcSize ≠ 0) :
    (f.span position).size ≤ f.hdlcSize := by
  have enough := lineForm_fits_hdlcSize sized
  simp only [span]
  omega

/-- The bits of a buffer behind an encoding that has room. -/
theorem lineBits_encodeHdlcFrom (room : (f.span position).size ≤ buffer.length) :
    (f.encodeHdlcFrom buffer position).result = .ok (f.span position) ∧
      lineBits (f.encodeHdlcFrom buffer position).buffer =
        (lineBits buffer).take (7 - position.val) ++ f.lineForm ++
          List.replicate (8 * (f.span position).size -
            (7 - position.val + f.lineForm.length)) false ++
          (lineBits buffer).drop (8 * (f.span position).size) := by
  have fits := size_span_le_iff.mp room
  obtain ⟨used, size, written, padding, _, line⟩ := encodeHdlcFrom_of_fits fits
  have some := List.length_pos_iff.mpr f.lineForm_ne_nil
  have count := congrArg List.length line
  simp only [length_lineBits, List.length_append, List.length_take, List.length_replicate] at count
  have filled : padding = 8 * used.length - (7 - position.val + f.lineForm.length) := by omega
  rw [written, ← size]
  refine ⟨rfl, ?_⟩
  rw [lineBits_append, lineBits_drop, line, ← filled]

/-- A span ends so far inside its last octet as its position says. -/
theorem bits_span (f : Frame) (position : BitPosition) :
    (f.span position).bits = 7 - position.val + f.lineForm.length := by
  have aligned : (f.span position).position = octetAligned ↔
      (7 - position.val + f.lineForm.length) % 8 = 0 := by
    rw [Fin.ext_iff]
    show 7 - (7 - position.val + f.lineForm.length) % 8 = 7 ↔ _
    omega
  rw [Span.bits, Span.advance]
  split
  · next h =>
    rw [aligned] at h
    simp only [span]
    omega
  · next h =>
    rw [aligned] at h
    simp only [span]
    omega

/-- An encoding that has succeeded has begun inside an octet and had room. -/
theorem encodeHdlcAt_inv {f : Frame} {buffer : Octets} {position : Nat} {span : Span}
    (encoded : (f.encodeHdlcAt buffer position).result = .ok span) :
    ∃ place : BitPosition, place.val = position ∧ span = f.span place ∧
      span.size ≤ buffer.length := by
  by_cases within : position < 8
  · obtain ⟨place, rfl⟩ : ∃ place : BitPosition, place.val = position := ⟨⟨position, within⟩, rfl⟩
    rw [encodeHdlcAt_val] at encoded
    by_cases room : (f.span place).size ≤ buffer.length
    · rw [(lineBits_encodeHdlcFrom room).1] at encoded
      cases encoded
      exact ⟨place, rfl, rfl, room⟩
    · have tight := Nat.lt_of_not_le (mt size_span_le_iff.mpr room)
      rw [encodeHdlcFrom_of_not_fits tight] at encoded
      cases encoded
  · rw [encodeHdlcAt, dif_neg within] at encoded
    cases encoded

/-- Behind the bits kept an encoding that has succeeded shows the line form of its frame. -/
theorem lineBits_encodeHdlcAt {f : Frame} {buffer : Octets} {position : Nat} {span : Span}
    (encoded : (f.encodeHdlcAt buffer position).result = .ok span) :
    span.bits = 7 - position + f.lineForm.length ∧
      ∃ kept more : List Bool, kept.length = 7 - position ∧
        lineBits (f.encodeHdlcAt buffer position).buffer = kept ++ (f.lineForm ++ more) := by
  obtain ⟨place, rfl, rfl, room⟩ := encodeHdlcAt_inv encoded
  have fits := size_span_le_iff.mp room
  have kept : ((lineBits buffer).take (7 - place.val)).length = 7 - place.val := by
    rw [List.length_take, length_lineBits]
    omega
  have line := (lineBits_encodeHdlcFrom room).2
  rw [List.append_assoc, List.append_assoc] at line
  rw [encodeHdlcAt_val]
  exact ⟨f.bits_span place, _, _, kept, line⟩

/-- An encoding succeeds exactly if there are as many octets as its line form touches behind the
bits before its place. Then it keeps these bits and all octets behind the last one that it touches,
which it fills up with zeros. Otherwise it asks for more octets than there are, unless the number to
ask for cannot be represented, and from a place that no octet has it writes nothing at all. -/
theorem encodeHdlcAt_exact (f : Frame) (buffer : Octets) (position : Nat) :
    let line := flag ++ stuff (contentBits (f.octets ++ Fcs.octets (Fcs.ofOctets f.octets))) ++ flag
    let stop := 7 - position + line.length
    let size := (stop + 7) / 8
    let written := f.encodeHdlcAt buffer position
    (position < 8 →
      ((∃ span, written.result = .ok span) ↔ size ≤ buffer.length) ∧
        (size ≤ buffer.length →
          written.result = .ok ⟨size, ⟨7 - stop % 8, by omega⟩⟩ ∧
            lineBits written.buffer = (lineBits buffer).take (7 - position) ++ line ++
              List.replicate (8 * size - stop) false ++ (lineBits buffer).drop (8 * size)) ∧
        (buffer.length < size →
          written.result = .error (.bufferTooSmall f.hdlcSize buffer.length) ∧
            (f.hdlcSize ≠ 0 → buffer.length < f.hdlcSize))) ∧
      (8 ≤ position → written = ⟨.error (.invalidBitPosition position), buffer⟩) := by
  intro line stop size written
  refine ⟨fun within => ?_, fun beyond => dif_neg (Nat.not_lt.mpr beyond)⟩
  obtain ⟨place, rfl⟩ : ∃ place : BitPosition, place.val = position := ⟨⟨position, within⟩, rfl⟩
  have encoded : written = f.encodeHdlcFrom buffer place := encodeHdlcAt_val f buffer place
  have refused (tight : buffer.length < size) :
      written.result = .error (.bufferTooSmall f.hdlcSize buffer.length) := by
    rw [encoded]
    apply encodeHdlcFrom_of_not_fits
    exact Nat.lt_of_not_le fun fits => Nat.not_le.mpr tight (size_span_le_iff.mpr fits)
  refine ⟨⟨?_, fun room => ?_⟩, fun room => ?_, fun tight => ⟨refused tight, fun sized => ?_⟩⟩
  · rintro ⟨span, done⟩
    apply Nat.not_lt.mp
    intro tight
    rw [refused tight] at done
    cases done
  · rw [encoded]
    exact ⟨_, (lineBits_encodeHdlcFrom room).1⟩
  · rw [encoded]
    exact lineBits_encodeHdlcFrom room
  · exact Nat.lt_of_lt_of_le tight (size_span_le_hdlcSize sized)

/-- A frame that ends with the last bit of its buffer, and the same without the last octet. -/
theorem encodeHdlcAt_exact_to_the_end :
    let f : Frame := ⟨0, 0x61, 3, [0xFF], 260⟩
    let buffer : Octets := List.replicate 9 0xBF
    let written := f.encodeHdlcAt buffer 1
    written.result = .ok ⟨9, octetAligned⟩ ∧
      lineBits written.buffer = [true, false, true, true, true, true] ++ f.lineForm ∧
      (f.encodeHdlcAt (buffer.take 8) 1).result = .error (.bufferTooSmall 10 8) ∧
      f.encodeHdlcAt buffer 8 = ⟨.error (.invalidBitPosition 8), buffer⟩ := by
  intro f buffer written
  have ends : f.span 1 = ⟨9, octetAligned⟩ := by decide +kernel
  have filled : (lineBits buffer).take 6 ++ f.lineForm ++
      List.replicate (8 * (f.span 1).size - (6 + f.lineForm.length)) false ++
        (lineBits buffer).drop (8 * (f.span 1).size) =
      [true, false, true, true, true, true] ++ f.lineForm := by decide +kernel
  have asked : f.hdlcSize = 10 := by decide +kernel
  have room : (f.span 1).size ≤ buffer.length := by rw [ends]; decide
  have tight : (buffer.take 8).length < (f.span 1).size := by rw [ends]; decide
  obtain ⟨done, line⟩ := ((encodeHdlcAt_exact f buffer 1).1 (by decide)).2.1 room
  obtain ⟨refused, _⟩ := ((encodeHdlcAt_exact f (buffer.take 8) 1).1 (by decide)).2.2 tight
  rw [asked] at refused
  exact ⟨done.trans (congrArg Except.ok ends), line.trans filled, refused,
    (encodeHdlcAt_exact f buffer 8).2 (Nat.le_refl 8)⟩

end Frame

end SimplexControl
