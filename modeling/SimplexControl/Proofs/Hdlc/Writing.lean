import SimplexControl.Hdlc.Encoding

/-!
# What an encoding leaves in its buffer

The writer is followed through the bits it has written: as long as there is room a push appends
its bit to them, and once a bit has found no room the writer stays exhausted. An encoding
therefore succeeds exactly if the bits kept from the first octet and the line form of the frame
have room in the buffer together. The octets it has used then show these bits, filled up with
zeros to the end of the last octet.
-/

namespace SimplexControl

namespace Hdlc.BitWriter

theorem length_bits (w : BitWriter) : w.bits.length = 8 * w.octets.size + w.filled := by
  simp [bits]

theorem capacity_push (w : BitWriter) (b : Bool) : (w.push b).capacity = w.capacity := by
  unfold push
  split
  · split <;> rfl
  · rfl

theorem exhausted_push {w : BitWriter} (b : Bool) (room : w.octets.size < w.capacity) :
    (w.push b).exhausted = w.exhausted := by
  rw [push, if_pos room]
  split <;> rfl

theorem exhausted_foldl_push (bits : List Bool) :
    ∀ w : BitWriter, w.exhausted = true → (bits.foldl push w).exhausted = true := by
  induction bits with
  | nil => intro w h; exact h
  | cons b bits ih =>
    intro w h
    rw [List.foldl_cons]
    apply ih
    by_cases room : w.octets.size < w.capacity
    · rw [exhausted_push b room, h]
    · rw [push_of_full b (Nat.not_lt.mp room)]

/-- Bits that have room are written behind those before them. -/
theorem foldl_push_of_fits (bits : List Bool) :
    ∀ w : BitWriter, w.filled < 8 → w.bits.length + bits.length ≤ 8 * w.capacity →
      (bits.foldl push w).bits = w.bits ++ bits ∧ (bits.foldl push w).filled < 8 ∧
        (bits.foldl push w).exhausted = w.exhausted := by
  induction bits with
  | nil => intro w filled _; exact ⟨(List.append_nil _).symm, filled, rfl⟩
  | cons b bits ih =>
    intro w filled fits
    have count := length_bits w
    rw [List.length_cons] at fits
    have room : w.octets.size < w.capacity := by omega
    have grown := bits_push b room
    have fits' : (w.push b).bits.length + bits.length ≤ 8 * (w.push b).capacity := by
      rw [grown, capacity_push, List.length_append, List.length_singleton]
      omega
    obtain ⟨written, filled', open'⟩ := ih (w.push b) (filled_push b filled) fits'
    rw [List.foldl_cons]
    refine ⟨?_, filled', ?_⟩
    · rw [written, grown, List.append_assoc, List.singleton_append]
    · rw [open', exhausted_push b room]

/-- Bits that have no room exhaust the writer. -/
theorem exhausted_of_not_fits (bits : List Bool) :
    ∀ w : BitWriter, w.filled < 8 → bits ≠ [] → 8 * w.capacity < w.bits.length + bits.length →
      (bits.foldl push w).exhausted = true := by
  induction bits with
  | nil => intro w _ nonempty _; exact absurd rfl nonempty
  | cons b bits ih =>
    intro w filled _ tight
    have count := length_bits w
    rw [List.length_cons] at tight
    rw [List.foldl_cons]
    by_cases room : w.octets.size < w.capacity
    · have more : bits ≠ [] := by
        intro none
        rw [none, List.length_nil] at tight
        omega
      apply ih (w.push b) (filled_push b filled) more
      rw [bits_push b room, capacity_push, List.length_append, List.length_singleton]
      omega
    · apply exhausted_foldl_push
      rw [push_of_full b (Nat.not_lt.mp room)]

theorem length_bits_start (buffer : Octets) (position : BitPosition) :
    (start buffer position).bits.length = 7 - position.val := by
  rw [length_bits]
  simp [start]

/-- A writer begins with the bits of the first octet before its place. -/
theorem bits_start {buffer : Octets} (position : BitPosition) (nonempty : buffer ≠ []) :
    (start buffer position).bits = (lineBits buffer).take (7 - position.val) := by
  cases buffer with
  | nil => exact absurd rfl nonempty
  | cons o buffer =>
    have total : 7 - position.val + (position.val + 1) = 8 := by omega
    have kept := lowBits_shiftRight (7 - position.val) (position.val + 1) o.toNat
    rw [total] at kept
    have inFirst : 7 - position.val ≤ (msbFirst o).length := by rw [length_msbFirst]; omega
    have rest : (lowBits 8 o.toNat).length - (7 - position.val) = position.val + 1 := by
      rw [length_lowBits]
      omega
    rw [lineBits_cons, List.take_append_of_le_length inFirst, msbFirst, lsbFirst,
      List.take_reverse, rest, ← kept]
    rfl

/-- The octets in use show the bits written, filled up with zeros. -/
theorem lineBits_used {w : BitWriter} (filled : w.filled < 8) :
    lineBits (w.octets.toList ++ w.lastOctet) =
      w.bits ++ List.replicate ((8 - w.filled) % 8) false := by
  rw [lineBits_append, bits, List.append_assoc, lastOctet]
  congr 1
  by_cases aligned : w.filled = 0
  · rw [if_pos aligned, aligned]
    rfl
  · have total : w.filled + (8 - w.filled) = 8 := by omega
    have padding : (8 - w.filled) % 8 = 8 - w.filled := Nat.mod_eq_of_lt (by omega)
    have shifted := lowBits_shiftLeft w.filled (8 - w.filled) w.value
    rw [total] at shifted
    rw [if_neg aligned, padding, lineBits_cons, lineBits_nil, List.append_nil, msbFirst,
      lsbFirst_ofNat, shifted, List.reverse_append, List.reverse_replicate]

theorem length_used (w : BitWriter) : (w.octets.toList ++ w.lastOctet).length = w.size := by
  rw [List.length_append, Array.length_toList, size, lastOctet]
  split <;> rfl

/-! ## Content -/

theorem push_ones (w : BitWriter) (b : Bool) (ones : Nat) :
    { w with ones := ones }.push b = { w.push b with ones := ones } := by
  unfold push
  split
  · split <;> rfl
  · rfl

/-- Pushing does not look at the ones counted. -/
theorem foldl_push_ones (bits : List Bool) (ones : Nat) :
    ∀ w : BitWriter,
      bits.foldl push { w with ones := ones } = { bits.foldl push w with ones := ones } := by
  induction bits with
  | nil => intro w; rfl
  | cons b bits ih =>
    intro w
    rw [List.foldl_cons, push_ones, ih]
    rfl

theorem ones_push (w : BitWriter) (b : Bool) : (w.push b).ones = w.ones := by
  unfold push
  split
  · split <;> rfl
  · rfl

/-- Content is pushed in its stuffed form. -/
theorem foldl_pushContent (bits : List Bool) :
    ∀ w : BitWriter, ∃ ones, bits.foldl pushContent w =
      { (stuffFrom w.ones bits).foldl push w with ones := ones } := by
  induction bits with
  | nil => intro w; exact ⟨w.ones, rfl⟩
  | cons b bits ih =>
    intro w
    obtain ⟨ones, later⟩ := ih (w.pushContent b)
    refine ⟨ones, ?_⟩
    rw [List.foldl_cons, later]
    cases b with
    | false =>
      simp only [pushContent, stuffFrom, Bool.false_eq_true, if_false, List.foldl_cons,
        foldl_push_ones]
    | true =>
      simp only [pushContent, stuffFrom, if_true, ones_push]
      split <;> simp only [List.foldl_cons, foldl_push_ones]

theorem foldl_pushOctet (xs : Octets) (w : BitWriter) :
    xs.foldl pushOctet w = (contentBits xs).foldl pushContent w := by
  rw [contentBits, List.foldl_flatMap]
  rfl

end Hdlc.BitWriter

/-- The number of places that are free in an octet if the next bit goes to this one, where a new
octet has none. -/
def Hdlc.BitPosition.unfilled (position : BitPosition) : Nat := (position.val + 1) % 8

theorem Hdlc.unfilled_octetAligned : octetAligned.unfilled = 0 := by decide

namespace Frame

open Hdlc

/-- The span of a frame that is encoded from a place on. -/
def span (f : Frame) (position : BitPosition) : Span :=
  let bits := 7 - position.val + f.lineForm.length
  ⟨(bits + 7) / 8, ⟨7 - bits % 8, by omega⟩⟩

theorem length_lineForm (f : Frame) :
    f.lineForm.length = 8 + (stuff f.checkedBits).length + 8 := by
  rw [lineForm, List.length_append, List.length_append]
  rfl

theorem lineForm_append (f : Frame) (more : List Bool) :
    f.lineForm ++ more = flag ++ (stuff f.checkedBits ++ flag ++ more) := by
  simp only [lineForm, List.append_assoc]

theorem lineForm_ne_nil (f : Frame) : f.lineForm ≠ [] := by
  simp [lineForm, flag_eq]

/-- An encoding pushes the line form of the frame. -/
theorem encodeHdlcFrom_eq (f : Frame) (buffer : Octets) (position : BitPosition) :
    f.encodeHdlcFrom buffer position =
      let w := f.lineForm.foldl BitWriter.push (.start buffer position)
      ⟨if w.exhausted then .error (.bufferTooSmall f.hdlcSize buffer.length)
        else .ok ⟨w.size, w.position⟩, w.onto buffer⟩ := by
  obtain ⟨ones, content⟩ :=
    BitWriter.foldl_pushContent f.checkedBits (BitWriter.start buffer position).pushFlag
  have whole : ((Fcs.sealed f.octets).foldl BitWriter.pushOctet
      (BitWriter.start buffer position).pushFlag).pushFlag =
        { f.lineForm.foldl BitWriter.push (.start buffer position) with ones := 0 } := by
    rw [BitWriter.foldl_pushOctet, ← checkedBits, content]
    simp only [BitWriter.pushFlag, BitWriter.foldl_push_ones, lineForm, stuff, List.foldl_append]
  dsimp only [encodeHdlcFrom]
  rw [whole]
  generalize f.lineForm.foldl BitWriter.push (.start buffer position) = w
  rfl

theorem encodeHdlcAt_val (f : Frame) (buffer : Octets) (position : BitPosition) :
    f.encodeHdlcAt buffer position.val = f.encodeHdlcFrom buffer position :=
  dif_pos position.isLt

/-- A frame that has room behind the bits kept is written whole. -/
theorem encodeHdlcFrom_of_fits {f : Frame} {buffer : Octets} {position : BitPosition}
    (fits : 7 - position.val + f.lineForm.length ≤ 8 * buffer.length) :
    ∃ used : Octets, used.length = (f.span position).size ∧
      f.encodeHdlcFrom buffer position =
        ⟨.ok (f.span position), used ++ buffer.drop used.length⟩ ∧
      ∃ padding < 8, lineBits used =
        (lineBits buffer).take (7 - position.val) ++ f.lineForm ++
          List.replicate padding false := by
  have nonempty : buffer ≠ [] := by
    intro none
    have := List.length_pos_iff.mpr f.lineForm_ne_nil
    rw [none, List.length_nil] at fits
    omega
  have kept := BitWriter.length_bits_start buffer position
  have filled : (BitWriter.start buffer position).filled < 8 := by
    show 7 - position.val < 8
    omega
  obtain ⟨written, filled', open'⟩ := BitWriter.foldl_push_of_fits f.lineForm
    (.start buffer position) filled (by rw [kept]; exact fits)
  rw [encodeHdlcFrom_eq]
  generalize f.lineForm.foldl BitWriter.push (.start buffer position) = w at *
  have count := BitWriter.length_bits w
  rw [written, List.length_append, kept] at count
  have used := BitWriter.length_used w
  have size : w.size = (f.span position).size := by
    simp only [BitWriter.size, span]
    split <;> omega
  have place : w.position = (f.span position).position := by
    apply Fin.ext
    show 7 - w.filled = 7 - (7 - position.val + f.lineForm.length) % 8
    omega
  have open'' : w.exhausted = false := open'
  refine ⟨w.octets.toList ++ w.lastOctet, used.trans size, ?_, (8 - w.filled) % 8, by omega, ?_⟩
  · simp only [open'', Bool.false_eq_true, if_false, BitWriter.onto, used, size, place]
  · rw [BitWriter.lineBits_used filled', written, BitWriter.bits_start position nonempty]

/-- A frame that has no room is refused. -/
theorem encodeHdlcFrom_of_not_fits {f : Frame} {buffer : Octets} {position : BitPosition}
    (tight : 8 * buffer.length < 7 - position.val + f.lineForm.length) :
    (f.encodeHdlcFrom buffer position).result =
      .error (.bufferTooSmall f.hdlcSize buffer.length) := by
  have filled : (BitWriter.start buffer position).filled < 8 := by
    show 7 - position.val < 8
    omega
  have exhausted := BitWriter.exhausted_of_not_fits f.lineForm (.start buffer position) filled
    f.lineForm_ne_nil (by rw [BitWriter.length_bits_start]; exact tight)
  simp only [encodeHdlcFrom_eq, exhausted, if_true]

end Frame

end SimplexControl
