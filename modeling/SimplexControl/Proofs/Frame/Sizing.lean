import SimplexControl.Frame.Edit
import SimplexControl.Proofs.Frame.Buffer
import SimplexControl.Proofs.Framing
import SimplexControl.Proofs.Octets

/-!
# Frames within their maximum

A frame begins within its maximum and stays there: setters and writes keep the size of the
information field, resizing and reading refuse what is beyond the maximum, and nothing changes the
maximum itself. Resizing reaches every size up to it. A frame that is made with a maximum of its
own reaches only what Annex Q framing can carry.
-/

namespace SimplexControl.Frame

open Hdlc

variable {f g : Frame} {size max maxInfo : Nat}

/-! ## Making and resizing -/

/-- A frame of zeros. -/
def blank (size max : Nat) : Frame := ⟨0, 0, 0, List.replicate size 0, max⟩

theorem blank_inj {other : Nat} : blank size max = blank other max ↔ size = other := by
  constructor
  · intro same
    have lengths := congrArg (·.info.length) same
    simpa only [blank, List.length_replicate] using lengths
  · rintro rfl
    rfl

theorem ofSizeWithin_of_lt (large : max < size) :
    ofSizeWithin size max = .error (.infoTooLarge size max) := if_pos large

theorem ofSizeWithin_of_le (room : size ≤ max) :
    ofSizeWithin size max = .ok (blank (min size largestInfo) max) := if_neg (Nat.not_lt.mpr room)

/-- A frame made without information and then resized, under a maximum of its own. -/
def resizedWithin (size max : Nat) : Except EncodeError Frame :=
  (ofSizeWithin 0 max).bind (·.setInfoSize size)

theorem resizedWithin_eq (size max : Nat) :
    resizedWithin size max = (blank 0 max).setInfoSize size := by
  rw [resizedWithin, ofSizeWithin_of_le (Nat.zero_le max), Nat.zero_min]
  rfl

theorem resizedWithin_of_le (room : size ≤ max) (representable : headerSize + size < UInt64.size) :
    resizedWithin size max = .ok (blank size max) := by
  have zeros : Octets.resize (blank 0 max).info size = List.replicate size 0 := by
    simp [blank, Octets.resize]
  rw [resizedWithin_eq, setInfoSize_of_le (f := blank 0 max) room representable, zeros]
  rfl

/-- Where the sum of the sizes has wrapped around nothing is left of the information field. -/
theorem info_resizedWithin (room : size ≤ max) (word : size < UInt64.size)
    (large : UInt64.size ≤ headerSize + size) :
    ∃ f, resizedWithin size max = .ok f ∧ f.info = [] := by
  have short : (Octets.resize (blank 0 max).octets (wrapped (headerSize + size))).length ≤
      headerSize := by
    rw [Octets.length_resize]
    exact Nat.le_of_lt (wrapped_lt_of_le word large)
  refine ⟨(blank 0 max).refill (Octets.resize (blank 0 max).octets (wrapped (headerSize + size))),
    ?_, List.drop_of_length_le short⟩
  rw [resizedWithin_eq, setInfoSize]
  exact if_neg (Nat.not_lt.mpr room)

/-- A frame cannot be made beyond its maximum, nor resized beyond it. Within it resizing gives as
many zeros as are asked for, as long as they can be counted together with the header, but making
gives `largestInfo` at most. Where they cannot, resizing stops or cuts the header. So the two agree
exactly if no more octets are asked for than making gives or both refuse. -/
theorem ofSizeWithin_eq_resizedWithin_iff (size max : Nat) :
    (max < size → ofSizeWithin size max = .error (.infoTooLarge size max) ∧
        resizedWithin size max = .error (.infoTooLarge size max)) ∧
      (size ≤ max → ofSizeWithin size max = .ok (blank (min size largestInfo) max)) ∧
      (size ≤ max → headerSize + size < UInt64.size →
        resizedWithin size max = .ok (blank size max) ∧
          (blank 0 max).buffer.setInfoSizeChecked size = some (.ok (), (blank size max).buffer)) ∧
      (size ≤ max → size < UInt64.size → UInt64.size ≤ headerSize + size →
        (blank 0 max).buffer.setInfoSizeChecked size = none ∧
          ∃ cut, (blank 0 max).buffer.setInfoSize size = (.ok (), cut) ∧
            cut.octets.length < headerSize) ∧
      (size < UInt64.size →
        (ofSizeWithin size max = resizedWithin size max ↔ max < size ∨ size ≤ largestInfo)) := by
  have refused (large : max < size) : resizedWithin size max = .error (.infoTooLarge size max) :=
    (resizedWithin_eq size max).trans (setInfoSize_of_lt (f := blank 0 max) large)
  refine ⟨fun large => ⟨ofSizeWithin_of_lt large, refused large⟩, ofSizeWithin_of_le, ?_,
    fun room => FrameBuffer.setInfoSize_cuts_header (b := (blank 0 max).buffer) room, ?_⟩
  · intro room representable
    have resized := resizedWithin_of_le room representable
    have always : size ≤ (blank 0 max).maxInfo → headerSize + size < UInt64.size :=
      fun _ => representable
    refine ⟨resized, ?_⟩
    rw [FrameBuffer.setInfoSizeChecked_eq (b := (blank 0 max).buffer) always,
      setInfoSize_buffer _ always, ← resizedWithin_eq, resized]
    rfl
  · intro word
    rcases Nat.lt_or_ge max size with beyond | room
    · rw [ofSizeWithin_of_lt beyond, refused beyond]
      exact iff_of_true rfl (.inl beyond)
    rcases Nat.lt_or_ge (headerSize + size) UInt64.size with representable | large
    · rw [ofSizeWithin_of_le room, resizedWithin_of_le room representable, Except.ok.injEq,
        blank_inj]
      omega
    · have many : largestInfo < size := by
        have rest : headerSize + largestInfo < UInt64.size := by decide
        omega
      obtain ⟨f, resized, nothing⟩ := info_resizedWithin room word large
      rw [ofSizeWithin_of_le room, resized, Except.ok.injEq]
      refine iff_of_false (fun same => ?_) (by omega)
      have lengths := congrArg (·.info.length) same
      simp only [blank, List.length_replicate, nothing, List.length_nil] at lengths
      rw [Nat.min_eq_right (Nat.le_of_lt many)] at lengths
      cases lengths

/-- One octet more than Annex Q framing can carry is within a maximum of this size, but the frame is
made without it. -/
theorem ofSizeWithin_loses_octet :
    ∃ made resized, ofSizeWithin 65533 65533 = .ok made ∧ resizedWithin 65533 65533 = .ok resized ∧
      made.info.length = 65532 ∧ resized.info.length = 65533 :=
  ⟨_, _, ofSizeWithin_of_le (Nat.le_refl _), resizedWithin_of_le (Nat.le_refl _) (by decide),
    List.length_replicate, List.length_replicate⟩

/-! ## Edits -/

/-- A frame as it comes about. -/
inductive Created : Frame → Prop
  | ofSize (size : Nat) : Created (ofSize size)
  | default : Created default
  | ofSizeWithin {size max : Nat} {f : Frame} (made : ofSizeWithin size max = .ok f) : Created f
  | received {d : Deframer} {data : Octets} {f : Frame} (yielded : .ok f ∈ (d.read data).2) :
    Created f

/-- The frame has this maximum and is not beyond it. -/
structure Within (maxInfo : Nat) (f : Frame) : Prop where
  maxInfo_eq : f.maxInfo = maxInfo
  room : f.info.length ≤ maxInfo

theorem within_ofSize (size : Nat) : Within largestInfo (ofSize size) := by
  refine ⟨rfl, ?_⟩
  rw [ofSize, List.length_replicate]
  exact Nat.min_le_right size largestInfo

theorem within_of_ofSizeWithin (made : ofSizeWithin size max = .ok f) : Within max f := by
  rcases Nat.lt_or_ge max size with large | room
  · rw [ofSizeWithin_of_lt large] at made
    cases made
  · rw [ofSizeWithin_of_le room] at made
    cases made
    refine ⟨rfl, ?_⟩
    rw [blank, List.length_replicate]
    exact Nat.le_trans (Nat.min_le_left size largestInfo) room

/-- A frame that a stream yields is within the maximum of the deframer. -/
theorem within_of_read {d : Deframer} {data : Octets} (yielded : .ok f ∈ (d.read data).2) :
    Within d.maxInfo f := by
  obtain ⟨item, _, made⟩ := List.mem_map.mp yielded
  cases item with
  | error cause => cases made
  | ok content =>
    obtain ⟨_, same, room⟩ := load_eq_ok_iff.mp made
    exact ⟨same, room⟩

theorem Created.within (h : Created f) : Within f.maxInfo f := by
  have same {maxInfo : Nat} (made : Within maxInfo f) : Within f.maxInfo f :=
    made.maxInfo_eq.symm ▸ made
  cases h with
  | ofSize size => exact same (within_ofSize size)
  | default => exact same (within_ofSize defaultInfoSize)
  | ofSizeWithin made => exact same (within_of_ofSizeWithin made)
  | received yielded => exact same (within_of_read yielded)

/-- Everything that can be done to a frame keeps it within its maximum, one case for each edit. -/
theorem Within.edit (h : Within maxInfo f) {e : Edit} (done : f.edit e = .ok g) :
    Within maxInfo g := by
  refine ⟨(maxInfo_edit done).trans h.maxInfo_eq, ?_⟩
  have decoded (framing : Framing) {data : Octets} (read : f.decode framing data = .ok g) :
      g.info.length ≤ maxInfo := h.maxInfo_eq ▸ (maxInfo_of_decode read).2
  cases e with
  | high o | low o | control o =>
    cases done
    exact h.room
  | writeInfo offset data =>
    cases done
    rw [writeInfo, Octets.length_overwrite]
    exact h.room
  | infoSize size =>
    have made := mapError_eq_ok_iff.mp done
    rw [setInfoSize] at made
    split at made
    · cases made
    · next room =>
      cases made
      have wrap : wrapped (headerSize + size) ≤ headerSize + size := Nat.mod_le _ _
      have same := h.maxInfo_eq
      rw [refill, List.length_drop, Octets.length_resize]
      omega
  | decodeAnnexQ data => exact decoded .annexQ (mapError_eq_ok_iff.mp done)
  | decodeHdlc data => exact decoded .hdlc (mapError_eq_ok_iff.mp done)

theorem Within.after (h : Within maxInfo f) (e : Edit) : Within maxInfo (f.after e) := by
  cases done : f.edit e with
  | error cause => rwa [after_of_error done]
  | ok g =>
    rw [after_of_ok done]
    exact h.edit done

theorem Within.foldl_after (edits : List Edit) : ∀ {f : Frame}, Within maxInfo f →
    Within maxInfo (edits.foldl Frame.after f) := by
  induction edits with
  | nil => exact fun h => h
  | cons e edits ih => exact fun h => ih (h.after e)

/-- A resized field holds what it held, as far as it reaches, and zeros from there on. -/
theorem getElem?_resize {xs : Octets} {i : Nat} (inside : i < size) :
    (xs.resize size)[i]? = some (xs.octetAt i) := by
  have present : i < (xs.resize size).length := by rwa [Octets.length_resize]
  rw [← Octets.octetAt_resize inside, List.getElem?_eq_getElem present, Octets.octetAt,
    List.getD_eq_getElem?_getD, List.getElem?_eq_getElem present, Option.getD_some]

theorem Edit.representable_of_error {e : Edit} {cause : EditError}
    (refused : f.edit e = .error cause) : e.Representable f.maxInfo := by
  cases e with
  | infoSize size =>
    intro room
    rw [edit, setInfoSize, if_neg (Nat.not_lt.mpr room)] at refused
    cases refused
  | high o | low o | control o | writeInfo offset data | decodeAnnexQ data | decodeHdlc data =>
    trivial

theorem edit_buffer_of_error {e : Edit} {cause : EditError} (refused : f.edit e = .error cause) :
    f.buffer.edit e = some (.error cause, f.buffer) := by
  rw [edit_buffer f (Edit.representable_of_error refused), after_of_error refused, refused]
  rfl

end SimplexControl.Frame
