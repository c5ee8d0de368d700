import Mathlib.Control.Monad.Basic
import SimplexControl.Frame.Edit
import SimplexControl.Proofs.Octets

/-!
# What Annex Q framing accepts

Octets are accepted exactly if they are a frame behind its length and there is room for this
frame. So what has been read is written again octet for octet, and what has been written is read
again as it was. A refusal, on either side, changes nothing.
-/

namespace SimplexControl.Frame

variable {f g : Frame} {data buffer : Octets}

theorem octets_fit_iff : f.octets.length ≤ 65535 ↔ f.info.length ≤ largestInfo := by
  rw [length_octets, largestInfo, headerSize]
  omega

/-! ## Writing -/

theorem encodeAnnexQ_of_fits (fits : f.octets.length ≤ 65535)
    (room : f.annexQSize ≤ buffer.length) :
    f.encodeAnnexQ buffer = ⟨.ok f.annexQSize, f.annexQ ++ buffer.drop f.annexQSize⟩ := by
  rw [encodeAnnexQ, if_neg (Nat.not_lt.mpr fits), if_neg (Nat.not_lt.mpr room)]

theorem encodeAnnexQ_of_not_fits
    (large : ¬ (f.octets.length ≤ 65535 ∧ f.annexQSize ≤ buffer.length)) :
    ∃ cause, f.encodeAnnexQ buffer = ⟨.error cause, buffer⟩ := by
  unfold encodeAnnexQ
  split
  · exact ⟨_, rfl⟩
  next fits =>
  have short : buffer.length < f.annexQSize :=
    Nat.lt_of_not_le fun room => large ⟨Nat.not_lt.mp fits, room⟩
  rw [if_pos short]
  exact ⟨_, rfl⟩

theorem toAnnexQ_eq_ok_iff {octets : Octets} :
    f.toAnnexQ = .ok octets ↔ octets = f.annexQ ∧ f.octets.length ≤ 65535 := by
  by_cases fits : f.octets.length ≤ 65535
  · rw [toAnnexQ, encodeAnnexQ_of_fits fits (Nat.le_of_eq List.length_replicate.symm)]
    show Except.ok ((f.annexQ ++ _).take f.annexQSize) = _ ↔ _
    rw [← length_annexQ, List.take_left]
    simp [fits, eq_comm]
  · obtain ⟨cause, refused⟩ : ∃ cause, f.encodeAnnexQ (List.replicate f.annexQSize 0) =
        ⟨.error cause, List.replicate f.annexQSize 0⟩ :=
      encodeAnnexQ_of_not_fits fun both => fits both.1
    rw [toAnnexQ, refused]
    simp [fits, Except.map]

theorem toAnnexQ_of_small (small : f.info.length ≤ largestInfo) : f.toAnnexQ = .ok f.annexQ :=
  toAnnexQ_eq_ok_iff.mpr ⟨rfl, octets_fit_iff.mpr small⟩

/-! ## Reading -/

theorem toNat_wordAt_annexQ (fits : f.octets.length ≤ 65535) :
    (f.annexQ.wordAt 0).toNat = f.octets.length := by
  rw [annexQ, Octets.wordAt_ofWord_append, UInt16.toNat_ofNat',
    Nat.mod_eq_of_lt (Nat.lt_succ_of_le fits)]

/-- A frame behind its length is found, and loaded if there is room for it. -/
theorem decodeAnnexQ_annexQ (fits : f.octets.length ≤ 65535) (g : Frame) :
    g.decodeAnnexQ f.annexQ = g.load f.octets := by
  have long : headerSize ≤ f.octets.length := by
    rw [length_octets]
    exact Nat.le_add_right _ _
  have body : f.annexQ.drop annexQLengthSize = f.octets := rfl
  have size : f.annexQ.length = annexQLengthSize + f.octets.length := length_annexQ f
  simp only [decodeAnnexQ, toNat_wordAt_annexQ fits, body, size]
  rw [if_neg (by omega), if_neg (by omega), if_neg (by simp)]

/-- Only the frame behind its length is read, and only under a maximum that leaves room for it. -/
theorem decodeAnnexQ_eq_ok_iff :
    g.decodeAnnexQ data = .ok f ↔
      f.annexQ = data ∧ f.octets.length ≤ 65535 ∧ f.maxInfo = g.maxInfo ∧
        f.info.length ≤ g.maxInfo := by
  constructor
  · intro read
    simp only [decodeAnnexQ] at read
    split at read
    · cases read
    next long =>
    split at read
    · cases read
    split at read
    · cases read
    next declared =>
    obtain ⟨content, same, room⟩ := load_eq_ok_iff.mp read
    obtain ⟨first, second, body, rfl⟩ : ∃ first second body, data = first :: second :: body := by
      match data, Nat.not_lt.mp long with
      | first :: second :: body, _ => exact ⟨_, _, _, rfl⟩
    have behind : f.octets = body := content
    have number : 256 * first.toNat + second.toNat = body.length :=
      (Octets.toNat_join first second).symm.trans (not_not.mp declared)
    refine ⟨?_, ?_, same, room⟩
    · rw [annexQ, behind, Octets.ofWord_ofNat number]
      rfl
    · have first_lt := first.toNat_lt
      have second_lt := second.toNat_lt
      rw [behind]
      omega
  · rintro ⟨rfl, fits, same, room⟩
    rw [decodeAnnexQ_annexQ fits, load_octets g room, ← same]

/-! ## The format -/

/-- The octets are in the format: behind a length of two octets come as many octets as it says, a
header and an information field of at most `maxInfo` octets. -/
structure InAnnexQ (maxInfo : Nat) (data : Octets) : Prop where
  long : 5 ≤ data.length
  declared : 256 * (data.octetAt 0).toNat + (data.octetAt 1).toNat = data.length - 2
  room : data.length - 5 ≤ maxInfo

/-- The format is that of frames behind their length. -/
theorem inAnnexQ_iff {maxInfo : Nat} :
    InAnnexQ maxInfo data ↔
      ∃ f : Frame, f.annexQ = data ∧ f.octets.length ≤ 65535 ∧ f.info.length ≤ maxInfo := by
  constructor
  · rintro ⟨long, declared, room⟩
    obtain ⟨first, second, high, low, control, info, rfl⟩ :
        ∃ first second high low control info,
          data = first :: second :: high :: low :: control :: info := by
      match data, long with
      | first :: second :: high :: low :: control :: info, _ => exact ⟨_, _, _, _, _, _, rfl⟩
    let f : Frame := ⟨high, low, control, info, maxInfo⟩
    have number : 256 * first.toNat + second.toNat = f.octets.length := declared
    refine ⟨f, ?_, ?_, room⟩
    · rw [annexQ, Octets.ofWord_ofNat number]
      rfl
    · have first_lt := first.toNat_lt
      have second_lt := second.toNat_lt
      omega
  · rintro ⟨f, rfl, fits, room⟩
    have size : f.annexQ.length = 2 + (3 + f.info.length) := by
      rw [length_annexQ, annexQSize, length_octets]
      rfl
    refine ⟨by omega, ?_, by omega⟩
    rw [← Octets.toNat_wordAt, toNat_wordAt_annexQ fits, size, length_octets, headerSize]
    omega

theorem exists_decodeAnnexQ_iff :
    (∃ f, g.decodeAnnexQ data = .ok f) ↔ InAnnexQ g.maxInfo data := by
  rw [inAnnexQ_iff]
  constructor
  · rintro ⟨f, read⟩
    obtain ⟨whole, fits, _, room⟩ := decodeAnnexQ_eq_ok_iff.mp read
    exact ⟨f, whole, fits, room⟩
  · rintro ⟨f, rfl, fits, room⟩
    exact ⟨_, (decodeAnnexQ_annexQ fits g).trans (load_octets g room)⟩

/-- Octets are accepted exactly if they are in the format. The frame is then written as these
octets again, and a refusal leaves it as it was. A frame that fits is written over as many octets
of a buffer as it says and is read from them wherever there is room for it; any other one is
refused, and the buffer is as before. -/
theorem annexQ_bijection (g : Frame) (data : Octets) (f : Frame) (buffer : Octets) :
    ((∃ got, g.decodeAnnexQ data = .ok got) ↔ InAnnexQ g.maxInfo data) ∧
      (InAnnexQ g.maxInfo data → (g.after (.decodeAnnexQ data)).toAnnexQ = .ok data) ∧
      (¬ InAnnexQ g.maxInfo data → g.after (.decodeAnnexQ data) = g) ∧
      (f.info.length ≤ largestInfo ∧ f.annexQSize ≤ buffer.length →
        let written := f.encodeAnnexQ buffer
        written.result = .ok f.annexQSize ∧ written.buffer.length = buffer.length ∧
          written.buffer.drop f.annexQSize = buffer.drop f.annexQSize ∧
          ∀ receiver : Frame, f.info.length ≤ receiver.maxInfo → ∃ got,
            receiver.decodeAnnexQ (written.buffer.take f.annexQSize) = .ok got ∧
              got.octets = f.octets) ∧
      (¬ (f.info.length ≤ largestInfo ∧ f.annexQSize ≤ buffer.length) →
        ∃ cause, f.encodeAnnexQ buffer = ⟨.error cause, buffer⟩) := by
  rw [← octets_fit_iff]
  refine ⟨exists_decodeAnnexQ_iff, ?_, ?_, ?_, encodeAnnexQ_of_not_fits⟩
  · intro accepted
    obtain ⟨got, read⟩ := exists_decodeAnnexQ_iff.mpr accepted
    obtain ⟨whole, fits, _, _⟩ := decodeAnnexQ_eq_ok_iff.mp read
    have loaded : g.after (.decodeAnnexQ data) = got := by
      rw [after, edit, read]
      rfl
    rw [loaded]
    exact toAnnexQ_eq_ok_iff.mpr ⟨whole.symm, fits⟩
  · intro refused
    cases read : g.decodeAnnexQ data with
    | error cause =>
      rw [after, edit, read]
      rfl
    | ok got => exact absurd (exists_decodeAnnexQ_iff.mp ⟨got, read⟩) refused
  · rintro ⟨fits, room⟩
    have size := length_annexQ f
    rw [encodeAnnexQ_of_fits fits room]
    refine ⟨rfl, ?_, List.drop_left' size, ?_⟩
    · rw [List.length_append, List.length_drop, size]
      omega
    · intro receiver enough
      refine ⟨{ f with maxInfo := receiver.maxInfo }, ?_, rfl⟩
      show receiver.decodeAnnexQ ((f.annexQ ++ _).take f.annexQSize) = _
      rw [List.take_left' size, decodeAnnexQ_annexQ fits, load_octets _ enough]

/-- One octet of information under a maximum of one, and a buffer with an octet to spare. -/
theorem annexQ_bijection_one_octet :
    let f : Frame := ⟨0x00, 0x61, 0x03, [0xAA], 1⟩
    let data : Octets := [0x00, 0x04, 0x00, 0x71, 0x03, 0x55]
    let buffer : Octets := [1, 2, 3, 4, 5, 6, 7]
    InAnnexQ f.maxInfo data ∧ (f.after (.decodeAnnexQ data)).toAnnexQ = .ok data ∧
      ¬ InAnnexQ f.maxInfo (data ++ [0]) ∧ f.after (.decodeAnnexQ (data ++ [0])) = f ∧
      (f.encodeAnnexQ buffer).buffer = [0x00, 0x04, 0x00, 0x61, 0x03, 0xAA, 7] ∧
      (∃ got, f.decodeAnnexQ ((f.encodeAnnexQ buffer).buffer.take 6) = .ok got ∧
        got.octets = f.octets) ∧
      ∃ cause, f.encodeAnnexQ (buffer.take 5) = ⟨.error cause, buffer.take 5⟩ := by
  intro f data buffer
  have inFormat : InAnnexQ f.maxInfo data := ⟨by decide, by decide, by decide⟩
  have notInFormat : ¬ InAnnexQ f.maxInfo (data ++ [0]) := fun h => absurd h.declared (by decide)
  obtain ⟨_, again, _, written, _⟩ := annexQ_bijection f data f buffer
  obtain ⟨_, _, kept, _, refused⟩ := annexQ_bijection f (data ++ [0]) f (buffer.take 5)
  obtain ⟨_, _, _, read⟩ := written ⟨by decide, by decide⟩
  exact ⟨inFormat, again inFormat, notInFormat, kept notInFormat, by decide,
    read f (by decide), refused (by decide)⟩

end SimplexControl.Frame
