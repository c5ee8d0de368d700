import SimplexControl.Octets
import SimplexControl.Size
import SimplexControl.Frame.Error

/-!
# Q.922 frames

A frame is a header of three octets and an information field that may not grow beyond the
frame's own maximum. This module makes and resizes frames; how a frame is laid on the line is
the matter of `Frame.AnnexQ` and of the HDLC modules.
-/

namespace SimplexControl

/-- A Q.922 frame. -/
structure Frame where
  /-- The high order address octet. -/
  high : UInt8
  /-- The low order address octet. -/
  low : UInt8
  /-- The control field octet. -/
  control : UInt8
  /-- The information field. -/
  info : Octets
  /-- The largest information field that resizing and decoding allow. -/
  maxInfo : Nat
deriving DecidableEq, Repr

/-- What an encoder leaves behind: its result, and the caller's buffer as it is afterwards. -/
structure Written (α : Type) where
  /-- What the encoder answers. -/
  result : Except EncodeError α
  /-- The whole buffer after the call, also after a refused one. -/
  buffer : Octets

namespace Frame

/-- The number of header octets. -/
def headerSize : Nat := 3

/-- The largest information field whose length, header included, fits in two octets. -/
def largestInfo : Nat := 65535 - headerSize

/-- The information field of a frame for which no size is asked. -/
def defaultInfoSize : Nat := 260

/-- The octets of a frame in order, header first. -/
def octets (f : Frame) : Octets := f.high :: f.low :: f.control :: f.info

/-- A frame of zeros; the information field gets at most `largestInfo` octets. -/
def ofSize (size : Nat) : Frame :=
  ⟨0, 0, 0, List.replicate (min size largestInfo) 0, largestInfo⟩

instance : Inhabited Frame := ⟨ofSize defaultInfoSize⟩

/-- A frame of zeros with a maximum of its own. Also under a larger maximum a new information
field gets at most `largestInfo` octets. -/
def ofSizeWithin (size max : Nat) : Except EncodeError Frame :=
  if max < size then .error (.infoTooLarge size max)
  else .ok { ofSize size with maxInfo := max }

/-- The frame with other octets in place of its own. What they lack of a header counts as zero. -/
def refill (f : Frame) (octets : Octets) : Frame :=
  ⟨octets.octetAt 0, octets.octetAt 1, octets.octetAt 2, octets.drop headerSize, f.maxInfo⟩

/-- Resizes the information field, which keeps its common part and is filled with zeros. The sum of
its size and that of the header is not checked, so a size next to the largest one that can be
represented cuts the header. -/
def setInfoSize (f : Frame) (size : Nat) : Except EncodeError Frame :=
  if f.maxInfo < size then .error (.infoTooLarge size f.maxInfo)
  else .ok (f.refill (f.octets.resize (wrapped (headerSize + size))))

/-- Resizes the information field as far as the maximum allows. -/
def clampInfoSize (f : Frame) (size : Nat) : Frame :=
  { f with info := f.info.resize (min size f.maxInfo) }

/-- Writes octets into the information field from `offset` on, as far as it reaches. -/
def writeInfo (f : Frame) (offset : Nat) (data : Octets) : Frame :=
  { f with info := f.info.overwrite offset data }

/-- The frame with header and information field taken from received content. -/
def load (f : Frame) : Octets → Except DecodeError Frame
  | high :: low :: control :: info =>
    if f.maxInfo < info.length then .error (.infoTooLarge info.length f.maxInfo)
    else .ok ⟨high, low, control, info, f.maxInfo⟩
  | short => .error (.frameTooShort short.length)

theorem setInfoSize_of_lt {f : Frame} {size : Nat} (large : f.maxInfo < size) :
    f.setInfoSize size = .error (.infoTooLarge size f.maxInfo) := if_pos large

theorem resize_octets (f : Frame) (size : Nat) :
    f.octets.resize (headerSize + size) = { f with info := f.info.resize size }.octets := by
  rw [Nat.add_comm]
  simp [octets, Octets.resize, headerSize]

/-- A size that can be counted together with the header is the one that the field gets. -/
theorem setInfoSize_of_le {f : Frame} {size : Nat} (room : size ≤ f.maxInfo)
    (representable : headerSize + size < UInt64.size) :
    f.setInfoSize size = .ok { f with info := f.info.resize size } := by
  rw [setInfoSize, if_neg (Nat.not_lt.mpr room), wrapped_of_lt representable, resize_octets]
  rfl

theorem length_octets (f : Frame) : f.octets.length = headerSize + f.info.length := by
  simp only [octets, List.length_cons, headerSize]
  omega

/-- The octets determine everything but the maximum. -/
theorem octets_inj {f g : Frame} :
    f.octets = g.octets ↔ { f with maxInfo := g.maxInfo } = g := by
  cases f; cases g; simp [octets]

/-- All that loading takes from the frame is the maximum. -/
theorem load_of_maxInfo {f g : Frame} (same : g.maxInfo = f.maxInfo) : g.load = f.load := by
  funext content
  unfold load
  rw [same]

/-- Loading gives a frame with exactly these octets, under the same maximum. -/
theorem load_eq_ok_iff {f g : Frame} {content : Octets} :
    f.load content = .ok g ↔
      g.octets = content ∧ g.maxInfo = f.maxInfo ∧ g.info.length ≤ f.maxInfo := by
  cases g
  constructor
  · intro h
    unfold load at h
    split at h
    · split at h
      · cases h
      · cases h; simp only [octets, true_and]; omega
    · cases h
  · rintro ⟨rfl, rfl, h⟩
    simp only [octets, load] at h ⊢
    rw [if_neg (by omega)]

/-- The octets of a frame that is not too large are loaded as this frame. -/
theorem load_octets {f : Frame} (g : Frame) (room : f.info.length ≤ g.maxInfo) :
    g.load f.octets = .ok { f with maxInfo := g.maxInfo } :=
  load_eq_ok_iff.mpr ⟨rfl, rfl, room⟩

end Frame

end SimplexControl
