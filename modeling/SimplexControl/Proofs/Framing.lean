import Mathlib.Control.Monad.Basic
import SimplexControl.Endpoint.Transmission
import SimplexControl.Proofs.Frame.AnnexQ
import SimplexControl.Proofs.Hdlc.RoundTrip
import SimplexControl.Proofs.Hdlc.SizeBound

/-!
# What is sent in a framing is read in it

A frame whose information field is not beyond the largest one always gets a payload, in both
framings and from every place of an octet on. A payload is read as its frame by everyone who has
room for it, and refused by everyone else. Reading never changes the maximum of the frame that is
read into.
-/

namespace SimplexControl

/-- In this framing the maximum can be dealt with: a deframer adds the rest of a frame to it. -/
def Framing.Allows (framing : Framing) (maxInfo : Nat) : Prop :=
  framing = .hdlc → Hdlc.shortestFrame + maxInfo < UInt64.size

theorem Framing.allows_largestInfo (framing : Framing) : framing.Allows Frame.largestInfo :=
  fun _ => by decide

namespace Frame

open Hdlc

variable {f g : Frame}

/-! ## HDLC -/

/-- The size bound of a frame that is not too large can be represented. -/
theorem hdlcSize_ne_zero (small : f.info.length ≤ largestInfo) : f.hdlcSize ≠ 0 := by
  have fits := octets_fit_iff.mpr small
  rw [hdlcSize_ne_zero_iff, boundBits, stuffAfter, UInt64.size]
  omega

/-- Only a frame whose size bound can be represented gets a payload. -/
theorem of_payload_hdlc {position next : BitPosition} {octets : Octets}
    (encoded : f.payload .hdlc position = .ok (octets, next)) :
    f.hdlcSize ≠ 0 ∧ next = (f.span position).position ∧
      lineBits octets = List.replicate (7 - position.val) false ++ f.lineForm ++
        List.replicate next.unfilled false := by
  have written : f.toHdlcFrom position = .ok (octets, next) := encoded
  have sized : f.hdlcSize ≠ 0 := by
    intro none
    have some := List.length_pos_iff.mpr f.lineForm_ne_nil
    have tight : 8 * (List.replicate f.hdlcSize (0 : UInt8)).length <
        7 - position.val + f.lineForm.length := by
      rw [none, List.replicate_zero, List.length_nil]
      omega
    rw [toHdlcFrom, encodeHdlcFrom_of_not_fits tight] at written
    cases written
  obtain ⟨octets', written', line⟩ := toHdlcFrom_of_sized sized position
  rw [written] at written'
  cases written'
  exact ⟨sized, rfl, line⟩

/-- A frame that begins in the first octet is found, and loaded if there is room for it. -/
theorem decodeHdlc_of_line {octets : Octets} {kept more : List Bool}
    (line : lineBits octets = kept ++ f.lineForm ++ more) (few : kept.length < 8)
    (representable : shortestFrame + g.maxInfo < UInt64.size) :
    g.decodeHdlc octets = (Deframer.received g.maxInfo f).bind g.load := by
  have idle : ∀ o ∈ ([] : Octets), o = 0x7E ∨ o = 0xFF := by simp
  have first := Deframer.head_feed_frame representable idle few f more
  rw [lineBits_nil, List.nil_append, ← List.append_assoc, ← line] at first
  exact decodeHdlc_of_head first

/-! ## Both framings -/

variable {framing : Framing} {position next : BitPosition} {octets : Octets}

/-- A payload holds its frame and nothing else that could be taken for a frame. -/
theorem decode_of_payload_eq (encoded : f.payload framing position = .ok (octets, next))
    (allowed : framing.Allows g.maxInfo) : ∃ large, g.decode framing octets =
      if f.info.length ≤ g.maxInfo then .ok { f with maxInfo := g.maxInfo }
      else .error (.infoTooLarge large g.maxInfo) := by
  cases framing with
  | annexQ =>
    cases written : f.toAnnexQ with
    | error cause =>
      rw [payload, written] at encoded
      cases encoded
    | ok octets' =>
      rw [payload, written] at encoded
      cases encoded
      obtain ⟨rfl, fits⟩ := toAnnexQ_eq_ok_iff.mp written
      refine ⟨f.info.length, (decodeAnnexQ_annexQ fits g).trans ?_⟩
      split
      · next room => exact load_octets g room
      · next large => exact if_pos (Nat.lt_of_not_le large)
  | hdlc =>
    obtain ⟨_, _, line⟩ := of_payload_hdlc encoded
    have few : (List.replicate (7 - position.val) false).length < 8 := by
      rw [List.length_replicate]
      omega
    refine ⟨g.maxInfo + 1, (decodeHdlc_of_line line few (allowed rfl)).trans ?_⟩
    rw [Deframer.received, Deframer.tooLong_eq (allowed rfl)]
    split
    · next room => exact load_octets g room
    · rfl

/-- A payload is read as its frame by everyone who has room for it. -/
theorem decode_of_payload (encoded : f.payload framing position = .ok (octets, next))
    (allowed : framing.Allows g.maxInfo) (room : f.info.length ≤ g.maxInfo) :
    g.decode framing octets = .ok { f with maxInfo := g.maxInfo } := by
  obtain ⟨_, read⟩ := decode_of_payload_eq encoded allowed
  rw [read, if_pos room]

/-- A payload is refused by everyone who has no room for its frame. -/
theorem decode_of_payload_of_large (encoded : f.payload framing position = .ok (octets, next))
    (allowed : framing.Allows g.maxInfo) (large : g.maxInfo < f.info.length) :
    ∃ cause, g.decode framing octets = .error cause := by
  obtain ⟨_, read⟩ := decode_of_payload_eq encoded allowed
  exact ⟨_, read.trans (if_neg (Nat.not_le.mpr large))⟩

theorem payload_of_small (small : f.info.length ≤ largestInfo) (framing : Framing)
    (position : BitPosition) :
    ∃ octets next, f.payload framing position = .ok (octets, next) := by
  cases framing with
  | annexQ =>
    refine ⟨f.annexQ, position, ?_⟩
    rw [payload, toAnnexQ_of_small small]
    rfl
  | hdlc =>
    obtain ⟨octets, encoded, _⟩ := toHdlcFrom_of_sized (hdlcSize_ne_zero small) position
    exact ⟨octets, _, encoded⟩

theorem decode_payload (small : f.info.length ≤ largestInfo) (framing : Framing)
    (position : BitPosition) :
    ∃ octets next, f.payload framing position = .ok (octets, next) ∧
      ∀ g : Frame, framing.Allows g.maxInfo → f.info.length ≤ g.maxInfo →
        g.decode framing octets = .ok { f with maxInfo := g.maxInfo } := by
  obtain ⟨octets, next, encoded⟩ := payload_of_small small framing position
  exact ⟨octets, next, encoded, fun _ allowed room => decode_of_payload encoded allowed room⟩

theorem decode_toAnnexQ (small : f.info.length ≤ largestInfo) :
    ∃ octets, f.toAnnexQ = .ok octets ∧ ∀ g : Frame, f.info.length ≤ g.maxInfo →
      g.decode .annexQ octets = .ok { f with maxInfo := g.maxInfo } :=
  ⟨f.annexQ, toAnnexQ_of_small small, fun g room =>
    (decodeAnnexQ_annexQ (octets_fit_iff.mpr small) g).trans (load_octets g room)⟩

theorem decode_toHdlc (small : f.info.length ≤ largestInfo) :
    ∃ octets, f.toHdlc = .ok octets ∧ ∀ g : Frame, Framing.hdlc.Allows g.maxInfo →
      f.info.length ≤ g.maxInfo → g.decode .hdlc octets = .ok { f with maxInfo := g.maxInfo } := by
  obtain ⟨octets, next, encoded, read⟩ := decode_payload small .hdlc octetAligned
  refine ⟨octets, ?_, read⟩
  rw [toHdlc, show f.toHdlcFrom octetAligned = _ from encoded]
  rfl

/-- Reading keeps the maximum, and nothing beyond it is read. -/
theorem maxInfo_of_decode {framing : Framing} {data : Octets}
    (read : f.decode framing data = .ok g) :
    g.maxInfo = f.maxInfo ∧ g.info.length ≤ f.maxInfo := by
  cases framing with
  | annexQ =>
    simp only [decode, decodeAnnexQ] at read
    split at read
    · cases read
    split at read
    · cases read
    split at read
    · cases read
    exact (load_eq_ok_iff.mp read).2
  | hdlc =>
    simp only [decode, decodeHdlc] at read
    split at read
    · next item _ =>
      cases item with
      | error cause => cases read
      | ok content => exact (load_eq_ok_iff.mp read).2
    · cases read

end Frame

end SimplexControl
