import SimplexControl.Hdlc.Deframer

/-!
# Receiving frames

`Deframer.read` turns a stream of octets, however it is divided, into frames and refusals.
`Frame.decodeHdlc` takes the first of them from octets that are complete in themselves.
-/

namespace SimplexControl

namespace Hdlc.Deframer

/-- A deframer for frames of any size that Annex Q framing can carry. -/
def standard : Deframer := new Frame.largestInfo

/-- The frame of checked content, with the maximum of the deframer that has found it. -/
def toFrame (maxInfo : Nat) (item : Item) : Except DecodeError Frame :=
  item.bind { Frame.ofSize 0 with maxInfo := maxInfo }.load

/-- Takes octets from the line and gives the frames and refusals that they complete, in order. -/
def read (d : Deframer) (data : Octets) : Deframer × List (Except DecodeError Frame) :=
  let (after, items) := d.feed (lineBits data)
  (after, items.map (toFrame d.maxInfo))

/-- Takes octets that come in pieces. -/
def readPieces (d : Deframer) : List Octets → Deframer × List (Except DecodeError Frame)
  | [] => (d, [])
  | data :: pieces =>
    let (d, items) := d.read data
    let (d, more) := d.readPieces pieces
    (d, items ++ more)

theorem maxInfo_keep (maxInfo : Nat) (sawFlag : Bool) (c : Candidate) :
    (keep maxInfo sawFlag c).1.maxInfo = maxInfo := by
  unfold keep
  split <;> rfl

theorem maxInfo_step (d : Deframer) (b : Bool) : (d.step b).1.maxInfo = d.maxInfo := by
  obtain ⟨maxInfo, sawFlag, phase⟩ := d
  cases phase with
  | hunting recent =>
    dsimp only [step]
    split <;> rfl
  | collecting c =>
    cases b with
    | true =>
      dsimp only [step]
      split <;> rfl
    | false =>
      dsimp only [step]
      split
      · rw [maxInfo_keep]
      · split
        · rfl
        · rw [maxInfo_keep]

theorem maxInfo_feed (bits : List Bool) :
    ∀ d : Deframer, (d.feed bits).1.maxInfo = d.maxInfo := by
  induction bits with
  | nil => intro d; rfl
  | cons b bits ih => intro d; rw [feed_cons, ih, maxInfo_step]

theorem read_eq (d : Deframer) (data : Octets) :
    d.read data =
      ((d.feed (lineBits data)).1, (d.feed (lineBits data)).2.map (toFrame d.maxInfo)) := rfl

theorem read_append (d : Deframer) (data more : Octets) :
    d.read (data ++ more) =
      (((d.read data).1.read more).1, (d.read data).2 ++ ((d.read data).1.read more).2) := by
  simp only [read_eq, lineBits_append, feed_append, List.map_append, maxInfo_feed]

/-- It makes no difference how a stream of octets is divided. -/
theorem readPieces_eq (pieces : List Octets) :
    ∀ d : Deframer, d.readPieces pieces = d.read pieces.flatten := by
  induction pieces with
  | nil => intro d; rfl
  | cons data pieces ih =>
    intro d
    rw [List.flatten_cons, read_append, ← ih]
    rfl

end Hdlc.Deframer

namespace Frame

/-- Reads the first frame found in `data`; what follows it is not looked at. -/
def decodeHdlc (f : Frame) (data : Octets) : Except DecodeError Frame :=
  match (Hdlc.Deframer.new f.maxInfo).feedUntilItem (lineBits data) with
  | (_, some item) => item.bind f.load
  | (d, none) => .error (if d.sawFlag then .incompleteFrame else .noFlag)

end Frame

end SimplexControl
