import SimplexControl.Proofs.Endpoint.Chaining

/-!
# A transmission read payload by payload

Payloads that come to a deframer whole and in order are not laid out over one another: where a
frame ends inside an octet, the zeros behind it and those before the next frame are an octet
between two flags, and the deframer takes it for a frame that is too short.
-/

namespace SimplexControl

open Hdlc

namespace Hdlc.Deframer

variable {maxInfo : Nat} {d : Deframer}

/-- What the zeros before a frame in octets of its own come to, together with those behind the
frame before it. -/
def filling {α : Type} (start : BitPosition) : List (Except DecodeError α) :=
  if start = octetAligned then [] else [.error (.frameTooShort 1)]

/-- An octet of zeros between two flags is a candidate. -/
theorem feed_zeros_flag (representable : shortestFrame + maxInfo < UInt64.size) :
    (afterFlag maxInfo).feed (List.replicate 8 false ++ flag) =
      (afterFlag maxInfo, [.error (.frameTooShort 1)]) := by
  have short : (List.replicate 8 false).length < bitLimit maxInfo := by
    rw [List.length_replicate, bitLimit_eq representable, shortestFrame]
    omega
  exact feed_stuff_flag short

/-- A hunt ends at a flag, with an octet of zeros before it or without. -/
theorem feed_hunting_zeros_flag (sawFlag : Bool) (recent : UInt8) :
    (hunting maxInfo sawFlag recent).feed (List.replicate 8 false ++ flag) =
      (afterFlag maxInfo, []) := by
  -- The first zero may end a flag, so that no more than seven of them can be content.
  have first : Idle maxInfo 0 ((hunting maxInfo sawFlag recent).step false).1 ∧
      ((hunting maxInfo sawFlag recent).step false).2 = none := by
    rw [step_hunting]
    split
    · exact ⟨idle_afterFlag, rfl⟩
    · exact ⟨.hunting sawFlag _, rfl⟩
  obtain ⟨idle, silent⟩ := first.1.feed (List.replicate 7 false) (by simp)
  have idle' : Idle maxInfo 7 _ := idle
  rw [List.replicate_succ, List.cons_append, feed_cons, first.2, feed_append, silent,
    idle'.feed_flag]
  rfl

/-- Between frames in octets of their own there is a candidate at most where one of them begins
inside an octet, and there is one if the flag before it has been met. -/
theorem Idle.feed_filling (representable : shortestFrame + maxInfo < UInt64.size)
    (h : Idle maxInfo 0 d) (start : BitPosition) : ∃ items,
    d.feed (List.replicate (start.unfilled + (7 - start.val)) false ++ flag) =
      (afterFlag maxInfo, items) ∧
    (items = [] ∨ items = filling start) ∧ (d = afterFlag maxInfo → items = filling start) := by
  by_cases aligned : start = octetAligned
  · subst aligned
    exact ⟨[], (h.mono (Nat.zero_le 7)).feed_flag, .inl rfl, fun _ => rfl⟩
  · have inside : start.val ≠ 7 := fun same => aligned (Fin.ext same)
    have octet : start.unfilled + (7 - start.val) = 8 := by
      rw [BitPosition.unfilled]
      omega
    have short : filling start = [(.error (.frameTooShort 1) : Item)] := if_neg aligned
    rw [octet, short]
    cases h with
    | hunting sawFlag recent =>
      exact ⟨[], feed_hunting_zeros_flag sawFlag recent, .inl rfl, fun same => by cases same⟩
    | between bits heldZero ones _ few =>
      have none : bits = [] ∧ heldZero = false ∧ ones = 0 := by
        cases heldZero with
        | false => simpa [Candidate.pending] using few
        | true => simp [Candidate.pending] at few
      obtain ⟨rfl, rfl, rfl⟩ := none
      exact ⟨_, feed_zeros_flag representable, .inr rfl, fun _ => rfl⟩

end Hdlc.Deframer

open Deframer

namespace Transmitter

variable {maxInfo : Nat} {t t' : Transmitter} {frames : List Frame} {packets : List Packet}

/-- Payloads one after another give the items of their frames, each behind what the filling before
it comes to. -/
theorem Carries.feed_payloads (representable : shortestFrame + maxInfo < UInt64.size)
    (carried : Carries .hdlc t frames packets t') : ∀ {d : Deframer}, Idle maxInfo 0 d →
    ∃ gaps : List (List Item),
      (d.feed (List.replicate t.position.unfilled false ++
        lineBits (packets.map Packet.payload).flatten)).2 =
          (gaps.zip frames).flatMap (fun (gap, f) => gap ++ [received maxInfo f]) ∧
      List.Forall₂ (fun gap start => gap = [] ∨ gap = filling start) gaps
        (starts t.position frames) ∧
      (t.position = octetAligned ∨ d = afterFlag maxInfo →
        (∀ f ∈ frames, f.info.length ≤ maxInfo) →
        gaps = (starts t.position frames).map filling) := by
  induction carried with
  | nil t =>
    intro d idle
    refine ⟨[], ?_, .nil, fun _ _ => rfl⟩
    have few : t.position.unfilled < 8 := Nat.mod_lt _ (by decide)
    have silent := (idle.feed (List.replicate t.position.unfilled false) (by simpa using few)).2
    simpa [lineBits_nil] using silent
  | @cons t _ f frames packets payload position encoded rest ih =>
    intro d idle
    obtain ⟨_, rfl, line⟩ := Frame.of_payload_hdlc encoded
    obtain ⟨gap, opened, few, met⟩ := idle.feed_filling representable t.position
    obtain ⟨idle', item⟩ := feed_content representable f
    obtain ⟨gaps, items, few', met'⟩ := ih idle'
    have stream : List.replicate t.position.unfilled false ++
        lineBits ((⟨t.emitter, payload, true⟩ :: packets).map Packet.payload).flatten =
          (List.replicate (t.position.unfilled + (7 - t.position.val)) false ++ flag) ++
            ((stuff f.checkedBits ++ flag) ++
              (List.replicate (f.span t.position).position.unfilled false ++
                lineBits (packets.map Packet.payload).flatten)) := by
      rw [List.map_cons, List.flatten_cons, lineBits_append, line, ← List.replicate_append_replicate,
        Frame.lineForm]
      simp only [List.append_assoc]
    refine ⟨gap :: gaps, ?_, .cons few few', ?_⟩
    · rw [stream, feed_append, opened, feed_append, item, items]
      simp
    · intro start fits
      rw [List.forall_mem_cons] at fits
      have first : gap = filling t.position := by
        rcases start with aligned | afterFlag
        · rcases few with none | same
          · rw [none, filling, if_pos aligned]
          · exact same
        · exact met afterFlag
      rw [first, met' (.inr (congrArg Prod.fst (feed_content_of_fits representable fits.1))) fits.2]
      rfl

end Transmitter

namespace Endpoint

variable {e : Endpoint} {ops : List Operation}

/-- Payloads of a transmission that a new deframer takes whole and in order give one item for each
frame, and between them nothing but fillings that are refused as frames that are too short. If no
frame is too long there is one before each frame that begins inside an octet. -/
theorem readPieces_transmission (framing : e.config.framing = .hdlc) (idle : e.transmitter = none)
    (emitter : Nat) (going : .stopTransmit ∉ ops) {maxInfo : Nat}
    (representable : shortestFrame + maxInfo < UInt64.size) :
    let frames := e.sentBy (.startTransmit emitter :: ops)
    let payloads := ((e.run (.startTransmit emitter :: ops)).flatMap Reaction.packets).map
      Packet.payload
    let starts := Hdlc.starts octetAligned frames
    ∃ gaps : List (List (Except DecodeError Frame)),
      ((Deframer.new maxInfo).readPieces payloads).2 =
        (gaps.zip frames).flatMap (fun (gap, f) => gap ++
          [if f.info.length ≤ maxInfo then .ok { f with maxInfo := maxInfo }
            else .error (.infoTooLarge (maxInfo + 1) maxInfo)]) ∧
      List.Forall₂ (fun gap start => gap = [] ∨ gap = filling start) gaps starts ∧
      ((∀ f ∈ frames, f.info.length ≤ maxInfo) → gaps = starts.map filling) := by
  intro frames payloads starts
  obtain ⟨t, _, carried⟩ := carries_transmission idle emitter going
  rw [framing] at carried
  have hunting : Idle maxInfo 0 (Deframer.new maxInfo) := idle_hunt
  obtain ⟨gaps, items, few, met⟩ := carried.feed_payloads representable hunting
  have loaded (start : BitPosition) :
      (filling start).map (toFrame maxInfo) = filling start := by
    rw [filling, filling]
    split <;> rfl
  refine ⟨gaps.map (List.map (toFrame maxInfo)), ?_, ?_, ?_⟩
  · simp only [unfilled_octetAligned, List.replicate_zero, List.nil_append] at items
    rw [readPieces_eq, read_eq]
    show List.map (toFrame maxInfo) _ = _
    rw [items, List.map_flatMap, List.zip_map_left, List.flatMap_map]
    congr 1
    funext ⟨gap, f⟩
    have item := toFrame_received representable f
    rw [List.map_append, List.map_singleton]
    exact congrArg (fun item => gap.map (toFrame maxInfo) ++ [item]) item
  · rw [List.forall₂_map_left_iff]
    refine few.imp fun gap start small => ?_
    rcases small with none | same
    · exact .inl (by rw [none, List.map_nil])
    · exact .inr (by rw [same, loaded])
  · intro fits
    rw [met (.inl rfl) fits, List.map_map]
    exact List.map_congr_left fun start _ => loaded start

/-- The list of no clients ends inside an octet, and what lies between it and the request behind
it is refused. -/
theorem readPieces_transmission_filled :
    ((Deframer.new 9).readPieces
      [[0x7E, 0x00, 0x8E, 0xC0, 0x00, 0x00, 0x00, 0x00, 0x00, 0x03, 0x80, 0x00, 0x00, 0x97, 0x7D,
          0x3F, 0x00],
        [0x3F, 0x00, 0x47, 0x60, 0x00, 0x00, 0x00, 0x00, 0x00, 0x01, 0xC0, 0x7D, 0xD2, 0x98, 0xDF,
          0x80]]).2 =
      [.ok ⟨0x00, 0x71, 3, [0, 0, 0, 0, 0, 0xC0, 0x01, 0x00, 0], 9⟩, .error (.frameTooShort 1),
        .ok ⟨0x00, 0x71, 3, [0, 0, 0, 0, 0, 0xC0, 0x01, 0xFF], 9⟩] := by
  obtain ⟨gaps, items, _, met⟩ := readPieces_transmission (e := new .standard) rfl rfl 0
    (by decide : Operation.stopTransmit ∉ [.requestClientList])
    (by decide : shortestFrame + 9 < UInt64.size)
  rw [run_list_request.1] at items met
  rw [run_list_request.2, met (by decide)] at items
  rw [items]
  decide +kernel

/-- The deframer of any transmission takes more than the frames from the payloads of this one. -/
theorem readPieces_transmission_not_only_frames :
    ¬ ∀ (e : Endpoint) (emitter : Nat) (ops : List Operation), e.config.framing = .hdlc →
      e.transmitter = none → .stopTransmit ∉ ops →
      (Deframer.standard.readPieces (((e.run (.startTransmit emitter :: ops)).flatMap
        Reaction.packets).map Packet.payload)).2 =
          (e.sentBy (.startTransmit emitter :: ops)).map fun f =>
            .ok { f with maxInfo := Frame.largestInfo } := by
  intro only
  have read := only (new .standard) 0 [.requestClientList] rfl rfl (by decide)
  rw [run_list_request.1, run_list_request.2] at read
  revert read
  decide +kernel

end Endpoint

end SimplexControl
