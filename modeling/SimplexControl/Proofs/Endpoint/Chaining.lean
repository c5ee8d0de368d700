import SimplexControl.Proofs.Endpoint.Emission
import SimplexControl.Proofs.Hdlc.Overlay

/-!
# A transmission as one stream

Each payload of a transmission is read as its frame by itself. In HDLC framing the payloads also
fit together: laid out with a shared octet wherever a frame ends inside one, they are the octets
that packing the frames gives.
-/

namespace SimplexControl

open Hdlc

namespace Transmitter

variable {framing : Framing} {t t' : Transmitter} {packets : List Packet}

theorem Carries.decode {frames : List Frame} (carried : Carries framing t frames packets t') :
    List.Forall₂ (fun f payload => ∀ g : Frame, framing.Allows g.maxInfo →
        f.info.length ≤ g.maxInfo → g.decode framing payload = .ok { f with maxInfo := g.maxInfo })
      frames (packets.map Packet.payload) := by
  induction carried with
  | nil => exact .nil
  | cons encoded _ ih =>
    exact .cons (fun _ allowed room => Frame.decode_of_payload encoded allowed room) ih

theorem Carries.sized {frames : List Frame} (carried : Carries .hdlc t frames packets t') :
    ∀ f ∈ frames, f.hdlcSize ≠ 0 := by
  induction carried with
  | nil => simp
  | cons encoded _ ih => exact List.forall_mem_cons.mpr ⟨(Frame.of_payload_hdlc encoded).1, ih⟩

/-- Payloads that are laid out show the line forms of their frames without a gap. -/
theorem Carries.lineBits_layOut (frames : List Frame) : ∀ {t : Transmitter} {f : Frame}
    {packets : List Packet}, Carries .hdlc t (f :: frames) packets t' →
    lineBits (layOut ((packets.map Packet.payload).zip
      ((List.zipWith Frame.span (f :: frames) (starts t.position (f :: frames))).map
        Span.position))) =
      List.replicate (7 - t.position.val) false ++ (f :: frames).flatMap Frame.lineForm ++
        List.replicate t'.position.unfilled false := by
  induction frames with
  | nil =>
    intro t f packets carried
    cases carried with
    | cons encoded rest =>
      cases rest
      obtain ⟨_, rfl, line⟩ := Frame.of_payload_hdlc encoded
      show lineBits (layOut [(_, _)]) = _
      rw [layOut_singleton, line, List.flatMap_singleton]
  | cons g frames ih =>
    intro t f packets carried
    cases carried with
    | cons encoded rest =>
      obtain ⟨_, rfl, line⟩ := Frame.of_payload_hdlc encoded
      have following := ih rest
      rw [List.append_assoc] at following
      refine (lineBits_layOut_cons line following).trans ?_
      simp only [List.flatMap_cons, List.append_assoc]

/-- Payloads that are laid out are their frames packed into zeros. -/
theorem Carries.layOut_eq_pack {frames : List Frame}
    (carried : Carries .hdlc t frames packets t') (aligned : t.position = octetAligned)
    {size : Nat} (room : (frames.map Frame.hdlcSize).sum ≤ size) :
    ∃ spans : List Span,
      (pack frames (List.replicate size 0) octetAligned.val).1 = spans.map .ok ∧
      layOut ((packets.map Packet.payload).zip (spans.map Span.position)) =
        (pack frames (List.replicate size 0) octetAligned.val).2 := by
  cases frames with
  | nil =>
    cases carried
    exact ⟨[], rfl, rfl⟩
  | cons f frames =>
    have room' : ((f :: frames).map Frame.hdlcSize).sum ≤ (List.replicate size (0 : UInt8)).length :=
      room.trans (Nat.le_of_eq List.length_replicate.symm)
    obtain ⟨⟨spans, _, answers⟩, padding, short, line⟩ :=
      pack_of_sized frames f _ octetAligned carried.sized room'
    have laidOut := carried.lineBits_layOut
    rw [aligned, ← spans_of_pack _ answers] at laidOut
    have filled : t'.position.unfilled < 8 := Nat.mod_lt _ (by decide)
    exact ⟨spans, answers, eq_of_lineBits_padded filled short laidOut line⟩

end Transmitter

namespace Endpoint

variable {e : Endpoint} {ops : List Operation}

/-- In a transmission that is not stopped each payload is read as its frame, and the payloads laid
out are the octets that packing the frames into zeros gives, from which a new deframer gives
exactly these frames. -/
theorem layOut_transmission (framing : e.config.framing = .hdlc) (idle : e.transmitter = none)
    (emitter : Nat) (going : .stopTransmit ∉ ops) {size : Nat}
    (room : ((e.sentBy (.startTransmit emitter :: ops)).map Frame.hdlcSize).sum ≤ size) :
    let frames := e.sentBy (.startTransmit emitter :: ops)
    let payloads := ((e.run (.startTransmit emitter :: ops)).flatMap Reaction.packets).map
      Packet.payload
    let packed := pack frames (List.replicate size 0) octetAligned.val
    List.Forall₂ (fun f payload => ∀ g : Frame, shortestFrame + g.maxInfo < UInt64.size →
        f.info.length ≤ g.maxInfo →
        g.decodeHdlc payload = .ok { f with maxInfo := g.maxInfo }) frames payloads ∧
      (∃ spans : List Span, packed.1 = spans.map .ok ∧
        layOut (payloads.zip (spans.map Span.position)) = packed.2) ∧
      ∀ maxInfo, shortestFrame + maxInfo < UInt64.size → (∀ f ∈ frames, f.info.length ≤ maxInfo) →
        ((Deframer.new maxInfo).read packed.2).2 =
          frames.map fun f => .ok { f with maxInfo := maxInfo } := by
  intro frames payloads packed
  obtain ⟨t, _, carried⟩ := carries_transmission idle emitter going
  rw [framing] at carried
  refine ⟨carried.decode.imp ?_, carried.layOut_eq_pack rfl room, ?_⟩
  · intro f payload read g representable
    exact read g fun _ => representable
  intro maxInfo representable fits
  have room' : (frames.map Frame.hdlcSize).sum ≤ (List.replicate size (0 : UInt8)).length :=
    room.trans (Nat.le_of_eq List.length_replicate.symm)
  exact Deframer.read_pack representable carried.sized room' fits

/-- The list of no clients ends inside an octet, and a request follows it. -/
theorem run_list_request :
    (new .standard).sentBy [.startTransmit 0, .requestClientList] =
        [⟨0x00, 0x71, 3, [0, 0, 0, 0, 0, 0xC0, 0x01, 0x00, 0], 65532⟩,
          ⟨0x00, 0x71, 3, [0, 0, 0, 0, 0, 0xC0, 0x01, 0xFF], 65532⟩] ∧
      (((new .standard).run [.startTransmit 0, .requestClientList]).flatMap
          Reaction.packets).map Packet.payload =
        [[0x7E, 0x00, 0x8E, 0xC0, 0x00, 0x00, 0x00, 0x00, 0x00, 0x03, 0x80, 0x00, 0x00, 0x97, 0x7D,
            0x3F, 0x00],
          [0x3F, 0x00, 0x47, 0x60, 0x00, 0x00, 0x00, 0x00, 0x00, 0x01, 0xC0, 0x7D, 0xD2, 0x98, 0xDF,
            0x80]] := by
  decide +kernel

/-- The last octet of one payload and the first one of the next share a place. -/
theorem layOut_transmission_shared_octet :
    let frames : List Frame :=
      [⟨0x00, 0x71, 3, [0, 0, 0, 0, 0, 0xC0, 0x01, 0x00, 0], 65532⟩,
        ⟨0x00, 0x71, 3, [0, 0, 0, 0, 0, 0xC0, 0x01, 0xFF], 65532⟩]
    let payloads : List Octets :=
      [[0x7E, 0x00, 0x8E, 0xC0, 0x00, 0x00, 0x00, 0x00, 0x00, 0x03, 0x80, 0x00, 0x00, 0x97, 0x7D,
          0x3F, 0x00],
        [0x3F, 0x00, 0x47, 0x60, 0x00, 0x00, 0x00, 0x00, 0x00, 0x01, 0xC0, 0x7D, 0xD2, 0x98, 0xDF,
          0x80]]
    let packed := pack frames (List.replicate 39 0) octetAligned.val
    (∃ spans : List Span, packed.1 = spans.map .ok ∧
        layOut (payloads.zip (spans.map Span.position)) = packed.2) ∧
      ((Deframer.new 9).read packed.2).2 = frames.map fun f => .ok { f with maxInfo := 9 } := by
  intro frames payloads packed
  have room : (frames.map Frame.hdlcSize).sum ≤ 39 := by decide
  have small : ∀ f ∈ frames, f.info.length ≤ 9 := by decide
  have sent : (new .standard).sentBy [.startTransmit 0, .requestClientList] = frames :=
    run_list_request.1
  rw [← sent] at room
  obtain ⟨_, laidOut, delivered⟩ := layOut_transmission (e := new .standard) rfl rfl 0
    (by decide : Operation.stopTransmit ∉ [.requestClientList]) room
  rw [sent] at laidOut delivered
  rw [run_list_request.2] at laidOut
  exact ⟨laidOut, delivered 9 (by decide) small⟩

end Endpoint

end SimplexControl
