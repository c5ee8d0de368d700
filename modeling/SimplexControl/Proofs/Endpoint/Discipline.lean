import Mathlib.Data.List.Induction
import SimplexControl.Proofs.Endpoint.Emission

/-!
# Who gets the packets

Packets go to the emitter of the transmission that runs, which is the one passed to the start that
began it: another start leaves the transmission alone, and a stop takes the emitter away for good.
What is sent on its own is one packet, or nothing has happened.
-/

namespace SimplexControl

theorem Transmitter.Carries.emitter {framing : Framing} {t t' : Transmitter}
    {frames : List Frame} {packets : List Packet} (carried : Carries framing t frames packets t') :
    t'.emitter = t.emitter ∧ ∀ p ∈ packets, p.emitter = t.emitter := by
  induction carried with
  | nil => exact ⟨rfl, List.forall_mem_nil _⟩
  | cons _ _ ih => exact ⟨ih.1, List.forall_mem_cons.mpr ⟨rfl, ih.2⟩⟩

namespace Endpoint

variable {e : Endpoint} {r : Reaction}

/-- The emitter of the running transmission. -/
def emitter? (e : Endpoint) : Option Nat := e.transmitter.map Transmitter.emitter

theorem emitter?_of_idle (idle : e.transmitter = none) : e.emitter? = none := by
  rw [emitter?, idle]
  rfl

theorem isTransmitting_iff_emitter? : e.isTransmitting ↔ ∃ emitter, e.emitter? = some emitter := by
  rw [isTransmitting, emitter?, ← Option.isSome_iff_exists, Option.isSome_map]

/-! ## Operations -/

/-- The emitter behind an operation: a start passes one where there is none, and a stop takes it
away. -/
def Operation.emitterAfter (current : Option Nat) : Operation → Option Nat
  | .startTransmit emitter => some (current.getD emitter)
  | .stopTransmit => none
  | _ => current

/-- The emitter that is there behind an operation has been passed by it, or has been there before
and has not been taken away. -/
theorem Operation.emitterAfter_eq_some_iff {op : Operation} {current : Option Nat} {emitter : Nat} :
    op.emitterAfter current = some emitter ↔
      current = none ∧ op = .startTransmit emitter ∨
        current = some emitter ∧ op ≠ .stopTransmit := by
  cases op with
  | startTransmit emitter' => cases current <;> simp [emitterAfter]
  | _ => simp [emitterAfter]

/-- The packets of the reaction go to the emitter. -/
def Emits (current : Option Nat) (r : Reaction) : Prop :=
  ∀ packet ∈ r.packets, current = some packet.emitter

/-- What is sent goes to the emitter, who stays. -/
theorem Sends.emitter {queue : List Frame} (sends : e.Sends queue r) :
    r.endpoint.emitter? = e.emitter? ∧ Emits e.emitter? r := by
  cases before : e.transmitter with
  | none =>
    obtain ⟨silent, idle⟩ := sends.idle before
    rw [emitter?_of_idle before, emitter?_of_idle idle, Emits, silent]
    exact ⟨rfl, List.forall_mem_nil _⟩
  | some t =>
    obtain ⟨t', after, carried⟩ := sends.running t before
    obtain ⟨same, own⟩ := carried.emitter
    rw [emitter?, emitter?, before, after]
    exact ⟨congrArg some same, fun packet sent => congrArg some (own packet sent).symm⟩

/-- Each operation sends to the emitter that is there behind it. -/
theorem perform_emitter (e : Endpoint) (op : Operation) :
    (e.perform op).endpoint.emitter? = op.emitterAfter e.emitter? ∧
      Emits (op.emitterAfter e.emitter?) (e.perform op) := by
  by_cases stop : op = .stopTransmit
  · subst stop
    exact ⟨rfl, List.forall_mem_nil _⟩
  by_cases begins : e.transmitter = none ∧ ∃ emitter, op = .startTransmit emitter
  · obtain ⟨idle, emitter, rfl⟩ := begins
    rw [emitter?_of_idle idle]
    exact (SendsAll.startTransmit idle emitter).toSends.emitter
  · have noStart : ∀ emitter, op = .startTransmit emitter → e.transmitter.isSome := by
      intro emitter start
      by_contra idle
      exact begins ⟨by simpa using idle, emitter, start⟩
    have stays : op.emitterAfter e.emitter? = e.emitter? := by
      cases op with
      | startTransmit emitter =>
        obtain ⟨t, running⟩ := Option.isSome_iff_exists.mp (noStart emitter rfl)
        rw [emitter?, running]
        rfl
      | stopTransmit => exact absurd rfl stop
      | _ => rfl
    rw [stays]
    exact (Sends.perform e stop noStart).emitter

/-! ## Runs -/

/-- The transmission of an emitter has begun with the start that it was passed to, and has not been
stopped since. -/
theorem exists_start_of_emitter? (config : Config) (ops : List Operation) : ∀ {emitter : Nat},
    ((new config).after ops).emitter? = some emitter → ∃ before within,
      ops = before ++ .startTransmit emitter :: within ∧ .stopTransmit ∉ within ∧
        ((new config).after before).transmitter = none := by
  induction ops using List.reverseRecOn with
  | nil => exact nofun
  | append_singleton ops op ih =>
    intro emitter current
    rw [after_concat, (perform_emitter _ op).1] at current
    rcases Operation.emitterAfter_eq_some_iff.mp current with ⟨none, rfl⟩ | ⟨earlier, noStop⟩
    · exact ⟨ops, [], rfl, List.not_mem_nil, Option.map_eq_none_iff.mp none⟩
    · obtain ⟨before, within, rfl, going, idle⟩ := ih earlier
      refine ⟨before, within ++ [op], ?_, ?_, idle⟩
      · rw [List.append_assoc, List.cons_append]
      · simp [going, noStop.symm]

/-- An emitter that is not there gets nothing unless it is passed to another start. -/
theorem emitter_ne_of_run {emitter : Nat} {ops : List Operation} : ∀ {e : Endpoint},
    e.emitter? ≠ some emitter → .startTransmit emitter ∉ ops →
      ∀ packet ∈ (e.run ops).flatMap Reaction.packets, packet.emitter ≠ emitter := by
  induction ops with
  | nil => exact fun _ _ => List.forall_mem_nil _
  | cons op ops ih =>
    intro e absent notPassed
    obtain ⟨noStart, later⟩ : .startTransmit emitter ≠ op ∧ .startTransmit emitter ∉ ops := by
      simpa using notPassed
    obtain ⟨after, sent⟩ := perform_emitter e op
    have absent' : op.emitterAfter e.emitter? ≠ some emitter := by
      intro there
      rcases Operation.emitterAfter_eq_some_iff.mp there with ⟨_, rfl⟩ | ⟨before, _⟩
      · exact noStart rfl
      · exact absent before
    refine List.forall_mem_append.mpr ⟨fun packet present same => ?_, ih ?_ later⟩
    · exact absent' ((sent packet present).trans (congrArg some same))
    · rwa [after]

/-! ## What is sent on its own -/

/-- An operation that has a single frame to send. -/
def Operation.sendsOne : Operation → Bool
  | .sendClientList | .requestClientList | .requestExtraCapabilities _
  | .sendExtraCapabilitiesOf _ _ | .sendPdu _ _ => true
  | _ => false

theorem SameButTransmission.eq {e e' : Endpoint} (same : SameButTransmission e e')
    (transmitter : e'.transmitter = e.transmitter) : e' = e := by
  obtain ⟨config, registry, transmitter', inbox⟩ := e'
  obtain ⟨rfl, rfl, rfl⟩ := same
  obtain rfl := transmitter
  rfl

theorem SendsAll.ofSendsOne (e : Endpoint) {op : Operation} (one : op.sendsOne) :
    ∃ f, e.SendsAll [f] (e.perform op) ∧ SameButTransmission e (e.perform op).endpoint := by
  have ofComposed {f : Frame} {r : Reaction} (h : e.Composed [f] r) :
      ∃ f, e.SendsAll [f] r ∧ SameButTransmission e r.endpoint :=
    ⟨f, h.sendsAll, h.onlySends.same⟩
  cases op with
  | sendClientList => exact ofComposed (.sendClientList e)
  | requestClientList => exact ofComposed (.message e (cmeHead .clientList .command))
  | requestExtraCapabilities id => exact ofComposed (.requestExtraCapabilities e id)
  | sendExtraCapabilitiesOf id octets => exact ofComposed (.sendExtraCapabilitiesOf e id octets)
  | sendPdu id pdu => exact ⟨_, .sendPdu e id pdu, sendPdu_same e id pdu⟩
  | _ => cases one

/-- One packet, or nothing has happened. -/
theorem perform_sendsOne (e : Endpoint) {op : Operation} (one : op.sendsOne) :
    ((e.perform op).result = .ok () → ∃ packet, (e.perform op).packets = [packet]) ∧
      ∀ cause, (e.perform op).result = .error cause →
        (e.perform op).packets = [] ∧ (e.perform op).endpoint = e := by
  obtain ⟨f, sends, same⟩ := SendsAll.ofSendsOne e one
  constructor
  · intro done
    obtain ⟨_, _, _, _, sent⟩ := sends.packets_of_ok done
    exact ⟨_, sent⟩
  · intro cause failed
    obtain ⟨silent, kept⟩ := sends.silent_of_error failed
    exact ⟨silent, same.eq kept⟩

/-- Whatever has been done, packets go out only in a transmission and only to the emitter that was
passed to the start which began it. An emitter that is passed while a transmission runs gets
nothing, and after a stop no emitter gets anything until it is passed again. What is sent on its
own is one packet, or a failure that changes nothing. -/
theorem perform_discipline (config : Config) (ops : List Operation) :
    let e := (new config).after ops
    (∀ op, ∀ packet ∈ (e.perform op).packets,
      (e.isTransmitting ∨ op = .startTransmit packet.emitter) ∧
        (e.perform op).endpoint.isTransmitting ∧ ∃ before within,
          ops ++ [op] = before ++ .startTransmit packet.emitter :: within ∧
            .stopTransmit ∉ within ∧ ((new config).after before).transmitter = none) ∧
      (∀ emitter later, .startTransmit emitter ∉ later →
        ((∃ t, e.transmitter = some t ∧ t.emitter ≠ emitter) →
          ∀ packet ∈ (e.run (.startTransmit emitter :: later)).flatMap Reaction.packets,
            packet.emitter ≠ emitter) ∧
        ∀ packet ∈ (e.run (.stopTransmit :: later)).flatMap Reaction.packets,
          packet.emitter ≠ emitter) ∧
      ∀ op : Operation, op.sendsOne →
        ((e.perform op).result = .ok () → ∃ packet, (e.perform op).packets = [packet]) ∧
          ∀ cause, (e.perform op).result = .error cause →
            (e.perform op).packets = [] ∧ (e.perform op).endpoint = e := by
  intro e
  refine ⟨fun op packet sent => ?_, fun emitter later notPassed => ⟨?_, ?_⟩,
    fun op one => perform_sendsOne e one⟩
  · obtain ⟨after, emits⟩ := perform_emitter e op
    have current := after.trans (emits packet sent)
    have begun := exists_start_of_emitter? config (ops ++ [op]) (by rwa [after_concat])
    refine ⟨?_, isTransmitting_iff_emitter?.mpr ⟨_, current⟩, begun⟩
    rcases Operation.emitterAfter_eq_some_iff.mp (emits packet sent) with ⟨_, start⟩ | ⟨before, _⟩
    · exact .inr start
    · exact .inl (isTransmitting_iff_emitter?.mpr ⟨_, before⟩)
  · rintro ⟨t, running, other⟩
    have silent : e.perform (.startTransmit emitter) = e.done :=
      startTransmit_of_running (Option.isSome_iff_exists.mpr ⟨t, running⟩) emitter
    have absent : e.emitter? ≠ some emitter := by
      rw [emitter?, running]
      exact fun same => other (Option.some.inj same)
    rw [run, silent]
    exact emitter_ne_of_run absent notPassed
  · exact emitter_ne_of_run (e := { e with transmitter := none }) nofun notPassed

/-- An emitter that is passed while another one gets the packets, with a request to answer behind
it; then a stop with the same behind it, and a client that is not registered. -/
theorem perform_discipline_second_start :
    let ops : List Operation := [.addClient (.plain .cameraControl 0), .startTransmit 1]
    let e := (new ⟨.annexQ, 254⟩).after ops
    let later : List Operation := [.onCmeMessage [0x01, 0xFF], .sendClientList]
    let foreign := Operation.sendPdu (.extended 9) default
    ((e.run (.startTransmit 2 :: later)).flatMap Reaction.packets).map Packet.emitter = [1, 1] ∧
      (∀ packet ∈ (e.run (.startTransmit 2 :: later)).flatMap Reaction.packets,
        packet.emitter ≠ 2) ∧
      (∀ packet ∈ (e.run (.stopTransmit :: later)).flatMap Reaction.packets,
        packet.emitter ≠ 1) ∧
      (∀ packet ∈ (e.perform .sendClientList).packets, ∃ before within,
        ops ++ [.sendClientList] = before ++ .startTransmit packet.emitter :: within ∧
          .stopTransmit ∉ within) ∧
      (∃ packet, (e.perform .sendClientList).packets = [packet]) ∧
      (e.perform foreign).packets = [] ∧ (e.perform foreign).endpoint = e := by
  intro ops e later foreign
  obtain ⟨inTurn, passed, alone⟩ := perform_discipline ⟨.annexQ, 254⟩ ops
  have running : e.transmitter = some ⟨1, Hdlc.octetAligned⟩ := by decide +kernel
  have done : (e.perform .sendClientList).result = .ok () := by decide +kernel
  have refused : (e.perform foreign).result = .error (.notRegistered (.extended 9)) := by
    decide +kernel
  refine ⟨by decide +kernel, (passed 2 later (by decide)).1 ⟨_, running, by decide⟩,
    (passed 1 later (by decide)).2, fun packet sent => ?_, (alone .sendClientList rfl).1 done,
    (alone foreign rfl).2 _ refused⟩
  obtain ⟨_, _, before, within, history, going, _⟩ := inTurn .sendClientList packet sent
  exact ⟨before, within, history, going⟩

end Endpoint

end SimplexControl
