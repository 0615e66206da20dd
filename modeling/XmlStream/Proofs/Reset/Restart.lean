import XmlStream.Proofs.Charset.Decoding
import XmlStream.Proofs.Reset.Calls
import XmlStream.Proofs.Simulation.Runs

namespace XmlStream

/-! The end of a document is a complete reset: no later call can tell the writer from a
new one. -/

structure Sink.Unfailing (sink : Sink) : Prop where
  limit : sink.limit = none
  canFlush : sink.canFlush = true

namespace Encoder

theorem encoder_step {encoder : Encoder} (stateless : encoder.charset ≠ .iso2022jp)
    (character : Char) : (encoder.step character).encoder = encoder := by
  by_cases utf8 : encoder.charset = .utf8
  · rw [step, utf8]
  · rw [step_table ⟨utf8, stateless⟩]
    cases Charset.SingleByte.byteOf? encoder.charset.upperHalf character <;> rfl

theorem encoder_push {encoder : Encoder} (stateless : encoder.charset ≠ .iso2022jp)
    (bytes : ByteArray) (character : Char) : (push (encoder, bytes) character).1 = encoder :=
  encoder_step stateless character

theorem encoder_foldl_push {encoder : Encoder} (stateless : encoder.charset ≠ .iso2022jp)
    (characters : List Char) (bytes : ByteArray) :
    (characters.foldl push (encoder, bytes)).1 = encoder := by
  induction characters generalizing bytes with
  | nil => rfl
  | cons character rest induction =>
      have same := encoder_push stateless bytes character
      rw [List.foldl_cons]
      generalize push (encoder, bytes) character = target at same ⊢
      obtain ⟨after, bytes⟩ := target
      subst same
      exact induction bytes

theorem encoder_transcribe {encoder : Encoder} (stateless : encoder.charset ≠ .iso2022jp)
    (text : String) : (encoder.transcribe text).1 = encoder := by
  have steps (characters : List Char) (bytes : ByteArray) :
      (characters.foldl pushOrRefer (encoder, bytes)).1 = encoder := by
    induction characters generalizing bytes with
    | nil => rfl
    | cons character rest induction =>
        have same : (pushOrRefer (encoder, bytes) character).1 = encoder := by
          unfold pushOrRefer
          split
          · exact encoder_push stateless bytes character
          · rw [push_eq, foldl_push_eq, encoder_push stateless]
            exact encoder_foldl_push stateless _ _
        rw [List.foldl_cons]
        generalize pushOrRefer (encoder, bytes) character = target at same ⊢
        obtain ⟨after, bytes⟩ := target
        subst same
        exact induction bytes
  exact steps text.toList .empty

end Encoder

theorem OutputBuffer.encoder_encoded {encoder : Option Encoder}
    (stateless : ∀ given, encoder = some given → given.charset ≠ .iso2022jp) (text : String) :
    (encoded encoder text).1 = encoder := by
  cases encoder with
  | none => rfl
  | some given => exact congrArg some (Encoder.encoder_transcribe (stateless given rfl) text)

namespace Writer

variable {before after : Writer}

theorem Ready.alike_create {writer : Writer} (ready : writer.Ready)
    (start : writer.phase = .start) (noToken : writer.lastToken = none)
    (passedOn : writer.output.pending = .empty) (unfailing : writer.output.sink.Unfailing) :
    Alike writer.output.sink.received writer
      (create { sink := {}, encoder := writer.output.encoder } writer.settings) := by
  obtain ⟨elements, scope⟩ := ready.layered.start start
  have special : writer.draft.special = none :=
    ready.placed.special_eq_none (by simp [start]) (by simp [start])
  have payload : writer.draft.payload = none :=
    ready.placed.payload_eq_none (by simp [start, Draft.TakesPayload])
  have mode : writer.mode = .fragment := by
    cases found : writer.mode with
    | fragment => rfl
    | document => exact absurd start (ready.placed.document found).1
  have fresh := ready_create { sink := {}, encoder := writer.output.encoder } writer.settings
  exact ⟨⟨rfl, passedOn, ByteArray.append_empty.symm, unfailing.limit, rfl, unfailing.canFlush⟩,
    by rw [stance, start, mode, noToken]; rfl, elements, rfl, scope, ready.sound.bindings,
    fresh.sound.bindings, special, ready.carried.carry_eq_empty payload,
    Draft.payload_eq_none.mp payload⟩

/-- After a successful end of a document a writer answers every sequence of calls like a new
writer with its settings: it gives the same results, fails with the same errors, gets into the
same phases and appends the same bytes. -/
theorem run_after_endDocument (output : OutputBuffer) (settings : Settings)
    (history : List Call) (writer : Writer)
    (reached : writer = ((create output settings).run history).2)
    (unfailing : output.sink.Unfailing)
    (stateless : ∀ encoder, output.encoder = some encoder → encoder.charset ≠ .iso2022jp)
    (ends : (writer.step .endDocument).1.isOk = true) (calls : List Call) :
    let ended := (writer.step .endDocument).2
    let fresh := create { sink := {}, encoder := output.encoder } ended.settings
    (ended.run calls).1 = (fresh.run calls).1 ∧
      (ended.run calls).2.phase = (fresh.run calls).2.phase ∧
      (ended.run calls).2.output.sink.received =
        ended.output.sink.received ++ (fresh.run calls).2.output.sink.received ∧
      (ended.run calls).2.output.pending = (fresh.run calls).2.output.pending := by
  intro ended fresh
  obtain ⟨readyBefore, text, grown⟩ : writer.Ready ∧ ∃ text, output.Extends text writer.output := by
    rw [reached]
    refine (run_extends (ready_create output settings) history).resolve_left ?_
    rw [← reached]
    exact not_spent_of_endDocument (step_ok ends)
  have finishes := (guarded_ok (step_ok ends)).2
  have back : ended.output.pending = .empty ∧ ended.phase = .start ∧ ended.lastToken = none :=
    start_of_finishDocument finishes
  have does := finishDocument_ok readyBefore.sound readyBefore.placed finishes
  have ready : ended.Ready := does.ready readyBefore
  obtain ⟨_, more, runs, _⟩ := does
  have extended : output.Extends (text ++ more) ended.output := grown.trans runs.output
  have unfailingStill : ended.output.sink.Unfailing :=
    ⟨extended.limit.trans unfailing.limit, extended.canFlush.trans unfailing.canFlush⟩
  have alike := ready.alike_create back.2.1 back.2.2 back.1 unfailingStill
  rw [extended.encoder, OutputBuffer.encoder_encoded stateless] at alike
  obtain ⟨same, alikeLast⟩ := alike.run calls
  exact ⟨same, alikeLast.phase, alikeLast.output.received, alikeLast.output.pending⟩

theorem run_after_endDocument_bound :
    let history : List Call :=
      [.startElement { nsPrefix := some "p", localName := "a", uri := some "urn:x" }, .text "b"]
    let calls : List Call :=
      [.startElement { nsPrefix := some "p", localName := "a" }, .startElement { localName := "a" }]
    let writer := ((create { sink := {} }).run history).2
    let ended := (writer.step .endDocument).2
    (writer.step .endDocument).1.isOk = true ∧
      (ended.run calls).1 = ((create { sink := {} } ended.settings).run calls).1 := by
  intro history calls writer ended
  have ends : (writer.step .endDocument).1.isOk = true := by decide +kernel
  have reset := run_after_endDocument { sink := {} } {} history writer rfl ⟨rfl, rfl⟩ (by simp)
    ends calls
  exact ⟨ends, reset.1⟩

end Writer

end XmlStream
