import XmlStream.Proofs.Restriction.Calls

namespace XmlStream

/-! The mode of documents is a restriction of that of fragments: calls that a document accepts are
accepted without the declaration as well, with the same answers, and the same is written. -/

namespace Writer

open OutputBuffer (Shares)

variable {earlier own : ByteArray} {first second writer : Writer}

theorem Paired.output (paired : Paired earlier own first second) :
    Shares earlier own first.output second.output := by
  cases paired with
  | apart restricts => exact restricts.output
  | even akin | ended akin => exact akin.output

theorem Paired.step {request : Call} (paired : Paired earlier own first second)
    (plain : request ≠ .setFormatting .indented) (ok : (first.step request).1.isOk = true) :
    (first.step request).1 = (second.step request).1 ∧
      Paired earlier own (first.step request).2 (second.step request).2 := by
  simp only [Writer.step] at ok ⊢
  cases made : call request first with
  | error error after => simp [made, Except.isOk, Except.toBool] at ok
  | ok answer after =>
      obtain ⟨afterToo, does, pairedStill⟩ := permits_call plain paired made
      rw [does]
      exact ⟨rfl, pairedStill⟩

theorem Paired.run {calls : List Call} (paired : Paired earlier own first second)
    (plain : .setFormatting .indented ∉ calls) (accepts : first.Accepts calls) :
    (first.run calls).1 = (second.run calls).1 ∧
      Paired earlier own (first.run calls).2 (second.run calls).2 := by
  induction calls generalizing first second with
  | nil => exact ⟨rfl, paired⟩
  | cons request rest induction =>
      obtain ⟨here, later⟩ := not_or.mp (List.mem_cons.not.mp plain)
      obtain ⟨ok, accepts⟩ := accepts_cons.mp accepts
      obtain ⟨same, paired⟩ := paired.step (Ne.symm here) ok
      obtain ⟨sameRest, paired⟩ := induction paired later accepts
      exact ⟨by simp only [Writer.run, same, sameRest], paired⟩

/-! ## Ends -/

theorem shut_ok_of_unfailing (unfailing : writer.output.sink.Unfailing) :
    ∃ after, shut writer = .ok () after ∧ after.output.sink.Unfailing := by
  by_cases closed : writer.phase = .closed
  · exact ⟨writer, by rw [shut_eq, if_pos closed], unfailing⟩
  · obtain ⟨output, shuts, still, _⟩ := shut_of_unfailing closed (unfailing_completed unfailing)
    exact ⟨_, shuts, still⟩

theorem received_of_shut {after : Writer} (shuts : shut writer = .ok () after)
    (unfailing : after.output.sink.Unfailing) :
    writer.release.output.sink.received = after.output.delivered := by
  obtain ⟨last, flushes, empty, _⟩ := OutputBuffer.flush_of_unfailing unfailing
  have flushed : last.delivered = after.output.delivered :=
    (OutputBuffer.extends_of_flush flushes).1.delivered.trans
      (OutputBuffer.Extends.refl after.output).delivered.symm
  rw [output_release, closed, shuts, ← flushed]
  simp only [OutputBuffer.release, flushes, OutputBuffer.delivered, empty, ByteArray.append_empty]

theorem Paired.release (paired : Paired earlier own first second) :
    ∃ text : String, first.release.output.sink.received = earlier ++ text.toUTF8 ∧
      second.release.output.sink.received = own ++ text.toUTF8 := by
  obtain ⟨after, shuts, unfailing⟩ := shut_ok_of_unfailing paired.output.unfailing
  have closes : perform .close first = .ok () after := shuts
  obtain ⟨afterToo, closesToo, ended⟩ := permits_perform (by simp) paired closes
  rw [received_of_shut shuts unfailing, received_of_shut closesToo ended.output.unfailingToo]
  exact ended.output.text

/-! ## Runs -/

theorem restricts_of_startDocument {output : OutputBuffer} {settings : Settings}
    (noEncoder : output.encoder = none) (unfailing : output.sink.Unfailing)
    (plain : settings.formatting = .plain) (standalone : Option Bool) :
    let writer := create output settings
    ∃ after, perform (.startDocument standalone) writer = .ok () after ∧
      Restricts (Shares (output.delivered ++ (writer.xmlDeclaration standalone).toUTF8)
        output.delivered) after writer := by
  intro writer
  have start : writer.phase = .start := rfl
  obtain ⟨declared, writes, _⟩ :=
    OutputBuffer.write_of_unfailing unfailing (writer.xmlDeclaration standalone)
  have extended := OutputBuffer.extends_of_write writes
  have shares : Shares (output.delivered ++ (writer.xmlDeclaration standalone).toUTF8)
      output.delivered declared output := by
    refine ⟨extended.encoder_of_none noEncoder, noEncoder, extended.unfailing unfailing,
      unfailing, "", ?_, by simp⟩
    rw [extended.delivered_of_none noEncoder]
    simp
  have writesHere : OutputBuffer.write (writer.draft.xmlDeclaration writer.output.encoding? standalone)
      writer.output = .ok () declared := writes
  have sound := (ready_create output settings).sound.bindings
  refine ⟨{ writer with
    output := declared, mode := .document, phase := .prolog,
    lastToken := some .processingInstruction }, ?_, .fresh ?_ rfl rfl ?_⟩
  · simp only [perform, guarded, start, reduceCtorEq, if_false, beginDocument_of_start start, emit,
      onOutput, writesHere]
  · exact ⟨shares, ⟨rfl, rfl, rfl, rfl⟩, rfl, rfl, rfl, sound, sound, rfl, rfl, rfl⟩
  · simp [Writer.indents, Settings.indents, writer, create, plain]

/-- The mode of documents only refuses more. If a new writer without an encoder and with a sink that
does not fail begins a document and accepts some calls, a new writer accepts the same calls without
that one. It gives the same answers and has written the same text, but for the declaration, also when
both are given up. -/
theorem accepts_of_document (output : OutputBuffer) (settings : Settings)
    (standalone : Option Bool) (calls : List Call) (noEncoder : output.encoder = none)
    (unfailing : output.sink.Unfailing) (plain : settings.formatting = .plain)
    (remainsPlain : .setFormatting .indented ∉ calls)
    (accepts : (create output settings).Accepts (.startDocument standalone :: calls)) :
    let writer := create output settings
    let document := writer.run (.startDocument standalone :: calls)
    let fragment := writer.run calls
    let declared := output.delivered ++ (writer.xmlDeclaration standalone).toUTF8
    writer.Accepts calls ∧ document.1 = .ok .done :: fragment.1 ∧
      (∃ text : String, document.2.output.delivered = declared ++ text.toUTF8 ∧
        fragment.2.output.delivered = output.delivered ++ text.toUTF8) ∧
      ∃ text : String, document.2.release.output.sink.received = declared ++ text.toUTF8 ∧
        fragment.2.release.output.sink.received = output.delivered ++ text.toUTF8 := by
  intro writer document fragment declared
  obtain ⟨begun, begins, restricts⟩ :=
    restricts_of_startDocument noEncoder unfailing plain standalone
  have steps : writer.step (.startDocument standalone) = (.ok .done, begun) := by
    have begins : perform (.startDocument standalone) writer = .ok () begun := begins
    simp only [Writer.step, call, answered_eq, begins]
  obtain ⟨_, accepts⟩ := accepts_cons.mp accepts
  have accepts : begun.Accepts calls := by rwa [steps] at accepts
  obtain ⟨same, paired⟩ := (Paired.apart restricts).run remainsPlain accepts
  have document_eq : document = (.ok .done :: (begun.run calls).1, (begun.run calls).2) := by
    simp only [document, run, steps]
  rw [document_eq]
  refine ⟨?_, by rw [same], paired.output.text, paired.release⟩
  intro answer member
  exact accepts answer (same ▸ member)

theorem accepts_of_document_epilog :
    let writer := create { sink := {} }
    let calls : List Call :=
      [.comment "c", .startElement { localName := "a" }, .text "b", .endElement, .raw "\n",
        .endDocument, .text "d"]
    let document := writer.run (.startDocument none :: calls)
    let fragment := writer.run calls
    writer.Accepts (.startDocument none :: calls) ∧ writer.Accepts calls ∧
      document.1 = .ok .done :: fragment.1 ∧
      ∃ text : String, document.2.release.output.sink.received =
          "<?xml version=\"1.0\"?>".toUTF8 ++ text.toUTF8 ∧
        fragment.2.release.output.sink.received = text.toUTF8 := by
  intro writer calls document fragment
  have accepts : writer.Accepts (.startDocument none :: calls) := by
    unfold Accepts
    decide +kernel
  obtain ⟨acceptsToo, same, _, text, received, receivedToo⟩ :=
    accepts_of_document { sink := {} } {} none calls rfl ⟨rfl, rfl⟩ rfl (by decide) accepts
  have nothing : ({ sink := {} } : OutputBuffer).delivered = .empty := rfl
  have declaration : writer.xmlDeclaration none = "<?xml version=\"1.0\"?>" := by decide +kernel
  refine ⟨accepts, acceptsToo, same, text, ?_, ?_⟩
  · rw [received, nothing, ByteArray.empty_append, declaration]
  · rw [receivedToo, nothing, ByteArray.empty_append]

end Writer

end XmlStream
