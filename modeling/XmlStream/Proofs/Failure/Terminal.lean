import XmlStream.Proofs.Charset.Plain
import XmlStream.Proofs.Failure.Refusals
import XmlStream.Proofs.Output.Accrual
import XmlStream.Proofs.Output.Truncation

namespace XmlStream.Writer

/-! A failed writer stays failed until it is closed, and a closed one stays closed. A failed writer
writes nothing but the end of a payload, when it is closed. -/

variable {before after : Writer}

theorem step_of_quiet {call : Call} (quiet : call.isWriting = false) (notFlush : call ≠ .flush)
    (notClose : call ≠ .close) :
    (before.step call).2 = { before with settings := (before.step call).2.settings } := by
  rcases step_eq before call with ⟨answer, steps⟩
  rw [steps]
  cases made : perform call before with
  | error error after =>
      by_cases setter : call.isSetter = true
      · rw [eq_of_isSetter setter made]
      · cases call with
        | query question => simp [perform] at made
        | flush => exact absurd rfl notFlush
        | close => exact absurd rfl notClose
        | _ => simp_all [Call.isWriting]
  | ok nothing after =>
      cases call with
      | query question =>
          rw [perform, pure_eq_ok] at made
          rw [made.2]
      | setNamespaces enabled =>
          simp only [perform, setNamespaces, bind_eq_ok, get_eq_ok, refuse_bind_eq_ok, set_eq_ok]
            at made
          rcases made with ⟨_, _, ⟨rfl, rfl⟩, _, rfl⟩
          rfl
      | setQuoteChar character =>
          cases stands : Quote.ofChar? character with
          | none => simp [perform, setQuoteChar, quoteFor, stands] at made
          | some quote =>
              simp only [perform, setQuoteChar, quoteFor, stands, bind_eq_ok, get_eq_ok,
                refuse_bind_eq_ok, set_eq_ok] at made
              rcases made with ⟨_, _, ⟨rfl, rfl⟩, _, rfl⟩
              rfl
      | setFormatting formatting =>
          rw [perform, modify_eq_ok] at made
          rw [← made]
      | setIndentation width =>
          rw [perform, modify_eq_ok] at made
          rw [← made]
      | setIndentChar character =>
          rw [perform, modify_eq_ok] at made
          rw [← made]
      | flush => exact absurd rfl notFlush
      | close => exact absurd rfl notClose
      | _ => cases quiet

/-! ## Failed writers -/

theorem finishDocument_of_failed (failed : before.phase = .failed) :
    finishDocument before = .error .incomplete before := by
  cases stops : finishDocument before with
  | ok _ after => simp [finishDocument, failed] at stops
  | error error after =>
      simp only [finishDocument, bind_eq_error, get_eq_error, get_eq_ok, false_or] at stops
      rcases stops with ⟨_, _, ⟨rfl, rfl⟩, stops⟩
      simp only [failed, decide_true, Bool.true_or, if_true, bind_eq_error, throw_eq_error,
        throw_eq_ok, false_and, exists_const, exists_false, or_false] at stops
      rw [stops.1, stops.2]

theorem unchanged_of_failed {call : Call} {error : WriterError} (failed : before.phase = .failed)
    (writes : call.isWriting = true) (fails : perform call before = .error error after) :
    before.Unchanged after ∧ after.phase = .failed := by
  have notClosed : before.phase ≠ .closed := by simp [failed]
  have inert {action : Action Unit} (decides : Decides action)
      (fails : guarded action before = .error error after) :
      before.Unchanged after ∧ after.phase = .failed := by
    rcases guarded_fails fails with ⟨closed, _⟩ | ⟨_, middle, stops, failedToo, unchanged⟩
    · exact absurd closed notClosed
    · exact ⟨unchanged ((decides stops).resolve_right fun begun => begun.1 failed), failedToo⟩
  rcases perform_guarded writes with
    ⟨action, decides, is⟩ | rfl | ⟨request, value, rfl⟩ | ⟨request, value, rfl⟩
  · rw [is] at fails
    exact inert decides fails
  · rcases guarded_fails fails with ⟨closed, _⟩ | ⟨_, middle, stops, failedToo, unchanged⟩
    · exact absurd closed notClosed
    · rw [finishDocument_of_failed failed] at stops
      cases stops
      exact ⟨unchanged (.refl before), failedToo⟩
  · simp only [perform, bind_eq_error] at fails
    rcases fails with fails | ⟨_, _, opens, _⟩
    · exact inert (decides_openAttribute request) fails
    · exact (openAttribute_failed failed (guarded_ok opens).2).elim
  · have opens : guarded (openElement request) before = .error error after ∨
        ∃ nothing middle, guarded (openElement request) before = .ok nothing middle := by
      cases value <;> simp only [perform, bind_eq_error] at fails
      all_goals
        rcases fails with fails | ⟨nothing, middle, opens, _⟩
        · exact .inl fails
        · exact .inr ⟨nothing, middle, opens⟩
    rcases opens with fails | ⟨_, _, opens⟩
    · exact inert (decides_openElement request) fails
    · exact (openElement_failed failed (guarded_ok opens).2).elim

/-- A failed writer refuses all that writes, but for empty text. -/
theorem refuses_of_failed {call : Call} {nothing : Unit} (failed : before.phase = .failed)
    (writes : call.isWriting = true) (ok : perform call before = .ok nothing after) :
    call = .text "" ∧ after = before := by
  rcases idle_of_perform (.inl failed) ok with idle | rfl | rfl
  · cases idle with
    | emptyText =>
        have ok : guarded (putText "") before = .ok nothing after := ok
        have ok := (guarded_ok ok).2
        simp only [putText, ne_eq, not_true_eq_false, if_false, pure_eq_ok, true_and] at ok
        exact ⟨rfl, ok.symm⟩
    | _ => cases writes
  · cases writes
  · cases writes

theorem step_of_failed {call : Call} (failed : before.phase = .failed)
    (writes : call.isWriting = true) :
    before.Unchanged (before.step call).2 ∧ (before.step call).2.phase = .failed := by
  rcases step_eq before call with ⟨answer, steps⟩
  rw [steps]
  cases made : perform call before with
  | error error after => exact unchanged_of_failed failed writes made
  | ok _ after =>
      rw [(refuses_of_failed failed writes made).2]
      exact ⟨.refl before, failed⟩

/-- What stays of a writer that has failed: its phase, the rest of its payload, and its output, but
that it may be pushed on. -/
structure Fails (before after : Writer) : Prop where
  phase : after.phase = .failed
  carry : after.carry = before.carry
  unflushed : after.unflushed = before.unflushed
  encoder : after.output.encoder = before.output.encoder
  output : before.output.Accrues .empty after.output

theorem Fails.refl {writer : Writer} (failed : writer.phase = .failed) : writer.Fails writer :=
  ⟨failed, rfl, rfl, rfl, .refl _⟩

theorem Fails.trans {first second third : Writer} (earlier : first.Fails second)
    (later : second.Fails third) : first.Fails third where
  phase := later.phase
  carry := later.carry.trans earlier.carry
  unflushed := later.unflushed.trans earlier.unflushed
  encoder := later.encoder.trans earlier.encoder
  output := earlier.output.onward later.output

theorem Fails.payload (fails : before.Fails after) : after.payload = before.payload :=
  payload_congr fails.carry fails.unflushed

theorem Fails.of_unchanged (unchanged : before.Unchanged after) (failed : after.phase = .failed) :
    before.Fails after := by
  rw [unchanged]
  exact ⟨failed, rfl, rfl, rfl, .refl _⟩

/-- On a failed writer nothing happens but that its output is pushed on, until it is closed. -/
theorem Fails.step {call : Call} (failed : before.phase = .failed) (stays : call ≠ .close) :
    before.Fails (before.step call).2 := by
  by_cases writes : call.isWriting = true
  · rcases step_of_failed failed writes with ⟨unchanged, failedToo⟩
    exact .of_unchanged unchanged failedToo
  · by_cases flushes : call = .flush
    · subst flushes
      have passed := OutputBuffer.passes_flush before.output
      rcases step_eq before .flush with ⟨answer, steps⟩
      rw [steps]
      simp only [perform, guarded, failed, reduceCtorEq, if_false, onOutput]
      generalize OutputBuffer.flush before.output = result at passed ⊢
      cases result with
      | ok _ output => exact ⟨rfl, rfl, rfl, passed.2, passed.1⟩
      | error cause output => exact ⟨rfl, rfl, rfl, passed.2, passed.1⟩
    · rw [step_of_quiet (Bool.eq_false_iff.mpr writes) flushes stays]
      exact ⟨failed, rfl, rfl, rfl, .refl _⟩

theorem Fails.run {calls : List Call} (failed : before.phase = .failed)
    (stays : .close ∉ calls) : before.Fails (before.run calls).2 := by
  induction calls generalizing before with
  | nil => exact .refl failed
  | cons call rest induction =>
      rw [List.mem_cons, not_or] at stays
      have stepped : before.Fails (before.step call).2 := .step failed (Ne.symm stays.1)
      exact stepped.trans (induction stepped.phase stays.2)

/-! ## Closing a failed writer -/

def lastGroup (writer : Writer) : String :=
  if writer.unflushed then String.ofList writer.carry.lastGroup else ""

/-- What closing a failed writer still adds: the last group of the payload that was being written, and
the bytes with which the encoding ends. -/
def remainder (writer : Writer) : ByteArray :=
  (OutputBuffer.encoded writer.output.encoder writer.lastGroup).2 ++
    OutputBuffer.switchBack (OutputBuffer.encoded writer.output.encoder writer.lastGroup).1

theorem isPlain_symbol (bits : Nat) : Charset.IsPlain (Base64.symbol bits) := by
  have all : ∀ index, ∀ inside : index < Base64.alphabet.size,
      Charset.IsPlain Base64.alphabet[index] := by
    decide +kernel
  rw [Base64.symbol, Array.getD_eq_getD_getElem?]
  by_cases inside : bits < Base64.alphabet.size
  · rw [Array.getElem?_eq_getElem inside]
    exact all bits inside
  · rw [Array.getElem?_eq_none (Nat.le_of_not_lt inside)]
    decide

theorem isPlain_lastGroup (writer : Writer) :
    ∀ character ∈ writer.lastGroup.toList, Charset.IsPlain character := by
  have padding : Charset.IsPlain Base64.padding := by decide
  intro character member
  rw [lastGroup] at member
  split at member
  · rw [String.toList_ofList] at member
    cases carry : writer.carry with
    | empty => simp [carry, Base64.Carry.lastGroup] at member
    | one first =>
        simp only [carry, Base64.Carry.lastGroup, List.mem_cons, List.not_mem_nil, or_false]
          at member
        rcases member with rfl | rfl | rfl | rfl
        · exact isPlain_symbol _
        · exact isPlain_symbol _
        · exact padding
        · exact padding
    | two first second =>
        simp only [carry, Base64.Carry.lastGroup, List.mem_cons, List.not_mem_nil, or_false]
          at member
        rcases member with rfl | rfl | rfl | rfl
        · exact isPlain_symbol _
        · exact isPlain_symbol _
        · exact isPlain_symbol _
        · exact padding
  · simp at member

/-- It is the last group in ASCII and the switch back to the initial state, in some order. -/
theorem remainder_eq (writer : Writer) :
    writer.remainder =
        writer.lastGroup.toUTF8 ++ OutputBuffer.switchBack writer.output.encoder ∨
      writer.remainder =
        OutputBuffer.switchBack writer.output.encoder ++ writer.lastGroup.toUTF8 := by
  cases found : writer.output.encoder with
  | none => exact .inl (by simp [remainder, found, OutputBuffer.encoded, OutputBuffer.switchBack])
  | some encoder =>
      have bytes : writer.lastGroup.toUTF8 = writer.lastGroup.toList.utf8Encode := by
        apply ByteArray.ext
        simp
      have either := encoder.finish_of_plain (isPlain_lastGroup writer)
      rw [← bytes] at either
      simpa [remainder, found, OutputBuffer.encoded, OutputBuffer.switchBack, Encoder.transcribe]
        using either

theorem Fails.remainder (fails : before.Fails after) : after.remainder = before.remainder := by
  simp only [Writer.remainder, lastGroup, fails.carry, fails.unflushed, fails.encoder]

/-- A writer has added a text to its output, whether that could be pushed on or not. -/
def Gains (before : Writer) (text : String) (after : Writer) : Prop :=
  before.output.Accrues (OutputBuffer.encoded before.output.encoder text).2 after.output ∧
    after.output.encoder = (OutputBuffer.encoded before.output.encoder text).1

theorem gains_emit (writer : Writer) (text : String) :
    EndsIn (writer.Gains text) (emit text writer) := by
  have added := OutputBuffer.accrues_write writer.output text
  simp only [emit, onOutput]
  generalize OutputBuffer.write text writer.output = result at added ⊢
  cases result <;> exact added

theorem gains_emitVerbatim (writer : Writer) (text : String) :
    EndsIn (writer.Gains text) (emitVerbatim text writer) :=
  gains_emit (writer.captured text) text

theorem gains_nothing (writer : Writer) : writer.Gains "" writer := by
  have same := OutputBuffer.Extends.refl writer.output
  have empty : (OutputBuffer.encoded writer.output.encoder "").2 = .empty := by
    cases writer.output.encoder with
    | none => rfl
    | some encoder => simp [OutputBuffer.encoded, Encoder.transcribe]
  refine ⟨?_, same.encoder⟩
  rw [empty]
  exact .refl writer.output

theorem gains_finishPayload (writer : Writer) :
    EndsIn (writer.Gains writer.lastGroup) (finishPayload writer) := by
  cases pending : writer.unflushed with
  | false =>
      rw [finishPayload_of_none (Draft.payload_eq_none.mpr pending), lastGroup, pending]
      exact gains_nothing writer
  | true =>
      have group : writer.lastGroup = String.ofList writer.carry.lastGroup := if_pos pending
      have added := gains_emitVerbatim { writer with carry := .empty } writer.lastGroup
      rw [finishPayload_of_unflushed pending, ← group]
      simp only [Bind.bind, EStateM.bind]
      generalize emitVerbatim writer.lastGroup _ = result at added ⊢
      cases result <;> exact added

theorem closeElements_of_failed (failed : before.phase = .failed) (count : Nat) :
    ∃ error, closeElements count before = .ok () before ∨
      closeElements count before = .error error before := by
  cases count with
  | zero => exact ⟨.incomplete, .inl rfl⟩
  | succ count =>
      have stops : closeElement false before = .error (.misplaced .endElement .failed) before := by
        rw [closeElement, bind_eq_error]
        refine .inr ⟨before, before, rfl, ?_⟩
        rw [if_neg (by simp [failed]), bind_eq_error]
        exact .inl (advance_of_failed failed)
      refine ⟨.misplaced .endElement .failed, .inr ?_⟩
      exact bind_eq_error.mpr (.inl stops)

theorem gains_completeAll (failed : before.phase = .failed) :
    EndsIn (before.Gains before.lastGroup) (completeAll before) := by
  have added := gains_finishPayload before
  cases finishes : finishPayload before with
  | error error after =>
      rw [finishes] at added
      have fails : completeAll before = .error error after :=
        bind_eq_error.mpr (.inl finishes)
      rw [fails]
      exact added
  | ok nothing after =>
      rw [finishes] at added
      rcases finishPayload_ok finishes with ⟨_, _, done, _⟩
      have failedToo : after.phase = .failed := done.keeps.phase.trans failed
      have rest : completeAll before = closeElements after.depth after := by
        simp only [completeAll, Bind.bind, EStateM.bind, finishes, get_run, failedToo, reduceCtorEq, if_false]
      rcases closeElements_of_failed failedToo after.depth with ⟨error, ends | ends⟩ <;>
      · rw [rest, ends]
        exact added

theorem accrues_shut (failed : before.phase = .failed) :
    EndsIn (fun after => after.phase = .closed ∧
      before.output.Accrues before.remainder after.output) (shut before) := by
  have added : before.Gains before.lastGroup before.completed := by
    have ends := gains_completeAll failed
    unfold Writer.completed
    generalize completeAll before = result at ends ⊢
    cases result <;> exact ends
  rw [shut_eq, if_neg (by simp [failed])]
  have finished := OutputBuffer.accrues_finish before.completed.output
  rw [added.2] at finished
  simp only [hangUp, Bind.bind, EStateM.bind, modify_run, onOutput]
  cases made : OutputBuffer.finish before.completed.output with
  | ok nothing output =>
      rw [made] at finished
      exact ⟨rfl, added.1.trans finished⟩
  | error cause output =>
      rw [made] at finished
      exact ⟨rfl, added.1.trans finished⟩

theorem accrues_step_close (failed : before.phase = .failed) :
    (before.step .close).2.phase = .closed ∧
      before.output.Accrues before.remainder (before.step .close).2.output := by
  have ends := accrues_shut failed
  rcases step_eq before .close with ⟨answer, steps⟩
  rw [steps, perform]
  generalize shut before = result at ends ⊢
  cases result <;> exact ends

theorem accrues_release (failed : before.phase = .failed) :
    before.output.Accrues before.remainder before.release.output := by
  have ends := accrues_shut failed
  have closed : before.output.Accrues before.remainder before.closed.output := by
    unfold Writer.closed
    generalize shut before = result at ends ⊢
    cases result <;> exact ends.2
  rw [output_release]
  exact closed.onward (OutputBuffer.accrues_release _)

/-! ## Closed writers -/

theorem perform_of_closed {call : Call} (closed : before.phase = .closed)
    (writes : call.isWriting = true ∨ call = .flush) :
    perform call before = .error .closed before := by
  have refuses (action : Action Unit) : guarded action before = .error .closed before := by
    rw [guarded, if_pos closed]
  rcases writes with writes | rfl
  · rcases perform_guarded writes with
      ⟨action, _, is⟩ | rfl | ⟨request, value, rfl⟩ | ⟨request, value, rfl⟩
    · rw [is, refuses]
    · exact refuses finishDocument
    · exact bind_eq_error.mpr (.inl (refuses _))
    · cases value <;> exact bind_eq_error.mpr (.inl (refuses _))
  · exact refuses _

theorem step_of_closed (call : Call) (closed : before.phase = .closed) :
    (before.step call).2.phase = .closed ∧ (before.step call).2.output = before.output := by
  rcases step_eq before call with ⟨answer, steps⟩
  by_cases writes : call.isWriting = true ∨ call = .flush
  · rw [steps, perform_of_closed closed writes]
    exact ⟨closed, rfl⟩
  · rw [not_or] at writes
    by_cases closes : call = .close
    · subst closes
      rw [steps, perform, shut_eq, if_pos closed]
      exact ⟨closed, rfl⟩
    · rw [step_of_quiet (Bool.eq_false_iff.mpr writes.1) writes.2 closes]
      exact ⟨closed, rfl⟩

theorem run_of_closed (calls : List Call) (closed : before.phase = .closed) :
    (before.run calls).2.phase = .closed ∧ (before.run calls).2.output = before.output := by
  induction calls generalizing before with
  | nil => exact ⟨closed, rfl⟩
  | cons call rest induction =>
      rcases step_of_closed call closed with ⟨closedToo, same⟩
      rcases induction closedToo with ⟨stays, sameToo⟩
      exact ⟨stays, sameToo.trans same⟩

/-! ## The ends of a run -/

/-- Failing and closing are final. After some more calls without a closing one, a failed writer is
still failed. All that its output has done is to push on what was there. It refuses everything that
writes, but for empty text, and its output does not change thereby. Closing it or giving it up adds
the last group of the payload that was being written when it failed, and the switch back to the
initial state of its encoding, and nothing else. A closed writer stays closed whatever is called. It
refuses everything that writes, empty text included, and cannot be flushed. Its output remains what it
was, and giving it up adds nothing to that. -/
theorem final_of_spent (writer : Writer) (later : List Call) :
    let last := (writer.run later).2
    (writer.phase = .failed → .close ∉ later →
      last.phase = .failed ∧ writer.output.Accrues .empty last.output ∧
        (∀ call : Call, call.isWriting = true → call ≠ .text "" →
          (last.step call).1.isOk = false ∧ (last.step call).2.output = last.output) ∧
        (last.step (.text "")).2 = last ∧
        (last.step .close).2.phase = .closed ∧
        ∃ rest, last.output.Accrues rest (last.step .close).2.output ∧
          last.output.Accrues rest last.release.output ∧
          (rest = writer.lastGroup.toUTF8 ++ OutputBuffer.switchBack writer.output.encoder ∨
            rest = OutputBuffer.switchBack writer.output.encoder ++ writer.lastGroup.toUTF8)) ∧
    (writer.phase = .closed →
      last.phase = .closed ∧ last.output = writer.output ∧
        (∀ call : Call, call.isWriting = true ∨ call = .flush →
          (last.step call).1 = .error .closed) ∧
        last.output.Accrues .empty last.release.output) := by
  intro last
  constructor
  · intro failed stays
    have fails : writer.Fails last := .run failed stays
    have remains := fails.remainder
    rcases accrues_step_close fails.phase with ⟨closed, closes⟩
    have released := accrues_release fails.phase
    rw [remains] at closes released
    refine ⟨fails.phase, fails.output, ?_, ?_, closed, _, closes, released, remainder_eq writer⟩
    · intro call writes notEmpty
      constructor
      · rw [← Bool.not_eq_true]
        intro ok
        exact notEmpty (refuses_of_failed fails.phase writes (step_ok ok)).1
      · rw [(step_of_failed fails.phase writes).1]
    · have nothing : perform (.text "") last = .ok () last := by
        simp only [perform, guarded, fails.phase, reduceCtorEq, if_false, putText, ne_eq,
          not_true_eq_false]
        rfl
      rcases step_eq last (.text "") with ⟨answer, steps⟩
      rw [steps, nothing]
  · intro closed
    rcases run_of_closed later closed with ⟨stays, same⟩
    refine ⟨stays, same, ?_, ?_⟩
    · intro call writes
      rcases step_eq last call with ⟨answer, steps⟩
      rw [steps, perform_of_closed stays writes]
    · have shuts : shut last = .ok () last := by rw [shut_eq, if_pos stays]
      rw [output_release, Writer.closed, shuts]
      exact OutputBuffer.accrues_release _

/-- A payload that was being written in ISO-2022-JP gets its last group, and no end tag follows. -/
theorem final_of_spent_payload :
    let output : OutputBuffer := { sink := {}, encoder := some { charset := .iso2022jp } }
    let calls : List Call :=
      [.startElement { localName := "a" }, .text "あ", .base64 [77], .endAttribute]
    let writer := ((create output).run calls).2
    let last := (writer.run [.flush, .text "more"]).2
    writer.phase = .failed ∧ last.phase = .failed ∧
      (last.step .endElement).1.isOk = false ∧
      writer.lastGroup = "TQ==" ∧
      ((last.step .close).2.run [.endElement]).2.output = (last.step .close).2.output := by
  intro output calls writer last
  have failed : writer.phase = .failed := by decide +kernel
  have group : writer.lastGroup = "TQ==" := by decide +kernel
  clear_value writer
  have final := (final_of_spent writer [.flush, .text "more"]).1 failed (by simp)
  rcases final with ⟨still, _, refuses, _, closed, _⟩
  refine ⟨failed, still, (refuses .endElement rfl (by simp)).1, group, ?_⟩
  exact ((final_of_spent (last.step .close).2 [.endElement]).2 closed).2.1

end XmlStream.Writer
