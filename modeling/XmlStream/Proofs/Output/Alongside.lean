import XmlStream.Proofs.Simulation.Invariant

namespace XmlStream

/-! Two writers that differ in their outputs only, for instance in their encoding. As long as
neither output fails, both get the same text, apart from the declaration of a document. -/

namespace OutputBuffer

theorem Extends.text_eq {before after other : OutputBuffer} {text more : String}
    (extended : before.Extends text after) (extendedToo : before.Extends more other)
    (noEncoder : before.encoder = none) (same : after.delivered = other.delivered) :
    text = more := by
  rw [extended.delivered_of_none noEncoder, extendedToo.delivered_of_none noEncoder] at same
  exact String.toByteArray_inj.mp (ByteArray.append_right_inj _ |>.mp same)

theorem Extends.unfailing {before after : OutputBuffer} {text : String}
    (extended : before.Extends text after) (unfailing : before.sink.Unfailing) :
    after.sink.Unfailing :=
  ⟨extended.limit.trans unfailing.limit, extended.canFlush.trans unfailing.canFlush⟩

def added (encoding? : Option String) : Order → String
  | .write text => text encoding?
  | .flush => ""

theorem extends_of_order {order : Order} {before : OutputBuffer}
    (unfailing : before.sink.Unfailing) :
    ∃ after, order.action before = .ok () after ∧
      before.Extends (added before.encoding? order) after ∧ after.sink.Unfailing := by
  cases order with
  | write text =>
      rcases write_of_unfailing unfailing (text before.encoding?) with ⟨after, writes, still⟩
      exact ⟨after, writes, extends_of_write writes, still⟩
  | flush =>
      rcases flush_of_unfailing unfailing with ⟨after, flushes, _, still⟩
      exact ⟨after, flushes, (extends_of_flush flushes).1, still⟩

theorem received_of_finish {before after : OutputBuffer} {nothing : Unit}
    (ok : finish before = .ok nothing after) :
    after.pending = .empty ∧ after.sink.received = before.terminate.delivered := by
  simp only [finish, bind_eq_ok, modify_eq_ok] at ok
  rcases ok with ⟨_, _, rfl, flushes⟩
  rcases extends_of_flush flushes with ⟨extended, empty⟩
  have same := extended.delivered
  rw [← (Extends.refl before.terminate).delivered, delivered, empty, ByteArray.append_empty] at same
  exact ⟨empty, same⟩

end OutputBuffer

namespace Writer

variable {α : Type} {first second writer after : Writer}

/-- Two writers that differ in their outputs only, which do not fail. -/
structure Beside (first second : Writer) : Prop where
  same : first = { second with output := first.output }
  unfailing : first.output.sink.Unfailing
  unfailingToo : second.output.sink.Unfailing

def Grown (output other : OutputBuffer) (first second : Writer) : Prop :=
  first.Beside second ∧ ∃ text, output.Extends text first.output ∧ other.Extends text second.output

theorem Grown.trans {output other : OutputBuffer} {after afterToo : Writer}
    (earlier : Grown output other first second)
    (later : Grown first.output second.output after afterToo) :
    Grown output other after afterToo := by
  rcases earlier with ⟨_, text, extended, extendedToo⟩
  rcases later with ⟨beside, more, further, furtherToo⟩
  exact ⟨beside, text ++ more, extended.trans further, extendedToo.trans furtherToo⟩

theorem grown_script (script : Script α) (plain : script.Plain) {output other : OutputBuffer}
    (unfailing : output.sink.Unfailing) (unfailingToo : other.sink.Unfailing) :
    Agree (Grown output other) (script.run output) (script.run other) := by
  induction script generalizing output other with
  | done value writer =>
      exact .ok value ⟨⟨rfl, unfailing, unfailingToo⟩, "", .refl _, .refl _⟩
  | refuse error writer =>
      exact .error error ⟨⟨rfl, unfailing, unfailingToo⟩, "", .refl _, .refl _⟩
  | tell order script broken induction =>
      rcases @OutputBuffer.extends_of_order order _ unfailing with
        ⟨after, does, extended, still⟩
      rcases @OutputBuffer.extends_of_order order _ unfailingToo with
        ⟨afterToo, doesToo, extendedToo, stillToo⟩
      have same : OutputBuffer.added other.encoding? order =
          OutputBuffer.added output.encoding? order := by
        cases order with
        | write text => exact plain.1 _ _
        | flush => rfl
      rw [same] at extendedToo
      simp only [Script.run, does, doesToo]
      have agrees := induction plain.2 still stillToo
      generalize script.run after = result at agrees ⊢
      generalize script.run afterToo = result at agrees ⊢
      cases agrees with
      | ok value grown =>
          rcases grown with ⟨beside, more, further, furtherToo⟩
          exact .ok value ⟨beside, _, extended.trans further, extendedToo.trans furtherToo⟩
      | error error grown =>
          rcases grown with ⟨beside, more, further, furtherToo⟩
          exact .error error ⟨beside, _, extended.trans further, extendedToo.trans furtherToo⟩

theorem Beside.agree {plain : Prop} {action : Action α} (beside : first.Beside second)
    (scripted : Scripted plain action) (holds : plain) :
    Agree (Grown first.output second.output) (action first) (action second) := by
  rcases scripted second with ⟨script, isPlain, runs⟩
  have here : action first = script.run first.output := by
    rw [← runs, ← beside.same]
  rw [here, show action second = script.run second.output from runs second.output]
  exact grown_script script (isPlain holds) beside.unfailing beside.unfailingToo

theorem Beside.performs {call : Call} {nothing : Unit} {after : Writer}
    (beside : first.Beside second) (notClose : call ≠ .close)
    (undeclared : ∀ standalone, call ≠ .startDocument standalone)
    (ok : perform call first = .ok nothing after) :
    ∃ afterToo, perform call second = .ok () afterToo ∧
      Grown first.output second.output after afterToo := by
  have agrees := beside.agree (scripted_perform notClose) undeclared
  rw [ok] at agrees
  generalize made : perform call second = result at agrees
  cases agrees with
  | ok _ grown => exact ⟨_, rfl, grown⟩

theorem Beside.completed (beside : first.Beside second) :
    Grown first.output second.output first.completed second.completed := by
  have agrees := beside.agree (scripted_completeAll : Scripted True completeAll) trivial
  unfold Writer.completed
  generalize completeAll first = result at agrees ⊢
  generalize completeAll second = result at agrees ⊢
  cases agrees with
  | ok _ grown => exact grown
  | error error grown =>
      rcases grown with ⟨⟨same, unfailing, unfailingToo⟩, extended⟩
      exact ⟨⟨by rw [same], unfailing, unfailingToo⟩, extended⟩

theorem beginDocument_of_start (start : writer.phase = .start) (standalone : Option Bool) :
    beginDocument standalone writer = emit (writer.draft.xmlDeclaration writer.output.encoding? standalone)
      { writer with
        mode := .document, phase := .prolog, lastToken := some .processingInstruction } := by
  simp only [beginDocument, Bind.bind, EStateM.bind, get_run,
    start]
  rfl

theorem Beside.startDocument {standalone : Option Bool} {nothing : Unit}
    (beside : first.Beside second) (ok : perform (.startDocument standalone) first = .ok nothing after) :
    ∃ afterToo, perform (.startDocument standalone) second = .ok () afterToo ∧
      after.Beside afterToo ∧
      first.output.Extends (first.draft.xmlDeclaration first.output.encoding? standalone)
        after.output ∧
      second.output.Extends (first.draft.xmlDeclaration second.output.encoding? standalone)
        afterToo.output ∧
      first.phase = .start ∧
      after.draft = { first.draft with phase := .prolog, mode := .document } := by
  have start := phase_of_startDocument ok
  have begins := (guarded_ok ok).2
  rw [beginDocument_of_start start] at begins
  rcases onOutput_ok begins with ⟨output, writes, rfl⟩
  rcases beside with ⟨same, unfailing, unfailingToo⟩
  have startToo : second.phase = .start := by rw [same] at start; exact start
  rcases OutputBuffer.write_of_unfailing unfailingToo
    (second.draft.xmlDeclaration second.output.encoding? standalone) with ⟨outputToo, writesToo, still⟩
  have extended := OutputBuffer.extends_of_write writes
  refine ⟨{ second with
      output := outputToo, mode := .document, phase := .prolog,
      lastToken := some .processingInstruction }, ?_, ⟨?_, ?_, still⟩, extended, ?_, start, rfl⟩
  · simp only [perform, guarded, startToo, reduceCtorEq, if_false, beginDocument_of_start startToo,
      emit, onOutput, writesToo]
  · rw [same]
  · exact ⟨extended.limit.trans unfailing.limit, extended.canFlush.trans unfailing.canFlush⟩
  · have sameDraft : first.draft = second.draft := by rw [same]; rfl
    rw [sameDraft]
    exact OutputBuffer.extends_of_write writesToo

/-! ## Ends -/

theorem shut_of_unfailing (notClosed : writer.phase ≠ .closed)
    (unfailing : writer.completed.output.sink.Unfailing) :
    ∃ output, shut writer = .ok () { writer.completed with phase := .closed, output } ∧
      output.sink.Unfailing ∧ output.pending = .empty ∧
      output.sink.received = writer.completed.output.terminate.delivered := by
  rcases finish_of_unfailing unfailing with ⟨output, finishes, _, still⟩
  rcases OutputBuffer.received_of_finish finishes with ⟨empty, received⟩
  refine ⟨output, ?_, still, empty, received⟩
  rw [shut_eq, if_neg notClosed]
  simp [hangUp, onOutput, finishes]

/-- Completions lead to a draft, and what they write is in the output of a writer that has the elements
of the draft. -/
structure Concludes (before : Writer) (events : List Event) (text : String) (last : Draft)
    (after : Writer) : Prop where
  path : before.draft.Path events text last
  events : ∀ event ∈ events, event.completes
  output : before.output.Extends text after.output
  elements : after.elements = last.elements

/-- A document is completed with completions, also where a value is refused and remains open. -/
theorem concludes_completed (ready : writer.Ready) (live : ¬writer.Spent)
    (unfailing : writer.output.sink.Unfailing) :
    ∃ events text last, writer.Concludes events text last writer.completed := by
  cases result : completeAll writer with
  | ok _ done =>
      have same : writer.completed = done := by simp [completed, result]
      rcases completeAll_ok ready.sound result with ⟨events, text, empties⟩
      rw [same]
      exact ⟨events, text, done.draft, empties.runs.path, empties.events, empties.runs.output, rfl⟩
  | error error stuck =>
      have output : writer.completed.output = stuck.output := by simp [completed, result]
      have elements : writer.completed.elements = stuck.elements := by simp [completed, result]
      rcases completeAll_error ready live unfailing result with ⟨_, paid, finished, silent⟩
      rcases finishPayload_ok finished with ⟨events, text, completes, _⟩
      refine ⟨events, text, paid.draft, completes.path, completes.events, ?_, ?_⟩
      · rw [output, silent]
        exact completes.output
      · rw [elements, silent]
        rfl

theorem closed_of_perform {call : Call} {nothing : Unit} (closed : writer.phase = .closed)
    (ok : perform call writer = .ok nothing after) :
    (call.Idle ∨ call = .close) ∧ after.phase = .closed ∧ after.output = writer.output ∧
      after.elements = writer.elements := by
  rcases idle_of_perform (.inr closed) ok with idle | rfl | rfl
  · refine ⟨.inl idle, ?_⟩
    cases idle with
    | query | setFormatting | setIndentation | setIndentChar =>
        simp only [perform, pure_eq_ok, modify_eq_ok, true_and] at ok
        subst ok
        exact ⟨closed, rfl, rfl⟩
    | setQuoteChar character =>
        cases stands : Quote.ofChar? character with
        | none => simp [perform, setQuoteChar, quoteFor, stands] at ok
        | some quote =>
            simp only [perform, setQuoteChar, quoteFor, stands, bind_eq_ok, get_eq_ok,
              refuse_bind_eq_ok, set_eq_ok] at ok
            rcases ok with ⟨_, _, ⟨rfl, rfl⟩, _, rfl⟩
            exact ⟨closed, rfl, rfl⟩
    | emptyText =>
        have ok : guarded (putText "") writer = .ok nothing after := ok
        exact absurd closed (guarded_ok ok).1
  · exact absurd closed (guarded_ok ok).1
  · have shuts : shut writer = .ok nothing after := ok
    rw [shut_eq, if_pos closed] at shuts
    cases shuts
    exact ⟨.inr rfl, closed, rfl, rfl⟩

theorem received_of_release (shuts : shut writer = .ok () after)
    (empty : after.output.pending = .empty) :
    writer.release.output.sink.received = after.output.sink.received := by
  have nothing : after.output.pending.isEmpty = true := by rw [empty]; rfl
  have flushes : OutputBuffer.flush after.output =
      OutputBuffer.onSink Sink.flush after.output := by
    simp [OutputBuffer.flush, OutputBuffer.push_of_isEmpty nothing, Bind.bind, EStateM.bind]
  rw [output_release, closed, shuts]
  simp only [OutputBuffer.release, flushes, OutputBuffer.onSink, Sink.flush]
  cases after.output.sink.canFlush <;> rfl

end Writer

end XmlStream
