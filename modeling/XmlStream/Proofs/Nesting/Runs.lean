import XmlStream.Proofs.Nesting.Elements
import XmlStream.Proofs.Simulation.Exact
import XmlStream.Proofs.Simulation.Invariant

namespace XmlStream.Writer

/-! Runs that end all the elements they start. -/

variable {before after : Writer}

/-- What a run of calls that succeed leaves behind, if it ends all the elements it starts. -/
structure Leaves (before after : Writer) : Prop where
  spares : before.Spares after
  ready : after.Ready

theorem returns_of_end {outer : Writer} {last : Call} (ready : before.Ready)
    (encloses : outer.Encloses before) (ends : last = .endElement ∨ last = .fullEndElement)
    (ok : (before.step last).1.isOk = true) :
    outer.Returns (before.step last).2 ∧ (before.step last).2.Ready ∧
      (before.step last).2.phase = before.draft.phaseAfterElement := by
  have performed := step_ok ok
  have closes : ∃ separate, closeElement separate before = .ok () (before.step last).2 := by
    rcases ends with rfl | rfl
    · exact ⟨false, (guarded_ok performed).2⟩
    · exact ⟨true, (guarded_ok performed).2⟩
  rcases closes with ⟨separate, closes⟩
  rcases closeElement_ok ready.sound.bindings closes with ⟨_, _, ended⟩
  have readyAfter := (ended.runs.does ended.events).ready ready
  exact ⟨closeElement_returns encloses closes, readyAfter, ended.phase⟩

theorem returns_of_element {request : NameRequest} {inner : List Call} {last : Call}
    (ready : before.Ready)
    (within : ∀ opened : Writer, opened.Ready → 0 < opened.depth → opened.Accepts inner →
      opened.Leaves (opened.run inner).2)
    (ends : last = .endElement ∨ last = .fullEndElement)
    (accepts : before.Accepts (.startElement request :: (inner ++ [last]))) :
    ∃ room, advance .startElement before = .ok () room ∧
      room.Returns (before.run (.startElement request :: (inner ++ [last]))).2 ∧
      (before.run (.startElement request :: (inner ++ [last]))).2.Ready ∧
      (before.run (.startElement request :: (inner ++ [last]))).2.phase =
        (room.draft.push).phaseAfterElement := by
  rcases accepts_cons.mp accepts with ⟨ok, accepts⟩
  rcases accepts_append.mp accepts with ⟨acceptsInner, acceptsLast⟩
  have opens := (guarded_ok (step_ok ok)).2
  rcases openElement_encloses opens with ⟨room, went, encloses⟩
  rcases openElement_ok ready.sound opens with ⟨_, _, does, _⟩
  have inside : 0 < (before.step (.startElement request)).2.depth := by
    rw [encloses.depth]
    omega
  have leaves := within _ (does.ready ready) inside acceptsInner
  have there := encloses.spares leaves.spares
  have closes := returns_of_end leaves.ready there ends (accepts_cons.mp acceptsLast).1
  have reached : (before.run (.startElement request :: (inner ++ [last]))).2 =
      (((before.step (.startElement request)).2.run inner).2.step last).2 := by
    simp [run, run_append]
  rw [reached]
  refine ⟨room, went, closes.1, closes.2.1, closes.2.2.trans ?_⟩
  have mode := there.mode
  have depth := there.depth
  rw [Draft.phaseAfterElement, Draft.phaseAfterElement, draft_mode, draft_depth, mode, depth,
    Draft.depth_push]
  rfl

/-- By induction on how the calls are nested. -/
theorem leaves_of_balanced {calls : List Call} (balanced : Call.Balanced calls)
    (ready : before.Ready) (inside : 0 < before.depth) (accepts : before.Accepts calls) :
    before.Leaves (before.run calls).2 := by
  induction balanced generalizing before with
  | nil => exact ⟨.refl before, ready⟩
  | @flat call rest isFlat later induction =>
      rcases accepts_cons.mp accepts with ⟨ok, accepts⟩
      have performed := step_ok ok
      have notClose : call ≠ .close := by
        rintro rfl
        cases isFlat
      -- A document begins outside of all elements.
      have notBegin : ∀ standalone, call ≠ .startDocument standalone := by
        rintro standalone rfl
        have start := phase_of_startDocument performed
        have outside := ready.placed.outside (.inl start)
        rw [draft_depth] at outside
        omega
      have spares := local_perform isFlat notBegin performed
      rcases perform_ok ready notClose performed with ⟨_, _, does⟩
      have rest := induction (does.ready ready) (by rwa [spares.depth]) accepts
      exact ⟨spares.trans rest.spares, rest.ready⟩
  | @element request inner rest last within ends later inductionInner induction =>
      have split : Call.startElement request :: (inner ++ last :: rest) =
          (.startElement request :: (inner ++ [last])) ++ rest := by simp
      rw [split] at accepts ⊢
      rcases accepts_append.mp accepts with ⟨acceptsElement, acceptsRest⟩
      rcases returns_of_element ready (fun _ => inductionInner) ends acceptsElement with
        ⟨room, went, returns, readyAfter, _⟩
      have spares := (local_advance _ went).trans returns.spares
      have rest := induction readyAfter (by rwa [spares.depth]) acceptsRest
      rw [run_append]
      exact ⟨spares.trans rest.spares, rest.ready⟩

/-! ## From content to content -/

theorem finishPayload_keeps {nothing : Unit} (ok : finishPayload before = .ok nothing after) :
    after.phase = before.phase ∧ after.mode = before.mode ∧ after.elements = before.elements ∧
      after.bindings = before.bindings := by
  rcases finishPayload_cases ok with ⟨_, rfl⟩ | ⟨_, output, _, rfl⟩ <;> exact ⟨rfl, rfl, rfl, rfl⟩

theorem startElement_in_content {nothing : Unit} (content : before.phase = .content)
    (ok : advance .startElement before = .ok nothing after) :
    after.mode = before.mode ∧ after.elements = before.elements ∧
      after.bindings = before.bindings := by
  rcases advance_ok ok with ⟨next, paid, room, written, _, finished, made, rfl⟩
  have kept : paid.phase = before.phase ∧ paid.mode = before.mode ∧
      paid.elements = before.elements ∧ paid.bindings = before.bindings := by
    rcases finished with ⟨_, _, finished⟩ | ⟨base64, _⟩
    · exact finishPayload_keeps finished
    · cases base64
  have inContent : paid.phase = .content := kept.1.trans content
  simp only [makeRoom, closeOpenTag, bind_eq_ok, get_eq_ok, pure_eq_ok] at made
  rcases made with ⟨_, _, ⟨rfl, rfl⟩, _, _, ⟨_, _, ⟨rfl, rfl⟩, made⟩, _, _, indented, _, rfl⟩
  simp only [inContent, pure_eq_ok, true_and] at made
  subst made
  rcases indentNext_writes (by simp [inContent]) indented with ⟨output, rfl, _⟩
  exact kept.2

theorem answer_congr {first second : Writer} (ready : first.Ready) (readyToo : second.Ready)
    (scope : second.bindings.scope = first.bindings.scope)
    (elements : second.elements = first.elements) :
    (∀ uri, second.lookupPrefix uri = first.lookupPrefix uri) ∧
      second.answer .language = first.answer .language ∧
      second.answer .space = first.answer .space := by
  refine ⟨fun uri => ?_, ?_, ?_⟩
  · rw [lookupPrefix, lookupPrefix, readyToo.sound.bindings.findPrefix?_eq,
      ready.sound.bindings.findPrefix?_eq, scope, top, elements, ← top]
  · rw [answer, answer, elements]
  · rw [answer, answer, elements]

/-- Ending an element brings back what was before it. In content, calls that start an element,
end all that they start in it and end it leave the scope, the open elements and all that is
looked up in them as they were, and lead to content again. -/
theorem restored_of_run (output : OutputBuffer) (settings : Settings) (calls : List Call)
    (request : NameRequest) (inner : List Call) (last : Call) (writer after : Writer)
    (reached : writer = ((create output settings).run calls).2)
    (content : writer.phase = .content) (balanced : Call.Balanced inner)
    (ends : last = .endElement ∨ last = .fullEndElement)
    (accepts : writer.Accepts (.startElement request :: (inner ++ [last])))
    (made : after = (writer.run (.startElement request :: (inner ++ [last]))).2) :
    after.bindings.scope = writer.bindings.scope ∧ after.elements = writer.elements ∧
      after.phase = .content ∧ (∀ uri, after.lookupPrefix uri = writer.lookupPrefix uri) ∧
      after.answer .language = writer.answer .language ∧
      after.answer .space = writer.answer .space := by
  subst reached
  subst made
  have fresh := ready_create output settings
  have kept := run_keeps (fun writer => writer.draft.Tiered)
    (fun first call own second ready _ does tiered => by
      rcases does with ⟨_, _, runs, _⟩
      exact tiered.path ready.placed runs.path) fresh (tiered_create output settings) calls
  generalize ((create output settings).run calls).2 = writer at content accepts kept ⊢
  have ready : writer.Ready ∧ writer.draft.Tiered := by
    rcases kept with (failed | closed) | ready
    · simp [content] at failed
    · simp [content] at closed
    · exact ready
  rcases ready with ⟨ready, tiered⟩
  have declared : ∀ binding ∈ writer.bindings.scope, binding.declared = true :=
    tiered.declared (by simp [content]) (by simp [content])
  rcases returns_of_element ready (fun _ => leaves_of_balanced balanced) ends accepts with
    ⟨room, went, returns, readyAfter, phase⟩
  rcases startElement_in_content content went with ⟨mode, elements, bindings⟩
  have scope := returns.scope_eq (by rwa [bindings])
  rw [bindings] at scope
  have elementsAfter := returns.elements.trans elements
  refine ⟨scope, elementsAfter, ?_, answer_congr ready readyAfter scope elementsAfter⟩
  -- A document is in content within its root only.
  rw [phase, Draft.phaseAfterElement, if_neg]
  rintro ⟨document, last⟩
  have inDocument : writer.draft.mode = .document := mode.symm.trans document
  have inside := (ready.placed.document inDocument).2.2 content
  have depth : room.depth = writer.depth := congrArg ElementStack.depth elements
  rw [Draft.depth_push, draft_depth, depth] at last
  rw [draft_depth] at inside
  omega

/-- An element that hides a prefix and the default namespace of the one around it, with a prefix
that is made up, a language and an element of its own. -/
theorem restored_of_run_hiding :
    let calls : List Call :=
      [.startElement { nsPrefix := some "p", localName := "a", uri := some "urn:p" },
        .attributeString { nsPrefix := some "xml", localName := "lang" } "en", .text "t"]
    let inner : List Call :=
      [.startAttribute { nsPrefix := some "xmlns", localName := "p" }, .text "urn:q",
        .attributeString { nsPrefix := some "xml", localName := "lang" } "de",
        .attributeString { localName := "n", uri := some "urn:n" } "1",
        .startElement { localName := "c", uri := some "urn:c" }, .fullEndElement,
        .qualifiedName "name" (some "urn:q")]
    let request : NameRequest := { nsPrefix := some "", localName := "b", uri := some "urn:b" }
    let writer := ((create { sink := {} }).run calls).2
    let after := (writer.run (.startElement request :: (inner ++ [.endElement]))).2
    after.bindings.scope = writer.bindings.scope ∧ after.elements = writer.elements ∧
      after.lookupPrefix "urn:p" = some "p" ∧ after.answer .language = .language (some "en") := by
  intro calls inner request writer after
  have content : writer.phase = .content := by decide +kernel
  have accepts : writer.Accepts (.startElement request :: (inner ++ [.endElement])) := by
    rw [Accepts]
    decide +kernel
  have balanced : Call.Balanced inner :=
    .flat rfl (.flat rfl (.flat rfl (.flat rfl (.element .nil (.inr rfl) (.flat rfl .nil)))))
  have known : writer.lookupPrefix "urn:p" = some "p" ∧
      writer.answer .language = .language (some "en") := by decide +kernel
  have holds := restored_of_run { sink := {} } {} calls request inner .endElement writer after rfl
    content balanced (.inl rfl) accepts rfl
  exact ⟨holds.1, holds.2.1, (holds.2.2.2.1 "urn:p").trans known.1, holds.2.2.2.2.1.trans known.2⟩

end XmlStream.Writer
