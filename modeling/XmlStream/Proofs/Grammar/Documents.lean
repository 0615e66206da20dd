import XmlStream.Proofs.Grammar.Growth
import XmlStream.Proofs.Simulation.Runs

namespace XmlStream

/-! A run from the start of a document to its end writes a document. -/

open Grammar

/-- A call with names and texts that are in order, and without raw text. -/
def Call.Clean : Call → Prop
  | .setIndentChar chosen => IsBlank chosen
  | .doctype _ publicId systemId subset => CleanDoctype publicId systemId subset
  | .startElement request | .startAttribute request => request.Clean
  | .attributeString request value => request.Clean ∧ Legal value
  | .elementString request value => request.Clean ∧ ∀ text, value = some text → Legal text
  | .cdata content | .comment content | .instruction _ content => Legal content
  | .text content | .name content | .token content => Legal content
  | .qualifiedName localName uri => Legal localName ∧ ∀ asked, uri = some asked → Legal asked
  | .whitespace content => '\r' ∉ content.toList
  | .raw _ => False
  | _ => True

namespace Grammar

variable {text more : List Char}

theorem Opening.add (opens : Opening text) (mixed : Miscs more) : Opening (text ++ more) := by
  rcases opens with ⟨declares, earlier⟩
  simpa using Opening.mk declares (earlier.append mixed)

theorem TypedProlog.add (typed : TypedProlog text) (mixed : Miscs more) :
    TypedProlog (text ++ more) := by
  rcases typed with ⟨opens, doctype, earlier⟩
  simpa using TypedProlog.mk opens doctype (earlier.append mixed)

theorem Document.add (document : Document text) (mixed : Miscs more) : Document (text ++ more) := by
  rcases document with ⟨opens, element, earlier⟩
  simpa using Document.mk opens element (earlier.append mixed)

/-- The beginnings of a document that end outside of its root. -/
inductive DocumentBeginning : Phase → Production
  | prolog {text : List Char} (opens : Opening text) : DocumentBeginning .prolog text
  | afterDoctype {text : List Char} (typed : TypedProlog text) :
      DocumentBeginning .afterDoctype text
  | epilog {text : List Char} (document : Document text) : DocumentBeginning .epilog text

/-- A document has no text outside of its root, which is its only one. -/
def documentOutline : Outline .document where
  beginning := DocumentBeginning
  phases begins := by cases begins <;> simp
  miscs begins markup leads mixed := by
    cases begins with
    | prolog opens =>
        rcases markup with rfl | rfl | rfl <;> cases leads <;> exact .prolog (opens.add mixed)
    | afterDoctype typed =>
        rcases markup with rfl | rfl | rfl <;> cases leads <;>
          exact .afterDoctype (typed.add mixed)
    | epilog document =>
        rcases markup with rfl | rfl | rfl <;> cases leads <;> exact .epilog (document.add mixed)
  xmlInstruction begins := by cases begins
  doctype begins leads doctype := by
    cases begins with
    | prolog opens =>
        cases leads
        have typed := TypedProlog.mk opens doctype .nil
        exact .afterDoctype (by simpa using typed)
    | afterDoctype | epilog => cases leads
  body begins textual leads := by
    cases begins <;> rcases textual with rfl | rfl | rfl <;> cases leads
  element begins leads element := by
    cases begins with
    | prolog opens =>
        have document := Document.mk (.inl opens) element .nil
        exact .epilog (by simpa using document)
    | afterDoctype typed =>
        have document := Document.mk (.inr typed) element .nil
        exact .epilog (by simpa using document)
    | epilog => cases leads
  nothing begins leads := by cases begins <;> cases leads
  single fragment := by cases fragment

end Grammar

namespace Draft

variable {draft last : Draft} {events own : List Event} {text : String}

theorem eq_nil_of_start (start : draft.phase = .start) (noPayload : draft.payload = none)
    (path : draft.Path events text last) (completes : ∀ event ∈ events, event.completes) :
    events = [] ∧ text = "" ∧ last = draft := by
  cases path with
  | nil => exact ⟨rfl, rfl, rfl⟩
  | @cons _ _ _ event _ _ _ step rest =>
      have first := completes event List.mem_cons_self
      cases step with
      | line _ _ _ notStart => exact absurd start notStart
      | endPayload pending => cases pending.symm.trans (payload_eq_none.mp noPayload)
      | endStartTag inTag => simp [start] at inTag
      | endEmptyTag inTag => simp [start] at inTag
      | endTag inContent => simp [start] at inContent
      | endAttribute _ _ leads =>
          obtain ⟨inValue, _⟩ | ⟨_, onTop, _⟩ := next?_endAttribute leads
          · simp [start] at inValue
          · simp [start] at onTop
      | _ => simp [Event.completes] at first

/-- Whatever leads to an end leads to a draft in which nothing is open any more, and the
end is all that follows. -/
theorem Path.finish (path : draft.Path events text last)
    (owns : events.filter (!·.completes) = own ++ [.finish]) :
    ∃ earlier middle, draft.Path earlier text middle ∧ earlier.filter (!·.completes) = own ∧
      middle.Step .finish "" last := by
  -- Completions are passed over. Behind the end there are no more events than these, and at the
  -- start of a document there is nothing that they could complete.
  induction path generalizing own with
  | nil => simp at owns
  | @cons first second last event events more later step rest induction =>
      by_cases completes : event.completes = true
      · rw [List.filter_cons_of_neg (by simpa using completes)] at owns
        rcases induction owns with ⟨earlier, middle, path, owned, ends⟩
        refine ⟨event :: earlier, middle, .cons step path, ?_, ends⟩
        rw [List.filter_cons_of_neg (by simpa using completes), owned]
      · rw [List.filter_cons_of_pos (by simpa using completes)] at owns
        cases own with
        | cons head own =>
            rw [List.cons_append, List.cons.injEq] at owns
            rcases owns with ⟨rfl, owns⟩
            rcases induction owns with ⟨earlier, middle, path, owned, ends⟩
            refine ⟨event :: earlier, middle, .cons step path, ?_, ends⟩
            rw [List.filter_cons_of_pos (by simpa using completes), owned]
        | nil =>
            rcases List.cons.inj owns with ⟨rfl, nothing⟩
            have completes : ∀ event ∈ events, event.completes := by
              simpa [List.filter_eq_nil_iff] using nothing
            cases step with
            | finish between outside complete noPayload =>
                have start : first.reset.phase = .start := rfl
                rcases eq_nil_of_start start noPayload rest completes with ⟨_, rfl, rfl⟩
                refine ⟨[], first, by simpa using Path.nil first, rfl, ?_⟩
                exact .finish between outside complete noPayload

theorem continues_of_own {mode : Mode} (owns : events.filter (!·.completes) = own)
    (continues : ∀ event ∈ own, event.Continues mode) :
    ∀ event ∈ events, event.Continues mode := by
  intro event member
  by_cases completes : event.completes = true
  · exact event.continues_of_completes completes
  · apply continues
    rw [← owns]
    exact List.mem_filter.mpr ⟨member, by simpa using completes⟩

theorem Shaped.begins {mode : Mode} {outline : Outline mode} {text : List Char}
    (shaped : draft.Shaped outline text) (outside : draft.depth = 0)
    (notTop : draft.phase ≠ .topAttribute) : outline.beginning draft.phase text := by
  have noNames : draft.names = [] := by
    rw [names, List.length_eq_zero_iff.mp outside]
    rfl
  unfold Shaped at shaped
  rw [noNames] at shaped
  exact shaped.begins notTop

/-- What is written from some point of a document to its end completes the document. -/
theorem document_of_path {before : List Char}
    (path : draft.Path events text last)
    (owns : events.filter (!·.completes) = own ++ [.finish])
    (clean : ∀ event ∈ own, event.Clean ∧ event ≠ .finish)
    (shaped : draft.Shaped documentOutline before)
    (document : draft.mode = .document) (placed : draft.Placed) (wholesome : draft.Wholesome .wellFormed) :
    Document (before ++ text.toList) := by
  rcases path.finish owns with ⟨earlier, middle, first, owned, ends⟩
  have continues : ∀ event ∈ own, event.Continues .document := fun event member =>
    ⟨(clean event member).1, (clean event member).2, by simp⟩
  rcases shaped.path first document placed wholesome (continues_of_own owned continues) with
    ⟨shapedLast, stillDocument⟩
  cases ends with
  | finish between outside complete noPayload =>
      have begins : DocumentBeginning middle.phase (before ++ text.toList) :=
        shapedLast.begins outside between.2.2
      have rooted := complete stillDocument
      generalize middle.phase = phase at begins rooted
      cases begins with
      | prolog => exact absurd rfl rooted.1
      | afterDoctype => exact absurd rfl rooted.2
      | epilog document => exact document

/-! ## The start -/

theorem shaped_of_declaration (standalone : Option Bool) (layered : draft.Layered)
    (start : draft.phase = .start) :
    { draft with phase := .prolog, mode := .document : Draft }.Shaped documentOutline
      (draft.xmlDeclaration none standalone).toList := by
  have declared : XmlDeclaration (draft.xmlDeclaration none standalone).toList :=
    draft.xmlDeclaration_grammar (by simp) standalone
  have opening := Opening.mk declared .nil
  have none : draft.names = [] := by
    rw [Draft.names, (layered.start start).1]
    rfl
  refine .of_shape (.outside (.prolog ?_)) rfl rfl none
  simpa using opening

theorem wholesome_of_start {terms : Terms} (layered : draft.Layered) (placed : draft.Placed)
    (start : draft.phase = .start) (indent : terms.Indents draft.settings.indentChar) :
    draft.Wholesome terms where
  indent := indent
  fit := by
    obtain ⟨elements, scope⟩ := layered.start start
    refine ⟨?_, by simp [elements]⟩
    simp only [scope, List.mem_singleton, forall_eq]
    exact ⟨terms.xml, by simp [Draft.xmlBinding]⟩
  special := by
    have none := placed.special_eq_none (by simp [start]) (by simp [start])
    simp [none]

theorem document_of_start {standalone : Option Bool} (path : draft.Path events text last)
    (owns : events.filter (!·.completes) = .xmlDeclaration none standalone :: (own ++ [.finish]))
    (clean : ∀ event ∈ own, event.Clean ∧ event ≠ .finish) (start : draft.phase = .start)
    (layered : draft.Layered) (placed : draft.Placed)
    (indent : IsBlank draft.settings.indentChar) : Document text.toList := by
  have wholesome : draft.Wholesome .wellFormed := wholesome_of_start layered placed start indent
  cases path with
  | nil => simp at owns
  | @cons _ second _ event events _ _ step rest =>
      have notCompletes : event.completes ≠ true := by
        intro completes
        have noPayload := placed.payload_eq_none (by simp [start, TakesPayload])
        have none := eq_nil_of_start start noPayload (.single step) (by simpa using completes)
        simp at none
      rw [List.filter_cons_of_pos (by simpa using notCompletes), List.cons.injEq] at owns
      obtain ⟨rfl, owns⟩ := owns
      have cleanNow : (Event.xmlDeclaration none standalone).Clean := trivial
      cases step with
      | xmlDeclaration =>
          have declaration := Step.xmlDeclaration none standalone start
          rw [String.toList_append]
          exact document_of_path rest owns clean (shaped_of_declaration standalone layered start)
            rfl (placed.step declaration) (wholesome.step cleanNow.meets declaration)

end Draft

namespace Writer

variable {before after : Writer}

theorem Owns.clean {call : Call} {own : List Event} (owns : Owns before call own)
    (clean : call.Clean) (goesOn : call ≠ .endDocument) :
    ∀ event ∈ own, event.Clean ∧ event ≠ .finish := by
  cases owns with
  | finish => exact absurd rfl goesOn
  | setting call setting sets =>
      cases sets with
      | indentChar chosen => exact List.forall_mem_singleton.mpr ⟨clean, by simp⟩
      | _ => simp [Event.Clean, Setting.Clean]
  | piece call piece kind gives => 
      cases gives <;> simp_all [Event.Clean, Piece.Clean, Call.Clean]
  | qualified localName uri =>
      simp [Event.Clean, Piece.Clean, clean.1, clean.2 uri rfl]
  | attributeString request value room pieces went adds =>
      have start : (Event.startAttribute (room.draft.asked request)
          (room.draft.relies request)).Clean := clean.1
      obtain rfl | ⟨kind, rfl⟩ := adds
      · simpa using start
      · have text : (Event.write (.text value) kind).Clean := clean.2
        simpa using ⟨start, text⟩
  | elementString request value room opened pieces went opens adds =>
      have start : (Event.startElement (room.draft.asked request)
          opened.draft.owesDefault).Clean := clean.1
      obtain rfl | ⟨content, rfl, rfl⟩ := adds
      · simpa using start
      · have text : (Event.write (.text content) none).Clean := clean.2 content rfl
        simpa using ⟨start, text⟩
  | query | flush | noText | endElement | fullEndElement | endAttribute => simp
  | document => simp [Event.Clean]
  | base64 => simp [Event.Clean]
  | doctype | startElement | startAttribute | cdata | comment | instruction =>
      exact List.forall_mem_singleton.mpr ⟨clean, by simp⟩

theorem Follows.clean {calls : List Call} {own : List Event}
    (follows : Follows before calls own after) (clean : ∀ call ∈ calls, call.Clean)
    (goesOn : .endDocument ∉ calls) : ∀ event ∈ own, event.Clean ∧ event ≠ .finish := by
  induction follows with
  | nil => simp
  | cons owns does rest induction =>
      simp only [List.mem_cons, not_or, forall_eq_or_imp] at clean goesOn
      intro event member
      obtain member | member := List.mem_append.mp member
      · exact owns.clean clean.1 (Ne.symm goesOn.1) event member
      · exact induction clean.2 goesOn.2 event member

/-! ## Runs to the end of a document -/

theorem not_accepts_of_spent {calls : List Call} (spent : before.Spent) :
    ¬before.Accepts (calls ++ [.endDocument]) := by
  induction calls generalizing before with
  | nil =>
      intro accepts
      exact not_spent_of_endDocument (step_ok (accepts_cons.mp accepts).1) spent
  | cons call rest induction =>
      intro accepts
      obtain ⟨ok, accepts⟩ := accepts_cons.mp accepts
      exact induction (perform_spent spent (step_ok ok)) accepts

theorem Accepts.ne_close {calls : List Call} (accepts : before.Accepts (calls ++ [.endDocument])) :
    ∀ call ∈ calls, call ≠ .close := by
  induction calls generalizing before with
  | nil => simp
  | cons call rest induction =>
      obtain ⟨ok, accepts⟩ := accepts_cons.mp accepts
      simp only [List.mem_cons, forall_eq_or_imp]
      refine ⟨?_, induction accepts⟩
      rintro rfl
      exact not_accepts_of_spent (.inr (shut_ok (step_ok ok))) accepts

/-- What is written from a successful start of a document to its first successful end is a
document, whatever the writer has been used for before. -/
theorem document_of_run (output : OutputBuffer) (settings : Settings) (history calls : List Call)
    (standalone : Option Bool) (writer : Writer)
    (reached : writer = ((create output settings).run history).2)
    (noEncoder : writer.output.encoder = none)
    (accepts : writer.Accepts (.startDocument standalone :: (calls ++ [.endDocument])))
    (notEnded : .endDocument ∉ calls) (clean : ∀ call ∈ calls, call.Clean)
    (indent : IsBlank writer.settings.indentChar) :
    ∃ text : String, Document text.toList ∧
      (writer.run (.startDocument standalone :: (calls ++ [.endDocument]))).2.output.sink.received =
        writer.output.delivered ++ text.toUTF8 := by
  obtain ⟨begun, accepts⟩ := accepts_cons.mp accepts
  have notClosed := accepts.ne_close
  obtain ⟨acceptsCalls, acceptsEnd⟩ := accepts_append.mp accepts
  have begins := step_ok begun
  have start : writer.phase = .start := phase_of_startDocument begins
  have ready : writer.Ready := by
    rw [reached] at start ⊢
    refine ((run_extends (ready_create output settings) history).resolve_left ?_).1
    simp [Spent, start]
  have first := beginDocument_ok ready.sound (guarded_ok begins).2
  obtain ⟨own, follows⟩ := run_ok (first.ready ready) acceptsCalls notClosed
  have middle := follows.does first.sound
  obtain ⟨ended, _⟩ := accepts_cons.mp acceptsEnd
  have readyLast := middle.ready (first.ready ready)
  have finishes := (guarded_ok (step_ok ended)).2
  have last := finishDocument_ok readyLast.sound readyLast.placed finishes
  obtain ⟨events, text, runs, owns⟩ := first.trans (middle.trans last)
  have noName : writer.output.encoding? = none := by simp [OutputBuffer.encoding?, noEncoder]
  rw [noName] at owns
  refine ⟨text, ?_, ?_⟩
  · exact Draft.document_of_start runs.path owns (follows.clean clean notEnded) start
      ready.layered ready.placed indent
  · have extended := runs.output.delivered
    have passedOn := (start_of_finishDocument finishes).1
    rw [noEncoder, OutputBuffer.delivered, passedOn, ByteArray.append_empty] at extended
    simpa [run, run_append, OutputBuffer.encoded] using extended

theorem document_of_run_typed :
    let writer := create { sink := {} }
    let calls : List Call :=
      [.doctype "a" none none none, .startElement { localName := "a" },
        .attributeString { localName := "b" } "<", .text "x > y"]
    writer.Accepts (.startDocument none :: (calls ++ [.endDocument])) ∧
      ∃ text : String, Document text.toList ∧
        (writer.run (.startDocument none :: (calls ++ [.endDocument]))).2.output.sink.received =
          writer.output.delivered ++ text.toUTF8 := by
  intro writer calls
  have accepts : writer.Accepts (.startDocument none :: (calls ++ [.endDocument])) := by
    unfold Accepts
    decide +kernel
  have clean : ∀ call ∈ calls, call.Clean := by
    simp only [calls, List.mem_cons, List.not_mem_nil, or_false, forall_eq_or_imp, forall_eq]
    exact ⟨⟨by simp, by simp, rfl⟩, .plain (by decide +kernel),
      ⟨.plain (by decide +kernel), legal_of_all (by decide +kernel)⟩,
      legal_of_all (by decide +kernel)⟩
  have indent : IsBlank writer.settings.indentChar := by
    unfold IsBlank
    decide +kernel
  exact ⟨accepts, document_of_run { sink := {} } {} [] calls none writer rfl rfl accepts
    (by decide) clean indent⟩

end Writer

end XmlStream
