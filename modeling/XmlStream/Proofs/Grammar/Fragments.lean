import XmlStream.Proofs.Grammar.Documents
import XmlStream.Proofs.Simulation.Reachable

namespace XmlStream

/-! A run without a declaration writes a fragment: content, a document type with what may
stand around it, or one attribute with content behind it. -/

def Call.BeginsAttribute : Call → Prop
  | .startAttribute _ | .attributeString _ _ => True
  | _ => False

/-- A call that neither begins nor ends a document, and does not close the writer. -/
structure Call.GoesOn (call : Call) : Prop where
  ends : call ≠ .endDocument
  closes : call ≠ .close
  declares : ∀ standalone, call ≠ .startDocument standalone

namespace Grammar

variable {text more : List Char}

theorem TypedOpening.add (opens : TypedOpening text) (mixed : Miscs more) :
    TypedOpening (text ++ more) := by
  rcases opens with ⟨begins, earlier, typed, later⟩
  simpa using TypedOpening.mk begins earlier typed (later.append mixed)

/-- The beginnings of a fragment that end outside of elements and of attributes. -/
inductive FragmentBeginning : Phase → Production
  | start : FragmentBeginning .start []
  | prolog {first miscs : List Char} (begins : Optional XmlInstruction first)
      (mixed : Miscs miscs) : FragmentBeginning .prolog (first ++ miscs)
  | afterDoctype {text : List Char} (opens : TypedOpening text) :
      FragmentBeginning .afterDoctype text
  | content {head rest : List Char} (begins : Head head) (body : Body rest) :
      FragmentBeginning .content (head ++ rest)
  | epilog {first rest : List Char} (single : Attribute first) (body : Body rest) :
      FragmentBeginning .epilog (first ++ rest)

/-- A fragment may go on with any content, unless it has a document type only. -/
def fragmentOutline : Outline .fragment where
  beginning := FragmentBeginning
  phases begins := by cases begins <;> simp
  miscs begins markup leads mixed := by
    cases begins with
    | start =>
        rcases markup with rfl | rfl | rfl <;> cases leads <;> exact .prolog (.inl rfl) mixed
    | prolog begins earlier =>
        rw [List.append_assoc]
        rcases markup with rfl | rfl | rfl <;> cases leads <;>
          exact .prolog begins (earlier.append mixed)
    | afterDoctype opens =>
        rcases markup with rfl | rfl | rfl <;> cases leads <;> exact .afterDoctype (opens.add mixed)
    | content begins body =>
        rw [List.append_assoc]
        rcases markup with rfl | rfl | rfl <;> cases leads <;>
          exact .content begins (body.miscs mixed)
    | epilog single body =>
        rw [List.append_assoc]
        rcases markup with rfl | rfl | rfl <;> cases leads <;>
          exact .epilog single (body.miscs mixed)
  xmlInstruction begins instruction := by
    cases begins with
    | start => simpa using FragmentBeginning.prolog (.inr instruction) .nil
  doctype begins leads doctype := by
    cases begins with
    | start =>
        cases leads
        have opens := TypedOpening.mk (.inl rfl) .nil doctype .nil
        exact .afterDoctype (by simpa using opens)
    | prolog begins mixed =>
        cases leads
        have opens := TypedOpening.mk begins mixed doctype .nil
        exact .afterDoctype (by simpa using opens)
    | afterDoctype | content | epilog => cases leads
  body begins textual leads grows := by
    cases begins with
    | start =>
        rcases textual with rfl | rfl | rfl <;> cases leads <;>
          exact .content (.plain (.inl rfl)) (grows .nil)
    | prolog begins mixed =>
        have body := grows (Body.nil.miscs mixed)
        rw [List.append_assoc]
        rcases textual with rfl | rfl | rfl <;> cases leads <;> exact .content (.plain begins) body
    | afterDoctype => rcases textual with rfl | rfl | rfl <;> cases leads
    | content begins body =>
        rw [List.append_assoc]
        rcases textual with rfl | rfl | rfl <;> cases leads <;> exact .content begins (grows body)
    | epilog single body =>
        rw [List.append_assoc]
        rcases textual with rfl | rfl | rfl <;> cases leads <;> exact .epilog single (grows body)
  element begins leads element := by
    cases begins with
    | start => exact .content (.plain (.inl rfl)) (Body.nil.item (.element element))
    | prolog begins mixed =>
        rw [List.append_assoc]
        exact .content (.plain begins) ((Body.nil.miscs mixed).item (.element element))
    | afterDoctype opens =>
        have content := FragmentBeginning.content (.typed opens element) .nil
        rwa [List.append_nil] at content
    | content begins body =>
        rw [List.append_assoc]
        exact .content begins (body.item (.element element))
    | epilog single body =>
        rw [List.append_assoc]
        exact .content (.single single) (body.item (.element element))
  nothing begins leads := by
    cases begins with
    | start => rfl
    | _ => cases leads
  single _ single := by
    have begins := FragmentBeginning.epilog single .nil
    simpa using begins

theorem FragmentBeginning.fragment {phase : Phase} (begins : FragmentBeginning phase text) :
    Fragment text := by
  cases begins with
  | start => exact .content (.plain (.inl rfl)) Body.nil.content
  | prolog begins mixed => exact .content (.plain begins) (Body.nil.miscs mixed).content
  | afterDoctype opens => exact .typed opens
  | content begins body => exact .content begins body.content
  | epilog single body => exact .content (.single single) body.content

end Grammar

open Grammar

namespace Draft

variable {draft : Draft}

theorem mode_of_start (placed : draft.Placed) (start : draft.phase = .start) :
    draft.mode = .fragment := by
  cases mode : draft.mode with
  | fragment => rfl
  | document => exact absurd start (placed.document mode).1

theorem shaped_of_start (layered : draft.Layered) (start : draft.phase = .start) :
    draft.Shaped fragmentOutline [] := by
  have noNames : draft.names = [] := by
    rw [names, (layered.start start).1]
    rfl
  exact .of_shape (.outside .start) rfl start noNames

end Draft

namespace Writer

variable {before after : Writer}

/-! ## Runs without a declaration -/

theorem Owns.ne_xmlDeclaration {call : Call} {own : List Event} (owns : Owns before call own)
    (undeclared : ∀ standalone, call ≠ .startDocument standalone) :
    ∀ event ∈ own, ∀ encoding standalone, event ≠ .xmlDeclaration encoding standalone := by
  cases owns with
  | document standalone => exact absurd rfl (undeclared standalone)
  | attributeString _ _ _ _ _ adds => rcases adds with rfl | ⟨_, rfl⟩ <;> simp
  | elementString _ _ _ _ _ _ _ adds => rcases adds with rfl | ⟨_, _, rfl⟩ <;> simp
  | _ => simp

theorem Follows.continues {calls : List Call} {own : List Event}
    (follows : Follows before calls own after) (clean : ∀ call ∈ calls, call.Clean)
    (goesOn : ∀ call ∈ calls, call.GoesOn) : ∀ event ∈ own, event.Continues .fragment := by
  induction follows with
  | nil => simp
  | cons owns does rest induction =>
      simp only [List.mem_cons, forall_eq_or_imp] at clean goesOn
      intro event member
      rcases List.mem_append.mp member with member | member
      · rcases owns.clean clean.1 goesOn.1.ends event member with ⟨cleanNow, notFinish⟩
        exact ⟨cleanNow, notFinish, fun _ => owns.ne_xmlDeclaration goesOn.1.declares event member⟩
      · exact induction clean.2 goesOn.2 event member

/-- A writer that has only written the beginning of a fragment since it was at the start. -/
structure Begins (before : Writer) (text : String) (after : Writer) : Prop where
  ready : after.Ready
  shaped : after.draft.Shaped fragmentOutline text.toList
  mode : after.mode = .fragment
  wholesome : after.draft.Wholesome .wellFormed
  output : before.output.Extends text after.output
  start : after.phase = .start → text = ""

theorem begins_of_run {calls : List Call} (ready : before.Ready) (start : before.phase = .start)
    (indent : IsBlank before.settings.indentChar) (accepts : before.Accepts calls)
    (clean : ∀ call ∈ calls, call.Clean) (goesOn : ∀ call ∈ calls, call.GoesOn) :
    ∃ text, before.Begins text (before.run calls).2 := by
  rcases run_ok ready accepts fun call member => (goesOn call member).closes with ⟨own, follows⟩
  have does := follows.does ready.sound
  have readyAfter := does.ready ready
  rcases does with ⟨events, text, runs, owned⟩
  have continues := Draft.continues_of_own owned (follows.continues clean goesOn)
  have wholesome : before.draft.Wholesome .wellFormed :=
    Draft.wholesome_of_start ready.layered ready.placed start indent
  rcases (Draft.shaped_of_start ready.layered start).path runs.path
    (Draft.mode_of_start ready.placed start) ready.placed wholesome continues with ⟨shaped, mode⟩
  refine ⟨text, readyAfter, shaped, mode, wholesome.path runs.path fun event member =>
    (continues event member).clean.meets, runs.output, fun startStill => ?_⟩
  exact (runs.path.start ready.placed (fun event member => (continues event member).goesOn)
    startStill).2

/-! ## Ends -/

structure Rounds (before : Writer) (text : String) (after : Writer) : Prop where
  path : ∃ events last, before.draft.Path events text last ∧
    (∀ event ∈ events, event.completes) ∧ last.depth = 0 ∧ last.phase ≠ .topAttribute
  received : after.output.sink.received = before.output.delivered ++ text.toUTF8

theorem rounds_of_endDocument (ready : before.Ready) (noEncoder : before.output.encoder = none)
    {nothing : Unit} (ok : perform .endDocument before = .ok nothing after) :
    ∃ text, before.Rounds text after := by
  have finishes := (guarded_ok ok).2
  rcases finishDocument_ok ready.sound ready.placed finishes with ⟨events, text, runs, owned⟩
  have owned : events.filter (!·.completes) = [] ++ [.finish] := owned
  rcases runs.path.finish owned with ⟨earlier, middle, path, completes, ends⟩
  refine ⟨text, ⟨earlier, middle, path, ?_, ?_⟩, ?_⟩
  · simpa [List.filter_eq_nil_iff] using completes
  · generalize after.draft = ended at ends
    cases ends with
    | finish between outside => exact ⟨outside, between.2.2⟩
  · have extended := runs.output.delivered
    rw [noEncoder, OutputBuffer.delivered, (start_of_finishDocument finishes).1,
      ByteArray.append_empty] at extended
    exact extended

theorem rounds_of_close (ready : before.Ready) (notClosed : before.phase ≠ .closed)
    (noEncoder : before.output.encoder = none) {nothing : Unit}
    (ok : perform .close before = .ok nothing after)
    (complete : ∀ error, .leftIncomplete error ∉ after.log) : ∃ text, before.Rounds text after := by
  simp only [perform, shut, bind_eq_ok, get_eq_ok, ite_eq_ok, modify_eq_ok, tryCatch_eq_ok,
    report] at ok
  rcases ok with ⟨_, _, ⟨rfl, rfl⟩, ⟨_, _, middle, completed, _, _, rfl, ok⟩ | ⟨closed, _⟩⟩
  · rcases onOutput_ok ok with ⟨output, finishes, rfl⟩
    rcases completed with completed | ⟨error, _, _, rfl⟩
    · rcases completeAll_ok ready.sound completed with ⟨events, text, empties⟩
      have extended := empties.runs.output
      have noEncoderStill : middle.output.encoder = none := by
        rw [extended.encoder, noEncoder]
        rfl
      have ended : middle.output.terminate = middle.output := by
        simp [OutputBuffer.terminate, noEncoderStill]
      simp only [OutputBuffer.finish, bind_eq_ok, modify_eq_ok] at finishes
      rcases finishes with ⟨_, _, rfl, flushes⟩
      rw [ended] at flushes
      rcases OutputBuffer.extends_of_flush flushes with ⟨passedOn, nothingLeft⟩
      refine ⟨text, ⟨events, middle.draft, empties.runs.path, empties.events, empties.depth,
        empties.notTop⟩, ?_⟩
      have delivered := (extended.trans passedOn).delivered
      rw [noEncoder, OutputBuffer.delivered, nothingLeft, ByteArray.append_empty] at delivered
      simpa [OutputBuffer.encoded] using delivered
    · exact absurd (by simp) (complete error)
  · exact absurd (Decidable.not_not.mp closed) notClosed

theorem Begins.ne_closed {text : String} (begins : before.Begins text after) :
    after.phase ≠ .closed := by
  intro closed
  have shape := begins.shaped.shape closed
  generalize after.draft.names = names at shape
  cases shape with
  | outside beginning => cases beginning

theorem Rounds.fragment {middle : Writer} {text more : String}
    (rounds : middle.Rounds more after) (begins : before.Begins text middle) :
    Fragment (text ++ more).toList := by
  rcases rounds.path with ⟨events, last, path, completes, outside, notTop⟩
  rcases begins.shaped.path path begins.mode begins.ready.placed begins.wholesome
    fun event member => event.continues_of_completes (completes event member) with ⟨shaped, _⟩
  have beginning : FragmentBeginning last.phase (text.toList ++ more.toList) :=
    shaped.begins outside notTop
  rw [String.toList_append]
  exact beginning.fragment

theorem start_of_attribute {call : Call} {nothing : Unit} (ready : before.Ready)
    (opens : call.BeginsAttribute) (outside : before.depth = 0)
    (ok : perform call before = .ok nothing after) : before.phase = .start := by
  have went : ∃ room, advance .startAttribute before = .ok () room := by
    have notClose : call ≠ .close := by
      rintro rfl
      exact opens
    rcases perform_ok ready notClose ok with ⟨own, owns, _⟩
    cases owns with
    | startAttribute _ room went => exact ⟨room, went⟩
    | attributeString _ _ room _ went => exact ⟨room, went⟩
    | setting _ _ sets => cases sets <;> exact opens.elim
    | piece _ _ _ gives => cases gives <;> exact opens.elim
    | _ => exact opens.elim
  rcases went with ⟨room, went⟩
  rcases advance_ok went with ⟨next, _, _, _, leads, _⟩
  have leads := next?_of_nextPhase? (by simp) leads
  have all : (before.mode.next? .startAttribute before.phase).all (fun _ =>
      before.phase = .start ∨ before.phase = .element ∨ before.phase = .attribute) = true := by
    cases before.mode <;> cases before.phase <;> rfl
  rw [leads] at all
  rcases of_decide_eq_true all with start | inside
  · exact start
  · exact absurd (ready.placed.inside inside) (by simp [outside])

/-- What is written without a declaration from the start, of a new writer or after an end, up
to an end is a fragment, and an attribute stands outside of elements as the first thing only. -/
theorem fragment_of_run (output : OutputBuffer) (settings : Settings) (history calls : List Call)
    (last : Call) (writer : Writer) (reached : writer = ((create output settings).run history).2)
    (since : (create output settings).Since history) (noEncoder : writer.output.encoder = none)
    (accepts : writer.Accepts (calls ++ [last]))
    (ends : last = .endDocument ∨ last = .close ∧
      ∀ error, .leftIncomplete error ∉ (writer.run (calls ++ [last])).2.log)
    (goesOn : ∀ call ∈ calls, call.GoesOn) (clean : ∀ call ∈ calls, call.Clean)
    (indent : IsBlank writer.settings.indentChar) :
    (∃ text : String, Fragment text.toList ∧
      (writer.run (calls ++ [last])).2.output.sink.received =
        writer.output.delivered ++ text.toUTF8) ∧
      ∀ front call back, calls = front ++ call :: back → call.BeginsAttribute →
        (writer.run front).2.depth = 0 →
        (writer.run front).2.phase = .start ∧
          (writer.run front).2.output.delivered = writer.output.delivered := by
  rcases since.ready with ⟨ready, start⟩
  rw [← reached] at ready start
  rcases accepts_append.mp accepts with ⟨acceptsCalls, acceptsLast⟩
  constructor
  · rcases begins_of_run ready start indent acceptsCalls clean goesOn with ⟨text, begins⟩
    have noEncoderStill : (writer.run calls).2.output.encoder = none := by
      rw [begins.output.encoder, noEncoder]
      rfl
    have ok := step_ok (accepts_cons.mp acceptsLast).1
    rw [run_concat] at ends ⊢
    have rounded : ∃ more, (writer.run calls).2.Rounds more ((writer.run calls).2.step last).2 := by
      rcases ends with rfl | ⟨rfl, complete⟩
      · exact rounds_of_endDocument begins.ready noEncoderStill ok
      · exact rounds_of_close begins.ready begins.ne_closed noEncoderStill ok complete
    rcases rounded with ⟨more, rounds⟩
    refine ⟨text ++ more, rounds.fragment begins, ?_⟩
    rw [rounds.received, begins.output.delivered, noEncoder]
    simp [OutputBuffer.encoded, ByteArray.append_assoc]
  · rintro front call back rfl opens outside
    rcases accepts_append.mp acceptsCalls with ⟨acceptsFront, acceptsCall⟩
    rcases begins_of_run ready start indent acceptsFront
      (fun other member => clean other (List.mem_append_left _ member))
      fun other member => goesOn other (List.mem_append_left _ member) with ⟨text, begins⟩
    have ok := step_ok (accepts_cons.mp acceptsCall).1
    have startStill := start_of_attribute begins.ready opens outside ok
    refine ⟨startStill, ?_⟩
    rw [begins.output.delivered, begins.start startStill, noEncoder]
    simp [OutputBuffer.encoded]

theorem fragment_of_run_single :
    let writer := create { sink := {} }
    let calls : List Call :=
      [.attributeString { localName := "b" } "<", .text "x > y",
        .startElement { localName := "a" }]
    writer.Accepts (calls ++ [.close]) ∧
      ∃ text : String, Fragment text.toList ∧
        (writer.run (calls ++ [.close])).2.output.sink.received =
          writer.output.delivered ++ text.toUTF8 := by
  intro writer calls
  have accepts : writer.Accepts (calls ++ [.close]) := by
    unfold Accepts
    decide +kernel
  have complete : ∀ error, .leftIncomplete error ∉ (writer.run (calls ++ [.close])).2.log := by
    have noReport : (writer.run (calls ++ [.close])).2.log = #[] := by decide +kernel
    simp [noReport]
  have clean : ∀ call ∈ calls, call.Clean := by
    simp only [calls, List.mem_cons, List.not_mem_nil, or_false, forall_eq_or_imp, forall_eq]
    exact ⟨⟨.plain (by decide +kernel), legal_of_all (by decide +kernel)⟩,
      legal_of_all (by decide +kernel), .plain (by decide +kernel)⟩
  have goesOn : ∀ call ∈ calls, call.GoesOn := by
    simp only [calls, List.mem_cons, List.not_mem_nil, or_false, forall_eq_or_imp, forall_eq]
    exact ⟨⟨by simp, by simp, by simp⟩, ⟨by simp, by simp, by simp⟩, ⟨by simp, by simp, by simp⟩⟩
  have indent : IsBlank writer.settings.indentChar := by
    unfold IsBlank
    decide +kernel
  exact ⟨accepts, (fragment_of_run { sink := {} } {} [] calls .close writer rfl (.inl rfl) rfl
    accepts (.inr ⟨rfl, complete⟩) goesOn clean indent).1⟩

end Writer

end XmlStream
