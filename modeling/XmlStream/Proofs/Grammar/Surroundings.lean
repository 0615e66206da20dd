import XmlStream.Proofs.Grammar.Clean
import XmlStream.Proofs.Grammar.Shape
import XmlStream.Proofs.Completion.Implicit

namespace XmlStream

/-! What stands outside of the root: before it, and in a document behind it. Comments,
instructions and white space can stand there, and nothing else can be added by the calls
for these, but for the reference that a carriage return leaves as. -/

open Grammar

namespace Grammar

/-- Any number of `Misc`, with references to carriage returns between them where there may
be returns. -/
inductive Surroundings (returns : Prop) : Production
  | nil : Surroundings returns []
  | misc {text last : List Char} (earlier : Surroundings returns text) (misc : Misc last) :
      Surroundings returns (text ++ last)
  | reference {text : List Char} (earlier : Surroundings returns text) (referred : returns) :
      Surroundings returns (text ++ "&#xD;".toList)

variable {returns : Prop} {text more : List Char}

theorem Surroundings.miscs (surroundings : Surroundings returns text) (never : ¬returns) :
    Miscs text := by
  induction surroundings with
  | nil => exact .nil
  | misc earlier misc induction => exact induction.snoc misc
  | reference earlier referred => exact absurd referred never

theorem Surroundings.append (earlier : Surroundings returns text)
    (later : Surroundings returns more) : Surroundings returns (text ++ more) := by
  induction later with
  | nil => simpa using earlier
  | misc _ misc induction =>
      rw [← List.append_assoc]
      exact induction.misc misc
  | reference _ referred induction =>
      rw [← List.append_assoc]
      exact induction.reference referred

theorem Surroundings.weaken {others : Prop} (surroundings : Surroundings returns text)
    (implies : returns → others) : Surroundings others text := by
  induction surroundings with
  | nil => exact .nil
  | misc _ misc induction => exact induction.misc misc
  | reference _ referred induction => exact induction.reference (implies referred)

theorem surroundings_of_misc (misc : Misc text) : Surroundings returns text := by
  simpa using Surroundings.nil.misc misc

def referredBlank (character : Char) : List Char :=
  if character = '\r' then "&#xD;".toList else [character]

theorem escapedChar_blank {character : Char} (blank : IsBlank character) :
    TextPosition.content.escapedChar character = referredBlank character := by
  by_cases carriageReturn : character = '\r'
  · subst carriageReturn
    decide +kernel
  · rw [escapedChar_of_isBlank blank carriageReturn, referredBlank, if_neg carriageReturn]

theorem toList_escaped_blank {blanks : String} (blank : OptionalSpace blanks.toList) :
    (TextPosition.content.escaped blanks).toList = blanks.toList.flatMap referredBlank := by
  rw [TextPosition.toList_escaped]
  exact List.flatMap_congr fun character member => escapedChar_blank (blank character member)

theorem surroundings_of_blank (blank : OptionalSpace text) :
    Surroundings ('\r' ∈ text) (text.flatMap referredBlank) := by
  induction text with
  | nil => exact .nil
  | cons character rest induction =>
      rw [List.flatMap_cons]
      have later := (induction fun other member => blank other (List.mem_cons_of_mem _ member)).weaken
        (List.mem_cons_of_mem character)
      refine Surroundings.append ?_ later
      by_cases carriageReturn : character = '\r'
      · rw [referredBlank, if_pos carriageReturn]
        exact Surroundings.nil.reference (carriageReturn ▸ List.mem_cons_self)
      · rw [referredBlank, if_neg carriageReturn]
        refine surroundings_of_misc (.space ⟨List.cons_ne_nil _ _, ?_⟩)
        exact List.forall_mem_singleton.mpr (blank character List.mem_cons_self)

theorem flatMap_referredBlank (noReturn : '\r' ∉ text) : text.flatMap referredBlank = text := by
  induction text with
  | nil => rfl
  | cons character rest induction =>
      rw [List.mem_cons, not_or] at noReturn
      rw [List.flatMap_cons, referredBlank, if_neg (Ne.symm noReturn.1), induction noReturn.2]
      rfl

end Grammar

/-! ## Steps of the draft -/

namespace Draft

variable {before after : Draft}

/-- Nothing of the root stands at this place: it is before the root, or behind the root of a
document. -/
def Outside (draft : Draft) : Prop :=
  draft.phase = .start ∨ draft.phase = .prolog ∨ draft.phase = .afterDoctype ∨
    draft.phase = .epilog ∧ draft.mode = .document

theorem Outside.next {token : Token} {next : Phase} (outside : before.Outside)
    (markup : token = .comment ∨ token = .processingInstruction ∨ token = .whitespace)
    (leads : before.mode.next? token before.phase = some next) :
    next = .prolog ∨ next = .afterDoctype ∨ next = .epilog ∧ before.mode = .document := by
  rcases outside with phase | phase | phase | ⟨phase, mode⟩
  all_goals
    rw [phase] at leads
    cases mode : before.mode <;> rw [mode] at leads <;>
      rcases markup with rfl | rfl | rfl <;> cases leads <;> simp_all

theorem Outside.enter {next : Phase}
    (leads : next = .prolog ∨ next = .afterDoctype ∨ next = .epilog ∧ before.mode = .document)
    (phase : after.phase = next) (mode : after.mode = before.mode) : after.Outside := by
  subst phase
  rw [← mode] at leads
  exact .inr leads

theorem Outside.depth (outside : before.Outside) (placed : before.Placed) : before.depth = 0 := by
  refine placed.outside ?_
  rcases outside with phase | phase | phase | ⟨phase, _⟩ <;> simp [phase]

theorem Outside.payload (outside : before.Outside) (placed : before.Placed) :
    before.payload = none := by
  refine placed.payload_eq_none ?_
  rcases outside with phase | phase | phase | ⟨phase, mode⟩ <;> simp [TakesPayload, *]

theorem Outside.phase_ne (outside : before.Outside) :
    before.phase ≠ .element ∧ before.phase ≠ .attribute ∧ before.phase ≠ .content ∧
      before.phase ≠ .topAttribute := by
  rcases outside with phase | phase | phase | ⟨phase, _⟩ <;> simp [phase]

end Draft

/-- Legal comments and instructions, white space, and settings. Where the declaration could
stand, no instruction is one. -/
def Event.Surrounds (returns starts : Prop) : Event → Prop
  | .comment text => Legal text
  | .instruction target text =>
      Legal text ∧ (starts → equalIgnoringCase target "xml" = false)
  | .write (.whitespace blanks) _ => '\r' ∈ blanks.toList → returns
  | .configure _ => True
  | _ => False

namespace Draft

variable {before after : Draft} {event : Event} {text : String} {returns starts : Prop}

theorem Outside.step (outside : before.Outside) (placed : before.Placed)
    (step : before.Step event text after)
    (surrounds : event.completes = true ∨ event.Surrounds returns starts)
    (beginning : before.phase = .start → starts) :
    Surroundings returns text.toList ∧ after.Outside := by
  rcases outside.phase_ne with ⟨notElement, notAttribute, notContent, notTop⟩
  cases step with
  | comment text next between noDashes noDash leads =>
      replace surrounds := surrounds.resolve_left (by simp [Event.completes])
      exact ⟨surroundings_of_misc (.comment (comment_of_noHyphens surrounds noDashes noDash)),
        .enter (outside.next (.inl rfl) leads) rfl rfl⟩
  | instruction target text next between noEnd notXml usable leads =>
      rcases surrounds.resolve_left (by simp [Event.completes]) with ⟨legal, noDeclaration⟩
      have notXml : equalIgnoringCase target "xml" = false := by
        by_contra xml
        rw [Bool.not_eq_false] at xml
        have := noDeclaration (beginning (notXml xml).2)
        simp [xml] at this
      exact ⟨surroundings_of_misc
          (.instruction (instruction_of_noEnd (name_of_isUsable usable) notXml legal noEnd)),
        .enter (outside.next (.inr (.inl rfl)) leads) rfl rfl⟩
  | line beforeEnd between indents notStart plain inContent =>
      refine ⟨?_, outside⟩
      rw [lineText, if_pos (outside.depth placed)]
      refine surroundings_of_misc (.space ⟨by simp, fun character member => ?_⟩)
      have lineFeed : character = '\n' := by simpa using member
      rw [lineFeed, IsBlank]
      decide
  | write piece next closed leads blank named legal =>
      replace surrounds := surrounds.resolve_left (by simp [Event.completes])
      cases piece with
      | whitespace blanks =>
          have leads := outside.next (.inr (.inr rfl)) leads
          have content : before.position next = .content := by
            rcases leads with rfl | rfl | ⟨rfl, _⟩ <;> rfl
          have blank : OptionalSpace blanks.toList :=
            List.all_eq_true.mp (blank blanks rfl)
          rw [Piece.written, content, toList_escaped_blank blank]
          exact ⟨(surroundings_of_blank blank).weaken surrounds,
            .enter leads (before.enterText_phase next) (before.enterText_mode next)⟩
      | _ => exact absurd surrounds id
  | configure setting atStart unquoted => exact ⟨.nil, outside⟩
  | endAttribute next found leads =>
      rcases outside with phase | phase | phase | ⟨phase, _⟩
      all_goals
        rw [phase] at leads
        cases mode : before.mode <;> rw [mode] at leads <;> cases leads
  | endStartTag inTag => exact absurd inTag notElement
  | endEmptyTag inTag => exact absurd inTag notElement
  | endTag inContent => exact absurd inContent notContent
  | endPayload pending =>
      cases pending.symm.trans (payload_eq_none.mp (outside.payload placed))
  | _ => simp [Event.completes, Event.Surrounds] at surrounds

theorem Outside.path {events : List Event} (outside : before.Outside) (placed : before.Placed)
    (path : before.Path events text after)
    (surrounds : ∀ event ∈ events, event.completes = true ∨ event.Surrounds returns starts)
    (beginning : before.phase = .start → starts) :
    Surroundings returns text.toList ∧ after.Outside := by
  induction path with
  | nil => exact ⟨.nil, outside⟩
  | @cons _ _ _ event _ _ _ step rest induction =>
      rw [List.forall_mem_cons] at surrounds
      rcases outside.step placed step surrounds.1 beginning with ⟨first, outsideStill⟩
      have goesOn : event ≠ .finish := by
        rintro rfl
        simp [Event.completes, Event.Surrounds] at surrounds
      rcases induction outsideStill (placed.step step) surrounds.2
        (fun start => beginning (step.start placed goesOn start).1) with ⟨more, outsideLast⟩
      rw [String.toList_append]
      exact ⟨first.append more, outsideLast⟩

end Draft

/-! ## Calls -/

/-- Calls for what may stand outside of the root, and calls that write nothing. -/
def Call.Surrounds : Call → Prop
  | .comment content | .instruction _ content => Legal content
  | .whitespace _ | .query _ | .setNamespaces _ | .setFormatting _ | .setIndentation _
  | .setIndentChar _ | .setQuoteChar _ | .flush => True
  | _ => False

def AskReturns (calls : List Call) : Prop :=
  ∃ blanks, .whitespace blanks ∈ calls ∧ '\r' ∈ blanks.toList

namespace Writer

variable {before after writer : Writer} {returns starts : Prop}

def Outside (writer : Writer) : Prop :=
  writer.phase = .start ∨ writer.phase = .prolog ∨ writer.phase = .afterDoctype ∨
    writer.phase = .epilog ∧ writer.mode = .document

theorem Owns.surrounds {call : Call} {own : List Event} (owns : Owns before call own)
    (surrounds : call.Surrounds)
    (noDeclaration : ∀ target text, call = .instruction target text → starts →
      equalIgnoringCase target "xml" = false)
    (returned : ∀ blanks, call = .whitespace blanks → '\r' ∈ blanks.toList → returns) :
    ∀ event ∈ own, event.Surrounds returns starts := by
  cases owns with
  | query | flush => simp
  | setting call setting sets => simp [Event.Surrounds]
  | comment text => exact List.forall_mem_singleton.mpr surrounds
  | instruction target text =>
      exact List.forall_mem_singleton.mpr ⟨surrounds, noDeclaration target text rfl⟩
  | piece call piece kind gives stands =>
      cases gives with
      | whitespace text => exact List.forall_mem_singleton.mpr (returned text rfl)
      | _ => exact absurd surrounds id
  | _ => exact absurd surrounds id

theorem Follows.surrounds {calls : List Call} {own : List Event}
    (follows : Follows before calls own after) (surrounds : ∀ call ∈ calls, call.Surrounds)
    (noDeclaration : starts → ∀ target text, .instruction target text ∈ calls →
      equalIgnoringCase target "xml" = false)
    (returned : ∀ blanks, .whitespace blanks ∈ calls → '\r' ∈ blanks.toList → returns) :
    ∀ event ∈ own, event.Surrounds returns starts := by
  induction follows with
  | nil => simp
  | @cons _ _ _ call rest _ _ owns _ _ induction =>
      rw [List.forall_mem_cons] at surrounds
      intro event member
      rcases List.mem_append.mp member with member | member
      · exact owns.surrounds surrounds.1
          (fun target text same atStart =>
            noDeclaration atStart target text (same ▸ List.mem_cons_self))
          (fun blanks same => returned blanks (same ▸ List.mem_cons_self)) event member
      · exact induction surrounds.2
          (fun atStart target text inside =>
            noDeclaration atStart target text (List.mem_cons_of_mem _ inside))
          (fun blanks inside => returned blanks (List.mem_cons_of_mem _ inside)) event member

theorem Outside.leads (outside : writer.Outside) (placed : writer.draft.Placed) :
    ∃ next, writer.mode.next? .whitespace writer.phase = some next := by
  rcases outside with phase | phase | phase | ⟨phase, mode⟩
  · cases mode : writer.mode with
    | fragment => exact ⟨.prolog, by rw [phase]; rfl⟩
    | document => exact absurd phase (placed.document mode).1
  all_goals
    rw [phase]
    cases writer.mode <;> exact ⟨_, rfl⟩

theorem advance_whitespace (outside : writer.Outside) (placed : writer.draft.Placed) :
    ∃ room, advance .whitespace writer = .ok () room ∧ room.Outside ∧
      room.output = writer.output ∧ room.textPosition = .content := by
  have outsideDraft : writer.draft.Outside := outside
  obtain ⟨next, leads⟩ := outside.leads placed
  have leadsOut := outsideDraft.next (.inr (.inr rfl)) leads
  have goes : writer.nextPhase? .whitespace = some next := by simp [nextPhase?, leads]
  have made : makeRoom .whitespace next writer = .ok .whitespace writer := by
    have notElement : writer.phase ≠ .element := outsideDraft.phase_ne.1
    have notContent : next ≠ .content := by
      rcases leadsOut with rfl | rfl | ⟨rfl, _⟩ <;> simp
    simp [makeRoom, get_bind_eq, notElement, notContent, pure, EStateM.pure]
  refine ⟨{ writer with phase := next, lastToken := some .whitespace }, ?_, .inr leadsOut, rfl, ?_⟩
  · rw [advance_eq goes, if_pos (by simp)]
    simp only [bind_eq_ok, modify_eq_ok]
    exact ⟨_, writer, finishPayload_of_none (outsideDraft.payload placed), _, writer, made, rfl⟩
  · rcases leadsOut with rfl | rfl | ⟨rfl, _⟩ <;> rfl

/-- White space outside of the root is written as it is, but for carriage returns. -/
theorem whitespace_outside (placed : writer.draft.Placed) (outside : writer.Outside)
    {blanks : String} (ok : (writer.step (.whitespace blanks)).1.isOk = true) :
    OptionalSpace blanks.toList ∧ (writer.step (.whitespace blanks)).2.Outside ∧
      ∃ written, writer.output.Extends written (writer.step (.whitespace blanks)).2.output ∧
        written.toList = blanks.toList.flatMap referredBlank := by
  obtain ⟨room, went, outsideStill, output, position⟩ := advance_whitespace outside placed
  have puts := (guarded_ok (step_ok ok)).2
  simp only [putWhitespace, refuse_bind_eq_ok, bind_eq_ok, went] at puts
  obtain ⟨allBlank, _, _, same, wrote⟩ := puts
  cases same
  have blank : OptionalSpace blanks.toList := by simpa [OptionalSpace, IsBlank] using allBlank
  obtain ⟨last, same, extended⟩ := emitText_ok wrote
  rw [same]
  refine ⟨blank, outsideStill, _, ?_, toList_escaped_blank blank⟩
  rw [position] at extended
  exact output ▸ extended

/-- All white space is accepted outside of the root, as long as the sink does not fail. -/
theorem accepts_whitespace (placed : writer.draft.Placed) (outside : writer.Outside)
    (unfailing : writer.output.sink.Unfailing) {blanks : String}
    (blank : OptionalSpace blanks.toList) :
    (writer.step (.whitespace blanks)).1.isOk = true := by
  obtain ⟨room, went, _, output, _⟩ := advance_whitespace outside placed
  have notClosed : writer.phase ≠ .closed := by
    rcases outside with phase | phase | phase | ⟨phase, _⟩ <;> simp [phase]
  have allBlank : blanks.toList.all CharacterClass.blank.hasChar = true := List.all_eq_true.mpr blank
  obtain ⟨_, after, wrote, _⟩ := sure_emitText blanks (output ▸ unfailing)
  have puts : putWhitespace blanks writer = .ok () after := by
    simp only [putWhitespace, allBlank, Bool.not_true, Bool.false_eq_true, if_false]
    exact bind_eq_ok.mpr ⟨_, room, went, wrote⟩
  have performed : perform (.whitespace blanks) writer = .ok () after := by
    simp only [perform, guarded, notClosed, if_false, puts]
  rw [step_of_ok (by simp) performed]
  rfl

theorem Outside.live (outside : writer.Outside) : ¬writer.Spent := by
  rcases outside with phase | phase | phase | ⟨phase, _⟩ <;> simp [Spent, phase]

/-- Calls for comments, instructions and white space add nothing outside of the root that may
not stand there, but for references to carriage returns. -/
theorem Accepts.surroundings {calls : List Call} (accepts : writer.Accepts calls)
    (ready : writer.Ready) (outside : writer.Outside)
    (surrounds : ∀ call ∈ calls, call.Surrounds)
    (noDeclaration : writer.phase = .start → ∀ target text, .instruction target text ∈ calls →
      equalIgnoringCase target "xml" = false) :
    (writer.run calls).2.Outside ∧
      ∃ text, writer.output.Extends text (writer.run calls).2.output ∧
        Surroundings (AskReturns calls) text.toList := by
  have stays : ∀ call ∈ calls, call ≠ .close := by
    rintro call member rfl
    exact surrounds _ member
  obtain ⟨own, follows⟩ := run_ok ready accepts stays
  have clean : ∀ event ∈ own, event.Surrounds (AskReturns calls) (writer.phase = .start) :=
    follows.surrounds surrounds noDeclaration
      fun blanks member carriageReturn => ⟨blanks, member, carriageReturn⟩
  obtain ⟨events, text, runs, rfl⟩ := follows.does ready.sound
  have outsideDraft : writer.draft.Outside := outside
  have walked := outsideDraft.path ready.placed runs.path
    (fun event member => by
      cases completes : event.completes with
      | true => exact .inl rfl
      | false => exact .inr (clean event (List.mem_filter.mpr ⟨member, by simp [completes]⟩)))
    id
  exact ⟨walked.2, text, runs.output, walked.1⟩

/-- Outside of the root all white space is accepted, and is written as it is, but for carriage
returns, each of which leaves as a reference. Mixed with comments, instructions and settings it
stays a sequence of what may stand there, as long as there are no carriage returns in it; with
them, references to them stand in between. -/
theorem surroundings_of_run (output : OutputBuffer) (settings : Settings) (earlier : List Call)
    (writer : Writer) (reached : writer = ((create output settings).run earlier).2)
    (noEncoder : output.encoder = none) (outside : writer.Outside) :
    (∀ blanks,
      (output.sink.Unfailing → OptionalSpace blanks.toList →
        (writer.step (.whitespace blanks)).1.isOk = true) ∧
      ((writer.step (.whitespace blanks)).1.isOk = true →
        OptionalSpace blanks.toList ∧ (writer.step (.whitespace blanks)).2.Outside ∧
          ∃ written : String,
            (writer.step (.whitespace blanks)).2.output.delivered =
              writer.output.delivered ++ written.toUTF8 ∧
            written.toList = blanks.toList.flatMap referredBlank ∧
            ('\r' ∉ blanks.toList → written = blanks))) ∧
    ∀ calls, writer.Accepts calls → (∀ call ∈ calls, call.Surrounds) →
      (writer.phase = .start → ∀ target text, .instruction target text ∈ calls →
        equalIgnoringCase target "xml" = false) →
      (writer.run calls).2.Outside ∧
        ∃ text : String,
          (writer.run calls).2.output.delivered = writer.output.delivered ++ text.toUTF8 ∧
          Surroundings (AskReturns calls) text.toList ∧
          (¬AskReturns calls → Miscs text.toList) := by
  obtain ⟨ready, text, extended⟩ :=
    (run_extends (ready_create output settings) earlier).resolve_left (reached ▸ outside.live)
  rw [← reached] at ready extended
  have unencoded : writer.output.encoder = none := extended.encoder_of_none noEncoder
  refine ⟨fun blanks => ⟨fun unfailing blank => ?_, fun ok => ?_⟩,
    fun calls accepts surrounds noDeclaration => ?_⟩
  · exact accepts_whitespace ready.placed outside
      ⟨extended.limit.trans unfailing.limit, extended.canFlush.trans unfailing.canFlush⟩ blank
  · obtain ⟨blank, outsideStill, written, wrote, same⟩ := whitespace_outside ready.placed outside ok
    refine ⟨blank, outsideStill, written, wrote.delivered_of_none unencoded, same, fun none => ?_⟩
    rw [flatMap_referredBlank none] at same
    exact String.toList_inj.mp same
  · obtain ⟨outsideStill, added, wrote, surroundings⟩ :=
      accepts.surroundings ready outside surrounds noDeclaration
    exact ⟨outsideStill, added, wrote.delivered_of_none unencoded, surroundings,
      surroundings.miscs⟩

theorem surroundings_of_run_mixed :
    let writer := ((create { sink := {} }).run [.startDocument none]).2
    let calls : List Call :=
      [.whitespace "\n", .comment "a", .setFormatting .indented, .instruction "b" "",
        .whitespace " \t"]
    writer.Outside ∧ writer.Accepts calls ∧
      ∃ text : String,
        (writer.run calls).2.output.delivered = writer.output.delivered ++ text.toUTF8 ∧
          Miscs text.toList := by
  intro writer calls
  have phase : writer.phase = .prolog := by decide +kernel
  have outside : writer.Outside := .inr (.inl phase)
  have accepts : writer.Accepts calls := by
    unfold Accepts
    decide +kernel
  have comment : ∀ character ∈ "a".toList, IsChar character := by decide
  have nothing : ∀ character ∈ "".toList, IsChar character := by decide
  have surrounds : ∀ call ∈ calls, call.Surrounds := by
    simp only [calls, List.mem_cons, List.not_mem_nil, or_false, forall_eq_or_imp, forall_eq]
    exact ⟨trivial, comment, trivial, nothing, trivial⟩
  have noReturn : ¬AskReturns calls := by
    rintro ⟨blanks, member, carriageReturn⟩
    simp only [calls, List.mem_cons, List.not_mem_nil, or_false, Call.whitespace.injEq,
      reduceCtorEq, false_or] at member
    rcases member with rfl | rfl <;> exact absurd carriageReturn (by decide +kernel)
  have holds := (surroundings_of_run { sink := {} } {} [.startDocument none] writer rfl rfl
    outside).2 calls accepts surrounds fun start => by simp [phase] at start
  obtain ⟨_, text, wrote, _, miscs⟩ := holds
  exact ⟨outside, accepts, text, wrote, miscs noReturn⟩

/-- A carriage return in the prolog leaves as a reference, which is no white space. -/
theorem referred_return :
    let calls : List Call :=
      [.startDocument none, .whitespace "\r", .startElement { localName := "a" }, .close]
    (create { sink := {} }).Accepts calls ∧
      ((create { sink := {} }).run calls).2.output.sink.received =
        "<?xml version=\"1.0\"?>&#xD;<a />".toUTF8 ∧
      OptionalSpace "\r".toList ∧ ¬OptionalSpace "&#xD;".toList := by
  refine ⟨by unfold Accepts; decide +kernel, by decide +kernel, ?_, fun blank => ?_⟩
  · unfold OptionalSpace IsBlank
    decide +kernel
  · exact absurd (blank '&' (by decide +kernel)) (by unfold IsBlank; decide)

end Writer

end XmlStream
