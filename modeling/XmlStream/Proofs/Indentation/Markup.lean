import XmlStream.Proofs.Indentation.Calls

namespace XmlStream.Writer

/-! What two writers draw with markup: the second one begins lines for it. -/

variable {first second after afterToo : Writer}

theorem begin_of_begun {margin : Margin} (begun : margin.begun = true) : margin.begin = margin := by
  rw [Margin.begin, ← begun]

theorem begun_of_phase {writer : Writer} (begun : writer.phase ≠ .start) :
    writer.margin.begun = true := by
  simp [margin, begun]

/-! ## Constructs between others -/

theorem outlines_markup (text : String) {call : Call} {token : Token} {rest : Action Unit}
    (markup : token = .startElement ∨ token = .comment ∨ token = .processingInstruction ∨
      token = .doctype)
    (prints : Prints ("<" ++ text) rest)
    (draws : ∀ before after ends, Phase.Closes before ends →
      call.Draws before after [.closing ends, .markup text]) :
    Outlines call (advance token >>= fun _ => rest) := by
  intro first second abreast
  have went := (both_advance_markup abreast markup).mono (fun _ _ _ holds => holds)
    fun _ _ inStep => inStep.breaks call first.phase
  refine went.bind fun _ middle middleToo holds => ?_
  rcases holds with ⟨ends, closes, reaches⟩
  refine (prints.both reaches.came.abreast).mono ?_ fun _ _ never => never
  rintro _ after afterToo ⟨inStep, came⟩
  refine ⟨_, draws _ _ ends closes, ?_, ?_⟩
  · have whole := reaches.came.trans came
    simpa [Stroke.text, Margin.after, Margin.lead, Margin.level?, String.append_assoc] using whole
  · rw [inStep.margin, reaches.margin]
    rfl

theorem outlines_putComment (text : String) : Outlines (.comment text) (putComment text) := by
  refine .refuse (outlines_markup ("!--" ++ text ++ "-->") (by simp) ?_ fun _ _ ends closes =>
    .comment text ends closes)
  have prints := (Prints.emit "<!--").bind ((prints_emitVerbatim text).bind (.emit "-->"))
  have same : "<!--" ++ (text ++ "-->") = "<" ++ ("!--" ++ text ++ "-->") := by
    simp only [← String.append_assoc]
    rfl
  rwa [same] at prints

theorem outlines_putInstruction (target text : String) :
    Outlines (.instruction target text) (putInstruction target text) := by
  refine .refuse (.get_bind (fun _ _ _ => rfl) fun _ => .refuse ?_)
  refine .check (steady_checkName _ target) (mute_checkName _ target) fun _ => ?_
  refine outlines_markup ("?" ++ target ++ (if text = "" then "" else " " ++ text) ++ "?>")
    (by simp) ?_ fun _ _ ends closes => .instruction target text ends closes
  have front := (Prints.emit "<?").bind (.emit target)
  by_cases empty : text = ""
  · have prints := (Prints.emit "<?").bind ((Prints.emit target).bind (.emit "?>"))
    have same : "<?" ++ (target ++ "?>") = "<" ++ ("?" ++ target ++ "" ++ "?>") := by
      simp only [← String.append_assoc, String.append_empty]
      rfl
    simp only [empty, ne_eq, not_true_eq_false, if_false, if_true]
    rwa [same] at prints
  · have prints := (Prints.emit "<?").bind ((Prints.emit target).bind
      ((Prints.emit " ").bind ((prints_emitVerbatim text).bind (.emit "?>"))))
    have same : "<?" ++ (target ++ (" " ++ (text ++ "?>"))) =
        "<" ++ ("?" ++ target ++ (" " ++ text) ++ "?>") := by
      simp only [← String.append_assoc]
      rfl
    simp only [empty, ne_eq, not_false_eq_true, if_false, if_true]
    rwa [same] at prints

theorem outlines_putDoctype (name : String) (publicId systemId subset : Option String) :
    Outlines (.doctype name publicId systemId subset)
      (putDoctype name publicId systemId subset) := by
  refine .check (steady_checkName _ name) (mute_checkName _ name) fun _ => ?_
  refine .check (steady_externalId publicId systemId) (mute_externalId publicId systemId)
    fun identifiers => ?_
  refine outlines_markup ("!DOCTYPE " ++ name ++ (identifiers ++
    (subset.map fun subset => "[" ++ subset ++ "]").getD "") ++ ">") (by simp) ?_
    fun _ _ ends closes => .doctype name publicId systemId subset ends _ closes
  have same : "<!DOCTYPE " ++ name ++ identifiers ++
      (subset.map fun subset => "[" ++ subset ++ "]").getD "" ++ ">" =
      "<" ++ ("!DOCTYPE " ++ name ++ (identifiers ++
        (subset.map fun subset => "[" ++ subset ++ "]").getD "") ++ ">") := by
    simp only [← String.append_assoc]
    rfl
  rw [← same]
  exact .emit _

/-! ## Start tags -/

/-- A writer that has opened an element, the name of which is not known yet. -/
def opened (writer : Writer) : Writer :=
  { writer with elements := writer.elements.push writer.bindings.size }

theorem margin_opened (writer : Writer) : writer.opened.margin = writer.margin.push := by
  cases around : writer.elements.opened <;>
    simp [opened, margin, Margin.push, ElementStack.push, ElementStack.top, around]

theorem modify_bind_eq {α : Type} (update : Writer → Writer) (next : PUnit → Action α)
    (writer : Writer) : (modify update >>= next) writer = next ⟨⟩ (update writer) := rfl

theorem outlines_openElement (request : NameRequest) :
    Outlines (.startElement request) (openElement request) := by
  refine .check (steady_checkRequest request) (mute_checkRequest request) fun _ => .refuse ?_
  intro first second abreast
  have went := (both_advance_markup abreast (.inl rfl)).mono (fun _ _ _ holds => holds)
    fun _ _ inStep => inStep.breaks (.startElement request) first.phase
  refine went.bind fun _ room roomToo holds => ?_
  rcases holds with ⟨ends, closes, reaches⟩
  have inside := reaches.came.update opened (fun _ _ _ => rfl) (fun _ => rfl) rfl
  have inTag := next?_startElement (next?_of_nextPhase? (by simp) reaches.leads)
  have lost {after afterToo : Writer} (inStep : InStep room.opened roomToo.opened after afterToo)
      (came : Came room.opened roomToo.opened "" "" after afterToo) :
      Torn first second [.closing ends, .lostTag] after afterToo := by
    refine ⟨?_, fun _ => inStep.paid (reaches.paid (by simp))⟩
    have whole := inside.trans came
    simpa [Stroke.text, Margin.after, Margin.lead, Margin.level?] using whole
  rw [modify_bind_eq, modify_bind_eq]
  refine (((steady_elementPrefix request).both_mute (mute_elementPrefix request)
    inside.abreast).mono (fun _ _ _ holds => holds) fun _ _ holds =>
      ⟨_, .lost request ends closes, lost holds.1 holds.2⟩).bind fun given middle middleToo holds => ?_
  rcases holds with ⟨inStep, came⟩
  have prints : Prints ("<" ++ writtenName (nonEmpty? given) request.localName ++ "") (do
      emit ("<" ++ writtenName (nonEmpty? given) request.localName)
      modifyTop fun element =>
        { element with name := request.localName, nsPrefix := nonEmpty? given }) :=
    (Prints.emit _).bind (.change (aside_modifyTop fun _ => rfl))
  refine (prints.both came.abreast).mono ?_ fun _ _ never => never
  rintro _ after afterToo ⟨further, written⟩
  have phase : after.phase = .element := further.phase.trans (inStep.phase.trans inTag)
  refine ⟨_, .startElement request (nonEmpty? given) ends closes phase, ?_, ?_⟩
  · have whole := (inside.trans came).trans written
    simpa [Stroke.text, Margin.after, Margin.lead, Margin.level?, String.append_assoc] using whole
  · rw [further.margin, inStep.margin, margin_opened, reaches.margin]
    rfl

/-! ## Ends of elements -/

theorem margin_popped (writer : Writer) : writer.popped.margin = writer.margin.pop := by
  simp only [popped, margin, Margin.pop, ElementStack.pop, List.map_tail]
  rfl

theorem behind_of_endToken {writer : Writer} {separate : Bool} {next : Phase}
    (leads : writer.nextPhase? (endToken separate) = some next) :
    (next = .content ∨ next = .epilog) ∧ writer.phase ≠ .start := by
  simp only [nextPhase?, Option.bind_eq_bind, Option.bind_eq_some_iff] at leads
  rcases leads with ⟨found, leads, same⟩
  have leads := token_next?_of_next? leads
  have inside : found = .content ∧ writer.phase ≠ .start := by
    generalize writer.phase = phase at leads ⊢
    cases separate <;> cases phase <;> cases leads <;> simp
  refine ⟨?_, inside.2⟩
  split at same
  · cases same
    exact .inr rfl
  · cases same
    exact .inl inside.1

theorem both_closeElement (abreast : first.Abreast second) (separate : Bool) :
    Both (fun _ after afterToo => ∃ strokes, first.phase.EndsElement separate strokes ∧
        (after.phase = .content ∨ after.phase = .epilog) ∧
        Drawn first second strokes after afterToo)
      (InStep first second) (closeElement separate first) (closeElement separate second) := by
  have depth : second.depth = first.depth := by rw [abreast.same]; rfl
  have phase : second.phase = first.phase := by rw [abreast.same]
  simp only [closeElement, Bind.bind, EStateM.bind, get_run, depth, phase]
  by_cases none : (decide (first.depth = 0) && decide (first.phase ≠ .failed)) = true
  · rw [if_pos none]
    exact .error _ abreast.inStep
  · rw [if_neg none]
    refine (both_advance_end abreast separate).bind fun _ room roomToo holds => ?_
    rcases holds with ⟨written, text, shape, last, reaches⟩
    have behind := behind_of_endToken reaches.leads
    have lastToo : roomToo.lastToken = room.lastToken := by rw [reaches.came.abreast.same]
    have plain : room.indents = false := by
      simp [Writer.indents, Settings.indents, reaches.came.abreast.plain]
    have indents : roomToo.indents = true := by
      rw [reaches.came.abreast.same]
      rfl
    rcases shape with ⟨rfl, notContent, joined, front, rfl⟩ | ⟨rfl, apart, closes⟩
    -- The start tag ends the element, or an end tag stands on the level of the start tag.
    · simp only [EStateM.bind, get_run, last, lastToo, Option.some.injEq, reduceCtorEq, if_false]
      have gone := reaches.came.update popped (fun _ _ _ => rfl) (fun _ => rfl) rfl
      have drawn : Drawn first second [.emptyTag front] room.popped roomToo.popped := by
        refine ⟨?_, (margin_popped room).trans (by rw [reaches.margin]; rfl)⟩
        simpa [Stroke.text] using gone
      have ended : ∃ strokes, first.phase.EndsElement separate strokes ∧
          (room.popped.phase = .content ∨ room.popped.phase = .epilog) ∧
          Drawn first second strokes room.popped roomToo.popped :=
        ⟨_, .empty front notContent joined, behind.1, drawn⟩
      exact .ok _ ended
    · have top : roomToo.top = room.top := by rw [reaches.came.abreast.same]; rfl
      rcases reaches.came.abreast.indent true (nextPhase?_ne_start reaches.leads) with
        ⟨lined, does, line⟩
      rcases Prints.emit ("</" ++ writtenName room.top.nsPrefix room.top.name ++ ">") line.abreast
        with ⟨closed, closedToo, wrote, wroteToo, inStep, written⟩
      simp only [EStateM.bind, get_run, last, lastToo, if_true, plain, indents,
        Bool.false_eq_true, if_false, does, top, wrote, wroteToo]
      have gone := ((reaches.came.trans line).trans written).update popped
        (fun _ _ _ => rfl) (fun _ => rfl) rfl
      have same : room.margin = first.margin :=
        reaches.margin.trans (begin_of_begun (begun_of_phase behind.2))
      have phase : closed.phase = room.phase := inStep.phase
      have drawn : Drawn first second
          [.closing text, .endTag (writtenName room.top.nsPrefix room.top.name)]
          closed.popped closedToo.popped := by
        refine ⟨?_, (margin_popped closed).trans (by rw [inStep.margin, reaches.margin]; rfl)⟩
        rw [depth_eq, same] at gone
        simpa [Stroke.text, Margin.lead, Margin.level?, Margin.after, String.append_assoc] using gone
      have ended : ∃ strokes, first.phase.EndsElement separate strokes ∧
          (closed.popped.phase = .content ∨ closed.popped.phase = .epilog) ∧
          Drawn first second strokes closed.popped closedToo.popped :=
        ⟨_, .separate text _ closes apart, phase ▸ behind.1, drawn⟩
      exact .ok _ ended

theorem outlines_closeElement :
    Outlines .endElement (closeElement false) := by
  intro first second abreast
  refine (both_closeElement abreast false).mono ?_ fun _ _ inStep => inStep.breaks _ _
  rintro _ after afterToo ⟨strokes, ends, behind, drawn⟩
  exact ⟨strokes, .endElement ends behind, drawn⟩

theorem outlines_closeElement_separate :
    Outlines .fullEndElement (closeElement true) := by
  intro first second abreast
  refine (both_closeElement abreast true).mono ?_ fun _ _ inStep => inStep.breaks _ _
  rintro _ after afterToo ⟨strokes, ends, behind, drawn⟩
  exact ⟨strokes, .fullEndElement ends behind, drawn⟩

/-! ## Ends of documents -/

theorem notMem_of_endsElement {phase : Phase} {separate : Bool} {strokes : List Stroke}
    (ends : phase.EndsElement separate strokes) : .lostTag ∉ strokes := by
  cases ends <;> simp

theorem notMem_of_endsElements {phase : Phase} {strokes : List Stroke}
    (ends : phase.EndsElements strokes) : .lostTag ∉ strokes := by
  induction ends with
  | none phase => simp
  | one ends behind others induction => simp [notMem_of_endsElement ends, induction]

theorem notMem_of_completes {phase : Phase} {strokes : List Stroke}
    (completes : phase.Completes strokes) : .lostTag ∉ strokes := by
  cases completes with
  | mk text same ends => simp [notMem_of_endsElements ends]

theorem both_closeElements (abreast : first.Abreast second) (count : Nat) :
    Both (fun _ after afterToo => ∃ strokes, first.phase.EndsElements strokes ∧
        Drawn first second strokes after afterToo)
      (fun after afterToo => ∃ strokes text, first.phase.EndsElements strokes ∧
        Torn first second (strokes ++ [.torn text]) after afterToo)
      (closeElements count first) (closeElements count second) := by
  induction count generalizing first second with
  | zero => exact .ok _ ⟨[], .none _, abreast.came, rfl⟩
  | succ count induction =>
      have closes := (both_closeElement abreast false).mono (fun _ _ _ holds => holds)
        fun after afterToo inStep => by
          rcases inStep.torn with ⟨text, torn⟩
          exact (⟨[], text, .none _, torn⟩ : ∃ strokes text, first.phase.EndsElements strokes ∧
            Torn first second (strokes ++ [.torn text]) after afterToo)
      refine closes.bind fun _ middle middleToo holds => ?_
      rcases holds with ⟨strokes, ends, behind, drawn⟩
      refine (induction drawn.came.abreast).mono ?_ ?_
      · rintro _ after afterToo ⟨more, others, further⟩
        exact ⟨_, .one ends behind others, drawn.trans further⟩
      · rintro after afterToo ⟨more, text, others, torn⟩
        have whole := drawn.torn torn (notMem_of_endsElement ends)
        rw [← List.append_assoc] at whole
        exact ⟨_, text, .one ends behind others, whole⟩

theorem InStep.drawn_closing (inStep : InStep first second after afterToo) :
    ∃ text, Drawn first second [.closing text] after afterToo := by
  rcases inStep.came with ⟨text, came⟩
  refine ⟨text, ?_, inStep.margin⟩
  simpa [Stroke.text] using came

/-- What completing draws, up to what cannot be completed. -/
def StopsDrawing (start startToo first second : Writer) : Prop :=
  ∃ strokes text, start.phase.Completes strokes ∧
    Torn start startToo (strokes ++ [.torn text]) first second

theorem both_completeAll (abreast : first.Abreast second) :
    Both (fun _ after afterToo => ∃ strokes, first.phase.Completes strokes ∧
        Drawn first second strokes after afterToo)
      (StopsDrawing first second) (completeAll first) (completeAll second) := by
  have stops {middle middleToo after afterToo : Writer} (inner : Phase) {front : String}
      (place : inner = first.phase ∨ inner = .epilog)
      (drawn : Drawn first second [.closing front] middle middleToo)
      (torn : ∃ strokes text, inner.EndsElements strokes ∧
        Torn middle middleToo (strokes ++ [.torn text]) after afterToo) :
      StopsDrawing first second after afterToo := by
    rcases torn with ⟨strokes, text, ends, torn⟩
    exact ⟨.closing front :: strokes, text, .mk front place ends, drawn.torn torn (by simp)⟩
  have closes {middle middleToo : Writer} {front : String}
      (place : middle.phase = first.phase ∨ middle.phase = .epilog)
      (drawn : Drawn first second [.closing front] middle middleToo) :
      Both (fun _ after afterToo => ∃ strokes, first.phase.Completes strokes ∧
          Drawn first second strokes after afterToo)
        (StopsDrawing first second) (closeElements middle.depth middle)
        (closeElements middleToo.depth middleToo) := by
    have depth : middleToo.depth = middle.depth := by rw [drawn.came.abreast.same]; rfl
    rw [depth]
    refine (both_closeElements drawn.came.abreast _).mono ?_ fun _ _ => stops _ place drawn
    rintro _ after afterToo ⟨strokes, ends, further⟩
    exact ⟨_, .mk front place ends, drawn.trans further⟩
  have torn {after afterToo : Writer} (inStep : InStep first second after afterToo) :
      StopsDrawing first second after afterToo := by
    rcases inStep.torn with ⟨text, torn⟩
    refine ⟨[.closing ""], text, .mk "" (.inl rfl) (.none _), ?_, by simp⟩
    simpa [Stroke.text] using torn.came
  refine ((steady_finishPayload.both abreast).mono (fun _ _ _ holds => holds) fun _ _ => torn).bind
    fun _ middle middleToo inStep => ?_
  rcases inStep.drawn_closing with ⟨front, drawn⟩
  have phase : middleToo.phase = middle.phase := by rw [drawn.came.abreast.same]
  simp only [Bind.bind, EStateM.bind, get_run, phase]
  by_cases onTop : middle.phase = .topAttribute
  · simp only [onTop, if_true]
    have ends := (both_advance_attribute drawn.came.abreast (.inr rfl)).mono
      (fun _ _ _ holds => holds) fun _ _ further => torn (inStep.trans further)
    refine ends.bind fun _ last lastToo holds => ?_
    rcases holds with ⟨text, reaches⟩
    have begun : first.margin.begun = true :=
      begun_of_phase (by rw [← inStep.phase, onTop]; simp)
    have behind : last.phase = .epilog := by
      have leads := token_next?_of_next? (next?_of_nextPhase? (by simp) reaches.leads)
      rw [onTop] at leads
      exact (Option.some.inj leads).symm
    have further : Drawn first second [.closing (front ++ text)] last lastToo := by
      refine ⟨?_, ?_⟩
      · have whole := drawn.came.trans reaches.came
        simpa [Stroke.text] using whole
      · rw [reaches.margin, inStep.margin, begin_of_begun begun]
        rfl
    exact closes (.inr behind) further
  · simp only [onTop, if_false]
    exact closes (.inl inStep.phase) drawn

theorem margin_restarted (writer : Writer) :
    writer.restarted.margin = writer.margin.after .fresh := by
  simp [restarted, margin, Margin.after]

theorem outlines_finishDocument : Outlines .endDocument finishDocument := by
  refine .get_bind (fun _ _ _ => rfl) fun _ => .refuse fun first second abreast => ?_
  have completed := (both_completeAll abreast).mono (fun _ _ _ holds => holds)
    fun after afterToo stops => by
      rcases stops with ⟨strokes, text, completes, torn⟩
      exact (⟨_, .endDocument text completes, torn⟩ : ∃ strokes,
        Call.Breaks first.phase .endDocument strokes ∧ Torn first second strokes after afterToo)
  refine completed.bind fun _ middle middleToo holds => ?_
  rcases holds with ⟨strokes, completes, drawn⟩
  have anew := drawn.came.update restarted (fun _ _ _ => rfl) (fun _ => rfl) rfl
  rcases anew.abreast.order .flush with ⟨after, afterToo, does, doesToo, inStep, came⟩
  have does : onOutput OutputBuffer.flush middle.restarted = .ok () after := does
  have doesToo : onOutput OutputBuffer.flush middleToo.restarted = .ok () afterToo := doesToo
  have fresh : Drawn first second (strokes ++ [.fresh]) after afterToo := by
    refine ⟨?_, ?_⟩
    · have whole := anew.trans came
      simpa [Stroke.text, Margin.indented_append, OutputBuffer.added] using whole
    · rw [inStep.margin, margin_restarted, drawn.margin, Margin.afterAll_append]
      rfl
  have ended : ∃ strokes, Call.Draws first.phase after.phase .endDocument strokes ∧
      Drawn first second strokes after afterToo := ⟨_, .endDocument completes, fresh⟩
  rw [modify_bind_eq, modify_bind_eq]
  change Both _ _ (onOutput OutputBuffer.flush middle.restarted)
    (onOutput OutputBuffer.flush middleToo.restarted)
  rw [does, doesToo]
  exact .ok _ ended

theorem outlines_beginDocument (standalone : Option Bool) :
    Outlines (.startDocument standalone) (beginDocument standalone) := by
  intro first second abreast
  have phase : second.phase = first.phase := by rw [abreast.same]
  have mode : second.mode = first.mode := by rw [abreast.same]
  by_cases start : first.phase = .start
  · have startToo := phase.trans start
    have begun := abreast.came.update (fun writer => { writer with
      mode := .document, phase := .prolog, lastToken := some .processingInstruction })
      (fun _ _ _ => rfl) (fun _ => rfl) rfl
    have same : second.draft.xmlDeclaration second.output.encoding? standalone =
        first.draft.xmlDeclaration first.output.encoding? standalone := by
      simp only [OutputBuffer.encoding?, abreast.bare, abreast.bareToo]
      rw [abreast.same]
      rfl
    rw [beginDocument_of_start start, beginDocument_of_start startToo, same]
    refine ((Prints.emit _).both begun.abreast).mono ?_ fun _ _ never => never
    rintro _ after afterToo ⟨inStep, came⟩
    refine ⟨_, .startDocument standalone
      (first.draft.xmlDeclaration first.output.encoding? standalone), ?_, ?_⟩
    · have whole := begun.trans came
      simpa [Stroke.text] using whole
    · rw [inStep.margin]
      simp [margin, Margin.after, Margin.begin]
  · simp only [beginDocument, Bind.bind, EStateM.bind, get_run, phase, mode, start, ne_eq,
      not_false_eq_true, if_true]
    split
    · have reported := abreast.came.update (fun writer => { writer with
        log := writer.log.push (.declarationRequested first.phase) })
        (fun _ _ _ => rfl) (fun _ => rfl) rfl
      have torn : Torn first second [.torn ""] _ _ := ⟨by simpa [Stroke.text] using reported, by simp⟩
      have breaks : ∃ strokes, Call.Breaks first.phase (.startDocument standalone) strokes ∧
          Torn first second strokes _ _ := ⟨_, .torn _ "", torn⟩
      exact .error _ breaks
    · exact .error _ (abreast.inStep.breaks _ _)

/-! ## Calls of several parts -/

theorem Drawn.inline_append {middle middleToo : Writer} {text more : String}
    (drawn : Drawn first second [.inline text] middle middleToo)
    (further : Drawn middle middleToo [.inline more] after afterToo) :
    Drawn first second [.inline (text ++ more)] after afterToo := by
  have whole := drawn.trans further
  refine ⟨?_, whole.margin⟩
  simpa [Stroke.text] using whole.came

theorem Drawn.inline_torn {middle middleToo : Writer} {text more : String}
    (drawn : Drawn first second [.inline text] middle middleToo)
    (torn : Torn middle middleToo [.torn more] after afterToo) :
    Torn first second [.torn (text ++ more)] after afterToo := by
  have whole := drawn.torn torn (by simp)
  refine ⟨?_, by simp⟩
  simpa [Stroke.text] using whole.came

theorem outlines_attributeString (request : NameRequest) (value : String) :
    Outlines (.attributeString request value) (perform (.attributeString request value)) := by
  intro first second abreast
  have begins := ((outlines_openAttribute request).guarded abreast).mono
    (fun _ _ _ holds => holds) fun after afterToo holds => by
      rcases holds with ⟨strokes, breaks, torn⟩
      cases breaks with
      | torn _ text => exact (⟨_, .torn _ text, torn⟩ : ∃ strokes,
          Call.Breaks first.phase (.attributeString request value) strokes ∧
            Torn first second strokes after afterToo)
  refine begins.bind fun _ opened openedToo holds => ?_
  rcases holds with ⟨_, draws, drawn⟩
  cases draws with
  | content _ _ fills => cases fills
  | outside _ _ fills => cases fills
  | startAttribute _ text inValue =>
    have fills := ((outlines_putText value).guarded drawn.came.abreast).mono
      (fun _ _ _ holds => holds) fun after afterToo holds => by
        rcases holds with ⟨strokes, breaks, torn⟩
        cases breaks with
        | torn _ more => exact (⟨_, .torn _ _, drawn.inline_torn torn⟩ : ∃ strokes,
            Call.Breaks first.phase (.attributeString request value) strokes ∧
              Torn first second strokes after afterToo)
    refine fills.bind fun _ filled filledToo holds => ?_
    rcases holds with ⟨_, draws, further⟩
    have valued : ∃ text, Drawn first second [.inline text] filled filledToo := by
      cases draws with
      | noText => exact ⟨text, drawn.trans further⟩
      | content _ _ _ notValue => exact (inValue.elim notValue.1 notValue.2).elim
      | outside _ more => exact ⟨_, drawn.inline_append further⟩
    rcases valued with ⟨whole, drawn⟩
    refine (outlines_endAttribute.guarded drawn.came.abreast).mono ?_ ?_
    · rintro _ after afterToo ⟨_, draws, last⟩
      cases draws with
      | content _ _ fills => cases fills
      | outside _ _ fills => cases fills
      | endAttribute more =>
          exact ⟨_, .attributeString request value _, drawn.inline_append last⟩
    · rintro after afterToo ⟨_, breaks, torn⟩
      cases breaks with
      | torn _ more => exact ⟨_, .torn _ _, drawn.inline_torn torn⟩

theorem outlines_elementString (request : NameRequest) (value : Option String) :
    Outlines (.elementString request value) (perform (.elementString request value)) := by
  intro first second abreast
  have begins := ((outlines_openElement request).guarded abreast).mono
    (fun _ _ _ holds => holds) fun after afterToo holds => by
      rcases holds with ⟨strokes, breaks, torn⟩
      cases breaks with
      | torn _ text => exact (⟨_, .torn _ text, torn⟩ : ∃ strokes,
          Call.Breaks first.phase (.elementString request value) strokes ∧
            Torn first second strokes after afterToo)
      | lost _ ends closes => exact ⟨_, .lostString request value ends closes, torn⟩
  refine begins.bind fun _ opened openedToo holds => ?_
  rcases holds with ⟨_, draws, drawn⟩
  cases draws with
  | content _ _ fills => cases fills
  | outside _ _ fills => cases fills
  | startElement _ nsPrefix ends closes inTag =>
    have closesElement {middle middleToo : Writer} {content : List Stroke}
        (front : Drawn first second
          ([.closing ends, .startTag (writtenName nsPrefix request.localName)] ++ content)
          middle middleToo)
        (holds : value.getD "" = "" ∧ middle.phase = .element ∧ content = [] ∨
          middle.phase = .content ∧ ∃ text, content = [.data text]) :
        Both (fun _ after afterToo => ∃ strokes,
            Call.Draws first.phase after.phase (.elementString request value) strokes ∧
            Drawn first second strokes after afterToo)
          (fun after afterToo => ∃ strokes,
            Call.Breaks first.phase (.elementString request value) strokes ∧
            Torn first second strokes after afterToo)
          (guarded (closeElement false) middle) (guarded (closeElement false) middleToo) := by
      have whole : .lostTag ∉
          [.closing ends, .startTag (writtenName nsPrefix request.localName)] ++ content := by
        rcases holds with ⟨_, _, rfl⟩ | ⟨_, _, rfl⟩ <;> simp
      have plain : content = [] ∨ ∃ text, content = [.data text] :=
        holds.imp (·.2.2) (·.2)
      refine (outlines_closeElement.guarded front.came.abreast).mono ?_ ?_
      · rintro _ after afterToo ⟨_, draws, last⟩
        cases draws with
        | content _ _ fills => cases fills
        | outside _ _ fills => cases fills
        | endElement completes =>
            exact ⟨_, .elementString request value nsPrefix ends closes holds completes,
              front.trans last⟩
      · rintro after afterToo ⟨_, breaks, torn⟩
        cases breaks with
        | torn _ text =>
            exact ⟨_, .elementString request value nsPrefix ends text closes plain,
              front.torn torn whole⟩
    cases value with
    | none => exact closesElement drawn (.inl ⟨rfl, inTag, rfl⟩)
    | some value =>
      have fills := ((outlines_putText value).guarded drawn.came.abreast).mono
        (fun _ _ _ holds => holds) fun after afterToo holds => by
          rcases holds with ⟨strokes, breaks, torn⟩
          cases breaks with
          | torn _ text =>
              exact (⟨_, .elementString request value nsPrefix ends text closes (.inl rfl),
                drawn.torn torn (by simp)⟩ : ∃ strokes,
                  Call.Breaks first.phase (.elementString request (some value)) strokes ∧
                    Torn first second strokes after afterToo)
      refine fills.bind fun _ filled filledToo holds => ?_
      rcases holds with ⟨_, draws, further⟩
      cases draws with
      | noText stays =>
          exact closesElement (drawn.trans further) (.inl ⟨rfl, stays.trans inTag, rfl⟩)
      | content _ text _ _ inContent =>
          exact closesElement (drawn.trans further) (.inr ⟨inContent, text, rfl⟩)
      | outside _ _ _ notInside => exact absurd inTag notInside.1

end XmlStream.Writer
