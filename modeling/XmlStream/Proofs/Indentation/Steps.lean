import XmlStream.Proofs.Failure.Terminal
import XmlStream.Proofs.Indentation.Markup

namespace XmlStream.Writer

/-! Calls on two writers, of which the second one indents: they answer the same, and stay abreast. -/

variable {first second after afterToo : Writer}

/-! ## Settings -/

def configured (update : Settings → Settings) (writer : Writer) : Writer :=
  { writer with settings := update writer.settings }

theorem Abreast.configured (abreast : first.Abreast second) (update : Settings → Settings)
    (blind : ∀ settings formatting, update { settings with formatting } =
      { update settings with formatting }) :
    Came first second "" "" (first.configured update) (second.configured update) := by
  refine abreast.came.update (Writer.configured update) (fun writer output formatting => ?_)
    (fun _ => rfl) ?_
  · exact congrArg (fun settings => ({ writer with output, settings } : Writer))
      (blind writer.settings formatting)
  · have kept := congrArg Settings.formatting (blind first.settings first.settings.formatting)
    exact kept

theorem outlines_setNamespaces (enabled : Bool) :
    Outlines (.setNamespaces enabled) (setNamespaces enabled) := by
  intro first second abreast
  have phase : second.phase = first.phase := by rw [abreast.same]
  have drawn : ∃ strokes, Call.Draws first.phase first.phase (.setNamespaces enabled) strokes ∧
      Drawn first second strokes
        (first.configured fun settings => { settings with namespaces := enabled })
        (second.configured fun settings => { settings with namespaces := enabled }) :=
    ⟨[], .setNamespaces enabled, abreast.configured _ fun _ _ => rfl, rfl⟩
  simp only [setNamespaces, Bind.bind, EStateM.bind, get_run]
  by_cases start : first.phase = .start
  · have startToo : second.phase = .start := phase.trans start
    rw [if_neg (not_not.mpr start), if_neg (not_not.mpr startToo)]
    exact .ok _ drawn
  · have startedToo : second.phase ≠ .start := phase ▸ start
    rw [if_pos start, if_pos startedToo]
    exact .error _ (abreast.inStep.breaks _ _)

theorem outlines_setQuoteChar (character : Char) :
    Outlines (.setQuoteChar character) (setQuoteChar character) := by
  intro first second abreast
  have phase : second.phase = first.phase := by rw [abreast.same]
  unfold setQuoteChar
  cases quoteFor character with
  | error error => exact .error _ (abreast.inStep.breaks _ _)
  | ok quote =>
      have drawn : ∃ strokes,
          Call.Draws first.phase first.phase (.setQuoteChar character) strokes ∧
          Drawn first second strokes (first.configured fun settings => { settings with quote })
            (second.configured fun settings => { settings with quote }) :=
        ⟨[], .setQuoteChar character, abreast.configured _ fun _ _ => rfl, rfl⟩
      simp only [Bind.bind, EStateM.bind, get_run]
      by_cases quoted : (first.phase = .attribute || first.phase = .topAttribute) = true
      · have quotedToo : (second.phase = .attribute || second.phase = .topAttribute) = true :=
          phase ▸ quoted
        rw [if_pos quoted, if_pos quotedToo]
        exact .error _ (abreast.inStep.breaks _ _)
      · have openToo : ¬(second.phase = .attribute || second.phase = .topAttribute) = true :=
          phase ▸ quoted
        rw [if_neg quoted, if_neg openToo]
        exact .ok _ drawn

theorem outlines_setIndentation (width : Width) :
    Outlines (.setIndentation width) (perform (.setIndentation width)) := by
  intro first second abreast
  have came := abreast.configured (fun settings => { settings with indentation := width })
    fun _ _ => rfl
  have drawn : ∃ strokes, Call.Draws first.phase first.phase (.setIndentation width) strokes ∧
      Drawn first second strokes
        (first.configured fun settings => { settings with indentation := width })
        (second.configured fun settings => { settings with indentation := width }) :=
    ⟨_, .setIndentation width, by simpa [Stroke.text, Margin.lead, Margin.level?] using came, rfl⟩
  exact .ok _ drawn

theorem outlines_setIndentChar (character : Char) :
    Outlines (.setIndentChar character) (perform (.setIndentChar character)) := by
  intro first second abreast
  have came := abreast.configured (fun settings => { settings with indentChar := character })
    fun _ _ => rfl
  have drawn : ∃ strokes, Call.Draws first.phase first.phase (.setIndentChar character) strokes ∧
      Drawn first second strokes
        (first.configured fun settings => { settings with indentChar := character })
        (second.configured fun settings => { settings with indentChar := character }) :=
    ⟨_, .setIndentChar character, by simpa [Stroke.text, Margin.lead, Margin.level?] using came,
      rfl⟩
  exact .ok _ drawn

theorem outlines_flush : Outlines .flush (onOutput OutputBuffer.flush) := by
  intro first second abreast
  rcases abreast.order .flush with ⟨after, afterToo, does, doesToo, inStep, came⟩
  have drawn : ∃ strokes, Call.Draws first.phase after.phase .flush strokes ∧
      Drawn first second strokes after afterToo := ⟨[], .flush, came, inStep.margin⟩
  change Both _ _ (onOutput Order.flush.action first) (onOutput Order.flush.action second)
  rw [does, doesToo]
  exact .ok _ drawn

/-! ## All calls -/

theorem outlines_perform {call : Call} (notClose : call ≠ .close)
    (notFormatting : ∀ formatting, call ≠ .setFormatting formatting) :
    Outlines call (perform call) := by
  cases call with
  | query question => exact fun first second abreast => .ok _ ⟨[], .query question, abreast.came, rfl⟩
  | setNamespaces enabled => exact outlines_setNamespaces enabled
  | setFormatting formatting => exact absurd rfl (notFormatting formatting)
  | setIndentation width => exact outlines_setIndentation width
  | setIndentChar character => exact outlines_setIndentChar character
  | setQuoteChar character => exact outlines_setQuoteChar character
  | startDocument standalone => exact (outlines_beginDocument standalone).guarded
  | endDocument => exact outlines_finishDocument.guarded
  | doctype name publicId systemId subset =>
      exact (outlines_putDoctype name publicId systemId subset).guarded
  | startElement request => exact (outlines_openElement request).guarded
  | endElement => exact outlines_closeElement.guarded
  | fullEndElement => exact outlines_closeElement_separate.guarded
  | startAttribute request => exact (outlines_openAttribute request).guarded
  | endAttribute => exact outlines_endAttribute.guarded
  | attributeString request value => exact outlines_attributeString request value
  | elementString request value => exact outlines_elementString request value
  | cdata text => exact (outlines_putCData text).guarded
  | comment text => exact (outlines_putComment text).guarded
  | instruction target text => exact (outlines_putInstruction target text).guarded
  | entity name => exact (outlines_putEntity name).guarded
  | character code => exact (outlines_putCharacter code).guarded
  | surrogates low high => exact (outlines_putSurrogates low high).guarded
  | whitespace text => exact (outlines_putWhitespace text).guarded
  | text text => exact (outlines_putText text).guarded
  | raw text => exact (outlines_putRaw text).guarded
  | base64 chunk => exact (outlines_putBase64 chunk).guarded
  | hexadecimal bytes => exact (outlines_putHexadecimal bytes).guarded
  | name name => exact (outlines_putName name).guarded
  | token name => exact (outlines_putToken name).guarded
  | qualifiedName localName uri => exact (outlines_putQualifiedName localName uri).guarded
  | flush => exact outlines_flush.guarded
  | close => exact absurd rfl notClose

/-! ## Closing -/

theorem finish_of_bare {output : OutputBuffer} (bare : output.encoder = none) :
    OutputBuffer.finish output = OutputBuffer.flush output := by
  simp only [OutputBuffer.finish, Bind.bind, EStateM.bind, modify_run, OutputBuffer.terminate, bare]

theorem Came.hangUp {start startToo : Writer} {text more : String}
    (came : Came start startToo text more first second) :
    ∃ after afterToo, Writer.hangUp first = .ok () after ∧ Writer.hangUp second = .ok () afterToo ∧
      Came start startToo text more after afterToo ∧ after.phase = .closed := by
  have closed := came.update (fun writer => { writer with phase := .closed }) (fun _ _ _ => rfl)
    (fun _ => rfl) rfl
  rcases closed.abreast.order .flush with ⟨after, afterToo, does, doesToo, inStep, flushed⟩
  have whole := closed.trans flushed
  rw [OutputBuffer.added, String.append_empty, String.append_empty] at whole
  have finish {writer : Writer} (bare : writer.output.encoder = none) :
      Writer.hangUp writer = onOutput OutputBuffer.flush { writer with phase := .closed } := by
    rw [Writer.hangUp, modify_bind_eq]
    simp only [onOutput, finish_of_bare bare]
  refine ⟨after, afterToo, ?_, ?_, whole, inStep.phase⟩
  · exact (finish came.abreast.bare).trans does
  · exact (finish came.abreast.bareToo).trans doesToo

theorem shut_of_abreast (abreast : first.Abreast second) :
    ∃ after afterToo strokes, shut first = .ok () after ∧ shut second = .ok () afterToo ∧
      Call.Draws first.phase after.phase .close strokes ∧
      Came first second (Stroke.texts strokes) (first.margin.indented strokes) after afterToo ∧
      after.phase = .closed := by
  have phase : second.phase = first.phase := by rw [abreast.same]
  rw [shut_eq, shut_eq, phase]
  by_cases closed : first.phase = .closed
  · rw [if_pos closed, if_pos closed]
    exact ⟨_, _, _, rfl, rfl, .close (.mk "" (.inl rfl) (.none _)),
      by simpa [Stroke.text] using abreast.came, closed⟩
  · rw [if_neg closed, if_neg closed]
    have completes := both_completeAll abreast
    unfold completed
    generalize completeAll first = result at completes ⊢
    generalize completeAll second = result at completes ⊢
    cases completes with
    | ok _ done =>
        rcases done with ⟨strokes, completes, drawn⟩
        rcases drawn.came.hangUp with ⟨after, afterToo, does, doesToo, came, shut⟩
        exact ⟨after, afterToo, strokes, does, doesToo, .close completes, came, shut⟩
    | error error stops =>
        rcases stops with ⟨strokes, text, completes, torn⟩
        have left := torn.came.update (fun writer => { writer with
          log := writer.log.push (.leftIncomplete error) }) (fun _ _ _ => rfl) (fun _ => rfl) rfl
        rcases left.hangUp with ⟨after, afterToo, does, doesToo, came, shut⟩
        exact ⟨after, afterToo, _, does, doesToo, .closeTorn text completes, came, shut⟩

end XmlStream.Writer
