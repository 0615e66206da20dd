import XmlStream.Proofs.Grammar.Declarations
import XmlStream.Proofs.Grammar.Shape

namespace XmlStream

/-! Every step of a document or a fragment adds something that may stand there. -/

/-- An event with clean names and texts that goes on with what has begun: it does not end
it, and does not make a document of a fragment. -/
structure Event.Continues (mode : Mode) (event : Event) : Prop where
  clean : event.Clean
  goesOn : event ≠ .finish
  sameMode : mode = .fragment →
    ∀ encoding standalone, event ≠ .xmlDeclaration encoding standalone

theorem Event.continues_of_completes {mode : Mode} {event : Event}
    (completes : event.completes) : event.Continues mode where
  clean := event.clean_of_completes completes
  goesOn isFinish := by simp [isFinish, Event.completes] at completes
  sameMode _ _ _ declares := by simp [declares, Event.completes] at completes

namespace Draft

open Grammar

def tagName (element : OpenElement) : List Char :=
  (writtenName element.nsPrefix element.name).toList

def names (draft : Draft) : List (List Char) := draft.elements.opened.map tagName

/-- The text so far has the shape that goes with its draft. -/
def Shaped {mode : Mode} (draft : Draft) (outline : Outline mode) (text : List Char) : Prop :=
  Shape outline draft.settings.quote draft.phase draft.names text

variable {mode : Mode} {outline : Outline mode} {draft after : Draft} {next : Phase}
  {text : List Char}

/-! ## Names of open elements -/

theorem Frames.names (frames : draft.Frames after) : after.names = draft.names :=
  frames.map_opened _ fun same => by rw [tagName, tagName, same.name, same.nsPrefix]

theorem names_modifyTop {change : OpenElement → OpenElement}
    (same : tagName (change draft.top) = tagName draft.top) :
    (draft.modifyTop change).names = draft.names := by
  simp only [Draft.top, ElementStack.top] at same
  cases found : draft.elements.opened <;>
    simp_all [Draft.names, Draft.modifyTop, ElementStack.modifyTop]

theorem names_enterText (draft : Draft) (next : Phase) :
    (draft.enterText next).names = draft.names := by
  unfold enterText
  split
  · exact names_modifyTop rfl
  · rfl

theorem names_eq_cons (inside : 0 < draft.depth) :
    draft.names = tagName draft.top :: draft.pop.names := by
  simp only [names, Draft.top, ElementStack.top, Draft.pop, ElementStack.pop]
  cases found : draft.elements.opened with
  | nil => simp [depth, ElementStack.depth, found] at inside
  | cons innermost rest => rfl

theorem names_startElement {request : NameRequest} {nsPrefix : Option String} {found : Draft}
    (names : (draft.push.enter .element).NamesElement request nsPrefix found) :
    (found.modifyTop fun element => { element with name := request.localName, nsPrefix }).names =
      (writtenName nsPrefix request.localName).toList :: draft.names := by
  have frames := names.frames (draft.depth_push_pos .element)
  have inside : 0 < found.depth := by
    rw [frames.depth]
    exact draft.depth_push_pos .element
  rw [names_eq_cons (by simpa using inside)]
  apply congr (congrArg _ _)
  · rw [Draft.names, Draft.pop, Draft.modifyTop]
    simp only [ElementStack.pop, ElementStack.tail_opened_modifyTop, frames.tail]
    rfl
  · simp [tagName]

theorem names_settle_pop (draft : Draft) : draft.settle.pop.names = draft.pop.names := by
  have tail := draft.frames_settle.tail
  simp only [Draft.pop, ElementStack.pop, Draft.names, tail]

/-! ## Phases -/

/-- Text stays where it stands: in a value, or outside of values. -/
theorem next?_textual {token : Token} {phase : Phase}
    (textual : token = .text ∨ token = .base64 ∨ token = .whitespace)
    (leads : mode.next? token phase = some next) (notElement : phase ≠ .element) :
    (phase = .attribute ∨ phase = .topAttribute) ∧ next = phase ∨
      (phase ≠ .attribute ∧ phase ≠ .topAttribute) ∧
        next ≠ .attribute ∧ next ≠ .topAttribute := by
  have all : (mode.next? token phase).all (fun next => phase = .element ∨
      ((phase = .attribute ∨ phase = .topAttribute) ∧ next = phase ∨
        (phase ≠ .attribute ∧ phase ≠ .topAttribute) ∧
          next ≠ .attribute ∧ next ≠ .topAttribute)) = true := by
    rcases textual with rfl | rfl | rfl <;> cases mode <;> cases phase <;> rfl
  rw [leads] at all
  exact (of_decide_eq_true all).resolve_left notElement

theorem position_inside {phase : Phase} (stands : phase = .attribute ∨ phase = .topAttribute) :
    draft.position phase = .attribute draft.settings.quote := by
  rcases stands with rfl | rfl <;> rfl

theorem position_outside {phase : Phase} (notAttribute : phase ≠ .attribute)
    (notTop : phase ≠ .topAttribute) : draft.position phase = .content := by
  cases phase <;> first | rfl | contradiction

theorem next?_payload {phase : Phase} (pending : TakesPayload mode phase) :
    mode.next? .base64 phase = some phase ∧ phase ≠ .element := by
  rcases pending with rfl | rfl | ⟨rfl, rfl | rfl⟩
  · cases mode <;> simp <;> rfl
  · cases mode <;> simp <;> rfl
  · simp
    rfl
  · simp
    rfl

theorem phaseAfterElement_names (inside : 0 < draft.depth) :
    (draft.pop.names = [] → draft.phaseAfterElement = draft.mode.afterRoot) ∧
      (draft.pop.names ≠ [] → draft.phaseAfterElement = .content) := by
  have length : draft.pop.names.length = draft.depth - 1 := by
    rw [names, List.length_map]
    exact draft.depth_pop
  rw [Ne, ← List.length_eq_zero_iff, length]
  unfold phaseAfterElement
  refine ⟨fun last => ?_, fun more => if_neg fun last => ?_⟩
  · have single : draft.depth = 1 := by omega
    cases draft.mode <;> simp [single, Mode.afterRoot]
  · omega

/-! ## The owed declarations -/

theorem name_xmlns : Grammar.Name "xmlns".toList := .mk 'x' _ (by decide) (by decide)

theorem attributes_declarationText (quote : Quote) {binding : Binding}
    (attributes : Attributes text) (writable : Writable .wellFormed binding)
    (owed : binding.declared = false) :
    Attributes (text ++ (declarationText quote binding).toList) := by
  have named : Grammar.Name (writtenName (some "xmlns") binding.nsPrefix).toList :=
    name_writtenName (by simpa using by decide +kernel) writable.nsPrefix
  have nothing : Value quote.char [] := .nil
  have longer := attributes.add named (nothing.escaped (writable.uri owed))
  simpa [declarationText, writtenName, toList_text,
    Name.toList_escaped_of_isNCName _ writable.nsPrefix] using longer

theorem attributes_defaultText (quote : Quote) {uri : String} (attributes : Attributes text)
    (legal : Legal uri) : Attributes (text ++ (defaultText quote uri).toList) := by
  have nothing : Value quote.char [] := .nil
  have longer := attributes.add name_xmlns (nothing.escaped legal)
  simpa [defaultText, toList_text] using longer

theorem attributes_declarationTexts (quote : Quote) (entries : List (Binding × Nat))
    (writable : ∀ entry ∈ entries, Writable .wellFormed entry.1 ∧ entry.1.declared = false)
    (attributes : Attributes text) :
    Attributes (text ++ ((entries.map fun entry =>
      declarationText quote entry.1).foldr (· ++ ·) "").toList) := by
  induction entries generalizing text with
  | nil => simpa using attributes
  | cons entry rest induction =>
      obtain ⟨first, owed⟩ := writable entry List.mem_cons_self
      have longer := attributes_declarationText quote attributes first owed
      have later := induction (fun other member => writable other (List.mem_cons_of_mem _ member))
        longer
      simpa using later

theorem mem_of_mem_owed {scope : Scope} {mark : Nat} {entry : Binding × Nat}
    (member : entry ∈ scope.owed mark) : entry.1 ∈ scope ∧ entry.1.declared = false := by
  rw [Scope.owed, List.mem_filter, List.mem_reverse] at member
  obtain ⟨member, wanted⟩ := member
  have member := List.mem_zipIdx_iff_getElem?.mp (List.mem_of_mem_drop member)
  simp only [Bool.and_eq_true, Bool.not_eq_true'] at wanted
  exact ⟨List.mem_of_getElem? member, wanted.1⟩

theorem attributes_owedText (fit : draft.Fit .wellFormed) (attributes : Attributes text) :
    Attributes (text ++ draft.owedText.toList) := by
  have declared := attributes_declarationTexts draft.settings.quote
    (draft.scope.owed draft.top.bindingMark) (fun entry member =>
      ⟨fit.scope entry.1 (mem_of_mem_owed member).1, (mem_of_mem_owed member).2⟩) attributes
  rw [owedText]
  split
  · rename_i owes
    simp only [owesDefault, Bool.and_eq_true, decide_eq_true_eq] at owes
    have both := attributes_defaultText draft.settings.quote declared
      (fit.owed owes.1.1 owes.2)
    simpa using both
  · simpa using declared

/-! ## Pieces -/

section Pieces

variable {piece : Piece} {form : Name.Form} {namespaces : Bool} (clean : piece.Clean)
  (blank : ∀ text, piece = .whitespace text →
    text.toList.all CharacterClass.blank.hasChar = true)
  (named : ∀ name, piece = .entity name → Name.isUsable form namespaces name = true)
  (legal : ∀ character, piece = .character character →
    CharacterClass.xml.hasChar character = true)

include clean blank named legal

theorem body_written (body : Body text) : Body (text ++ (piece.written .content).toList) := by
  cases piece with
  | text => exact body.escaped clean
  | entity => exact body.item (.reference (reference_entity (name_of_isUsable (named _ rfl))))
  | character => exact body.item (.reference (reference_hexReference (legal _ rfl)))
  | hexadecimal bytes =>
      simp only [Piece.written, String.toList_ofList]
      exact body.plain plain_of_mem_hexadecimal
  | whitespace =>
      refine body.escaped fun character member => isChar_of_isBlank ?_
      exact List.all_eq_true.mp (blank _ rfl) character member
  | raw => exact clean.elim

theorem value_written {quote : Quote} (value : Value quote.char text) :
    Value quote.char (text ++ (piece.written (.attribute quote)).toList) := by
  cases piece with
  | text => exact value.escaped clean
  | entity => exact value.reference (reference_entity (name_of_isUsable (named _ rfl)))
  | character => exact value.reference (reference_hexReference (legal _ rfl))
  | hexadecimal bytes =>
      simp only [Piece.written, String.toList_ofList]
      exact value.plain plain_of_mem_hexadecimal
  | whitespace =>
      refine value.escaped fun character member => isChar_of_isBlank ?_
      exact List.all_eq_true.mp (blank _ rfl) character member
  | raw => exact clean.elim

end Pieces

/-! ## Steps -/

theorem Shaped.of_shape {quote : Quote} {phase : Phase} {names : List (List Char)}
    (shape : Shape outline quote phase names text) (sameQuote : after.settings.quote = quote)
    (samePhase : after.phase = phase) (sameNames : after.names = names) :
    after.Shaped outline text := by
  subst sameQuote samePhase sameNames
  exact shape

theorem Shaped.shape {phase : Phase} (shaped : draft.Shaped outline text)
    (stands : draft.phase = phase) :
    Shape outline draft.settings.quote phase draft.names text := by
  subst stands
  exact shaped

theorem Shaped.grow {token : Token} {more : List Char} (shaped : draft.Shaped outline text)
    (notElement : draft.phase ≠ .element) (textual : token = .text ∨ token = .base64)
    (leads : mode.next? token draft.phase = some next)
    (content : draft.position next = .content → ∀ {content}, Body content → Body (content ++ more))
    (value : draft.position next = .attribute draft.settings.quote →
      ∀ {value}, Value draft.settings.quote.char value →
        Value draft.settings.quote.char (value ++ more)) :
    Shape outline draft.settings.quote next draft.names (text ++ more) := by
  rcases next?_textual (by tauto) leads notElement with ⟨inValue, rfl⟩ |
    ⟨⟨notAttribute, notTop⟩, notAttributeToo, notTopToo⟩
  · exact Shape.growValue shaped inValue (value (position_inside inValue))
  · exact Shape.body shaped notElement notAttribute notTop (by tauto) leads
      (content (position_outside notAttributeToo notTopToo))

theorem Shaped.plain {token : Token} {more : List Char} (shaped : draft.Shaped outline text)
    (notElement : draft.phase ≠ .element) (textual : token = .text ∨ token = .base64)
    (leads : mode.next? token draft.phase = some next)
    (plain : ∀ character ∈ more, Plain character) :
    Shape outline draft.settings.quote next draft.names (text ++ more) :=
  shaped.grow notElement textual leads (fun _ _ body => body.plain plain)
    fun _ _ value => value.plain plain

theorem Shaped.whitespace {content : String} (shaped : draft.Shaped outline text)
    (notElement : draft.phase ≠ .element)
    (leads : mode.next? .whitespace draft.phase = some next)
    (blank : ∀ character ∈ content.toList, IsBlank character)
    (noReturn : '\r' ∉ content.toList) :
    Shape outline draft.settings.quote next draft.names
      (text ++ (Piece.written (draft.position next) (.whitespace content)).toList) := by
  rcases next?_textual (.inr (.inr rfl)) leads notElement with ⟨inValue, rfl⟩ |
    ⟨⟨notAttribute, notTop⟩, notAttributeToo, notTopToo⟩
  · rw [position_inside inValue]
    exact Shape.growValue shaped inValue fun value =>
      value.escaped fun character member => isChar_of_isBlank (blank character member)
  · have same : (Piece.written (draft.position next) (.whitespace content)).toList =
        content.toList := by
      rw [position_outside notAttributeToo notTopToo]
      exact toList_escaped_of_blank blank noReturn
    rw [same]
    exact Shape.miscs shaped notElement notAttribute notTop (.inr (.inr rfl)) leads
      (miscs_of_blank blank)

theorem isBlank_of_mem_lineText {beforeEnd : Bool} (indent : IsBlank draft.settings.indentChar) :
    ∀ character ∈ (draft.lineText beforeEnd).toList, IsBlank character := by
  have lineEnd : IsBlank '\n' := by
    rw [IsBlank]
    decide
  unfold lineText
  dsimp only
  generalize (if beforeEnd = true then draft.depth - 1 else draft.depth) = level
  split
  · simpa using lineEnd
  · intro character member
    simp only [String.toList_ofList, List.mem_cons, List.mem_replicate] at member
    obtain rfl | ⟨_, rfl⟩ := member
    · exact lineEnd
    · exact indent

/-- An instruction stands between markup, or is the declaration at the start of a fragment. -/
theorem Shaped.instruction {target content : String} (shaped : draft.Shaped outline text)
    (sameMode : draft.mode = mode) (clean : (Event.instruction target content).Clean)
    (between : draft.Between) (noEnd : occursIn "?>".toList content.toList = false)
    (notXml : equalIgnoringCase target "xml" → draft.mode = .fragment ∧ draft.phase = .start)
    (usable : Name.isUsable .qualified draft.settings.namespaces target)
    (leads : draft.mode.next? .processingInstruction draft.phase = some next) :
    Shape outline draft.settings.quote next draft.names (text ++
      ("<?" ++ target ++ (if content = "" then "" else " " ++ content) ++ "?>").toList) := by
  subst sameMode
  have named := name_of_isUsable usable
  cases xml : equalIgnoringCase target "xml" with
  | false =>
      have instruction := instruction_of_noEnd named xml clean noEnd
      exact Shape.miscs shaped between.1 between.2.1 between.2.2 (.inr (.inl rfl)) leads
        (miscs_single (.instruction instruction))
  | true =>
      rcases notXml xml with ⟨fragment, start⟩
      have prolog : next = .prolog := by
        rw [fragment, start] at leads
        exact (Option.some.inj leads).symm
      subst prolog
      exact (shaped.shape start).xmlInstruction (xmlInstruction_of_noEnd named xml clean noEnd)

theorem Shaped.startAttribute {name : String} (shaped : draft.Shaped outline text)
    (sameMode : draft.mode = mode) (notInside : draft.phase ≠ .attribute)
    (named : Grammar.Name name.toList)
    (leads : draft.mode.next? .startAttribute draft.phase = some next) :
    Shape outline draft.settings.quote next draft.names (text ++
      ((if draft.phase = .element then " " else "") ++ name ++ "=" ++
        draft.settings.quote.text).toList) := by
  subst sameMode
  rcases next?_startAttribute notInside leads with ⟨inTag, rfl⟩ | ⟨fragment, start, rfl⟩
  · simpa [inTag, toList_text] using (shaped.shape inTag).openValue named
  · simpa [start, toList_text] using Shape.openTop shaped named fragment leads

theorem Shaped.write {piece : Piece} {form : Name.Form} {namespaces : Bool}
    (shaped : draft.Shaped outline text) (clean : piece.Clean) (closed : draft.phase ≠ .element)
    (leads : mode.next? piece.token draft.phase = some next)
    (blank : ∀ text, piece = .whitespace text →
      text.toList.all CharacterClass.blank.hasChar = true)
    (named : ∀ name, piece = .entity name → Name.isUsable form namespaces name = true)
    (legal : ∀ character, piece = .character character →
      CharacterClass.xml.hasChar character = true) :
    Shape outline draft.settings.quote next draft.names
      (text ++ (piece.written (draft.position next)).toList) := by
  by_cases spaced : ∃ content, piece = .whitespace content
  · rcases spaced with ⟨content, rfl⟩
    exact shaped.whitespace closed leads (List.all_eq_true.mp (blank content rfl)) clean
  · have textual : piece.token = .text := by
      cases piece with
      | whitespace content => exact absurd ⟨content, rfl⟩ spaced
      | raw => exact clean.elim
      | _ => rfl
    apply shaped.grow closed (.inl textual) leads
    · intro stands _ body
      rw [stands]
      exact body_written clean blank named legal body
    · intro stands _ value
      rw [stands]
      exact value_written clean blank named legal value

theorem Shaped.qualify {nsPrefix : String} (shaped : draft.Shaped outline text)
    (named : Name.isNCName nsPrefix) (closed : draft.phase ≠ .element)
    (leads : mode.next? .text draft.phase = some next) :
    Shape outline draft.settings.quote next draft.names (text ++
      (TextPosition.escaped (draft.position next) nsPrefix ++
        TextPosition.escaped (draft.position next) ":").toList) := by
  have legal : Legal nsPrefix := fun character member =>
    CharacterClass.xml_of_ncNamePart (Name.ncNamePart_of_isNCName named character member)
  have colon : Legal ":" := legal_of_all (by decide)
  rw [String.toList_append]
  apply shaped.grow closed (.inl rfl) leads
  · intro stands _ body
    rw [stands, ← List.append_assoc]
    exact (body.escaped legal).escaped colon
  · intro stands _ value
    rw [stands, ← List.append_assoc]
    exact (value.escaped legal).escaped colon

theorem Shaped.step {event : Event} {more : String} (shaped : draft.Shaped outline text)
    (sameMode : draft.mode = mode) (placed : draft.Placed) (wholesome : draft.Wholesome .wellFormed)
    (continues : event.Continues mode) (step : draft.Step event more after) :
    after.Shaped outline (text ++ more.toList) := by
  subst sameMode
  have clean := continues.clean
  cases step with
  -- A fragment does not become a document on the way, and a document has its declaration.
  | xmlDeclaration encoding standalone start =>
      have document : draft.mode = .document := by
        cases mode : draft.mode with
        | fragment => exact absurd rfl (continues.sameMode mode encoding standalone)
        | document => rfl
      exact absurd start (placed.document document).1
  | doctype name publicId systemId subset ids next usable identified leads =>
      exact .of_shape (Shape.doctype shaped leads (doctype_grammar clean usable identified))
        rfl rfl rfl
  | line beforeEnd between indents notStart =>
      exact Shape.space shaped between.1 between.2.1 between.2.2 notStart
        (isBlank_of_mem_lineText wholesome.indent)
  | comment content next between noDashes noDash leads =>
      have comment := comment_of_noHyphens clean noDashes noDash
      exact .of_shape (Shape.miscs shaped between.1 between.2.1 between.2.2 (.inl rfl) leads
        (miscs_single (.comment comment))) rfl rfl rfl
  | instruction target content next between noEnd notXml usable leads =>
      exact .of_shape (shaped.instruction rfl clean between noEnd notXml usable leads) rfl rfl rfl
  | cdata content next between noEnd leads =>
      have cdata := section_of_noEnd clean noEnd
      exact .of_shape (Shape.body shaped between.1 between.2.1 between.2.2 (.inl rfl) leads
        fun body => body.item (.cdata cdata)) rfl rfl (names_modifyTop rfl)
  | startElement request nsPrefix found between named notXmlns disabled leads noPayload names =>
      have frames := names.frames (draft.depth_push_pos .element)
      rcases names.fit (wholesome.fit.push.congr rfl rfl) clean.meets with ⟨_, prefixed⟩
      have tag : Grammar.Name (writtenName nsPrefix request.localName).toList :=
        name_writtenName prefixed clean.localName
      have opened := Shape.openTag shaped between.1 between.2.1 between.2.2 leads tag
      rw [String.toList_append]
      apply Shaped.of_shape opened
      · exact congrArg Settings.quote frames.settings
      · exact frames.phase
      · exact names_startElement names
  | startAttribute request nsPrefix kind next found notInside named disabled leads names =>
      have frames := names.frames.trans (found.frames_noteAttribute nsPrefix)
      rcases names.fit (wholesome.fit.congr rfl rfl) clean.meets with ⟨_, prefixed, _⟩
      have written : Grammar.Name (writtenName nsPrefix request.localName).toList :=
        name_writtenName prefixed clean.localName
      apply Shaped.of_shape (shaped.startAttribute rfl notInside written leads)
      · exact congrArg Settings.quote frames.settings
      · exact frames.phase
      · exact frames.names
  | endAttribute next found leads noPayload applies =>
      have kept : found.settings = draft.settings ∧ found.names = draft.names := by
        split at applies
        · exact ⟨applies.frames.settings, applies.frames.names⟩
        · subst applies
          exact ⟨rfl, rfl⟩
      have quote := congrArg Settings.quote kept.1
      rw [toList_text]
      rcases next?_endAttribute leads with ⟨inValue, rfl⟩ | ⟨_, onTop, rfl⟩
      · exact .of_shape (shaped.shape inValue).closeValue quote rfl kept.2
      · exact .of_shape (shaped.shape onTop).closeTop quote rfl kept.2
  | endStartTag inTag =>
      have closed := (shaped.shape inTag).closeTag (attributes_owedText wholesome.fit)
      rw [String.toList_append]
      exact .of_shape closed rfl rfl draft.frames_settle.names
  | endEmptyTag inTag inside =>
      have phases := phaseAfterElement_names inside
      have opened := shaped.shape inTag
      rw [names_eq_cons inside] at opened
      have closed := opened.closeEmpty (attributes_owedText wholesome.fit) phases.1 phases.2
      rw [String.toList_append]
      exact .of_shape closed rfl rfl draft.names_settle_pop
  | endTag inContent inside =>
      have phases := phaseAfterElement_names inside
      have opened := shaped.shape inContent
      rw [names_eq_cons inside] at opened
      have closed := opened.endTag phases.1 phases.2
      rw [String.toList_append, String.toList_append]
      exact .of_shape closed rfl rfl rfl
  | write piece next closed leads blank named legal =>
      apply Shaped.of_shape (shaped.write clean closed leads blank named legal)
      · simp [capture]
      · simp [capture]
      · exact names_enterText draft next
  | qualify uri nsPrefix next found closed enabled nonEmpty notDefault leads finds =>
      have frames := finds.frames_noted next
      rcases finds.fit (wholesome.fit.enterText next) clean.meets with ⟨_, named⟩
      apply Shaped.of_shape (shaped.qualify named closed leads)
      · exact congrArg Settings.quote (frames.settings.trans (by simp))
      · exact frames.phase.trans (by simp)
      · exact frames.names.trans (names_enterText draft next)
  | feed chunk next closed leads =>
      have plain : ∀ character ∈ (draft.carry.feed chunk).1, Plain character :=
        plain_of_mem_feed
      have result := shaped.plain closed (.inr rfl) leads plain
      rw [String.toList_ofList]
      apply Shaped.of_shape result
      · simp [capture]
      · simp [capture]
      · exact names_enterText draft next
  | endPayload pending =>
      rcases next?_payload (placed.takesPayload pending) with ⟨stays, notElement⟩
      rw [String.toList_ofList]
      exact .of_shape (shaped.plain notElement (.inr rfl) stays plain_of_mem_lastGroup)
        rfl rfl rfl
  | configure setting atStart unquoted =>
      have same : (text ++ "".toList) = text := by simp
      rw [same]
      cases setting with
      | quote chosen =>
          exact .of_shape (Shape.requote shaped (unquoted chosen rfl).1 (unquoted chosen rfl).2)
            rfl rfl rfl
      | _ => exact .of_shape shaped rfl rfl rfl
  | finish => exact absurd rfl continues.goesOn

/-! ## Paths -/

theorem mode_of_step {event : Event} {more : String} (step : draft.Step event more after)
    (continues : event.Continues draft.mode) : after.mode = draft.mode := by
  cases step with
  | xmlDeclaration encoding standalone =>
      cases mode : draft.mode with
      | fragment => exact absurd rfl (continues.sameMode mode encoding standalone)
      | document => rfl
  | startElement _ _ _ _ _ _ _ _ _ names =>
      exact (names.frames (draft.depth_push_pos .element)).mode
  | startAttribute _ nsPrefix _ _ found _ _ _ _ names =>
      exact (names.frames.trans (found.frames_noteAttribute nsPrefix)).mode
  | endAttribute _ _ _ _ applies =>
      split at applies
      · exact applies.frames.mode
      · subst applies
        rfl
  | qualify _ _ next _ _ _ _ _ _ finds => exact (finds.frames_noted next).mode.trans (by simp)
  | write | feed => simp [capture]
  | finish => exact absurd rfl continues.goesOn
  | _ => rfl

/-- What is written as long as nothing ends keeps its shape. -/
theorem Shaped.path {last : Draft} {events : List Event} {more : String}
    (shaped : draft.Shaped outline text) (path : draft.Path events more last)
    (sameMode : draft.mode = mode) (placed : draft.Placed) (wholesome : draft.Wholesome .wellFormed)
    (continues : ∀ event ∈ events, event.Continues mode) :
    last.Shaped outline (text ++ more.toList) ∧ last.mode = mode := by
  induction path generalizing text with
  | nil => simpa using ⟨shaped, sameMode⟩
  | @cons first second last event events more later step rest induction =>
      have now := continues event List.mem_cons_self
      have kept := mode_of_step step (by rwa [sameMode])
      rw [String.toList_append, ← List.append_assoc]
      exact induction (shaped.step sameMode placed wholesome now step) (kept.trans sameMode)
        (placed.step step) (wholesome.step now.clean.meets step)
        fun other member => continues other (List.mem_cons_of_mem _ member)

end Draft

end XmlStream
