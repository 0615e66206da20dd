import XmlStream.Proofs.Draft.Tiered
import XmlStream.Proofs.Reading.Encodable
import XmlStream.Proofs.Reading.Markup
import XmlStream.Proofs.Simulation.Reachable

namespace XmlStream.Draft

/-! A reader that follows the steps of a document. As long as all but text and attribute values
is in the character set of the output, it reads in that set what it would read without. -/

open Charset Grammar Reading

variable {charset : Charset} {draft after : Draft} {place : Place} {event : Event} {text : String}

/-! ## The place of a reader -/

def textQuote? (quote : Quote) : Phase → Option Quote
  | .attribute => some quote
  | _ => none

/-- A reader is at the place that a phase stands for. The value of an attribute that belongs
to no element is read as text. -/
def Stands (quote : Quote) (phase : Phase) (place : Place) : Prop :=
  match phase with
  | .element => ∃ tag, InTag tag place
  | phase => InText (textQuote? quote phase) place

variable {quote : Quote} {phase next : Phase} {token : Token} {mode : Mode}

theorem stands_iff (notElement : phase ≠ .element) :
    Stands quote phase place ↔ InText (textQuote? quote phase) place := by
  cases phase <;> first | exact Iff.rfl | contradiction

theorem Stands.content (stands : Stands quote phase place) (notElement : phase ≠ .element)
    (notAttribute : phase ≠ .attribute) : place = .text .content := by
  rw [stands_iff notElement] at stands
  have outside : textQuote? quote phase = none := by
    cases phase <;> first | rfl | contradiction
  exact eq_content_of_inText (outside ▸ stands)

theorem stands_of_inText (notElement : phase ≠ .element) (notAttribute : phase ≠ .attribute)
    (inText : InText none place) : Stands quote phase place := by
  cases phase <;> first | exact inText | contradiction

theorem textQuote?_of_moves (quote : Quote) (notElement : phase ≠ .element)
    (moves : Moves mode phase next) :
    next ≠ .element ∧ textQuote? quote next = textQuote? quote phase := by
  rcases moves with rfl | ⟨rfl | rfl, rfl | rfl | ⟨rfl, _⟩⟩
  · exact ⟨notElement, rfl⟩
  all_goals exact ⟨by simp, rfl⟩

theorem suits_position (draft : Draft) (phase : Phase) :
    Suits (draft.position phase) (textQuote? draft.settings.quote phase) := by
  intro quote within
  cases phase <;> cases within
  rfl

theorem carries_between (stands : Stands quote phase place)
    (markup : token = .doctype ∨ token = .comment ∨ token = .processingInstruction ∨ token = .cdata)
    (notElement : phase ≠ .element) (notAttribute : phase ≠ .attribute)
    (leads : mode.next? token phase = some next) {written : List Char}
    (carries : Carries charset (.text .content) written (InText none)) :
    Carries charset place written (Stands quote next) := by
  rw [stands.content notElement notAttribute]
  have outside : next ≠ .element ∧ next ≠ .attribute := by
    rcases moves_of_markup markup notElement notAttribute leads with
      rfl | ⟨_, rfl | rfl | ⟨rfl, _⟩⟩
    · exact ⟨notElement, notAttribute⟩
    all_goals exact ⟨by simp, by simp⟩
  exact carries.mono fun _ => stands_of_inText outside.1 outside.2

theorem carries_textual (stands : Stands draft.settings.quote draft.phase place)
    (textual : token = .text ∨ token = .raw ∨ token = .whitespace ∨ token = .base64)
    (notElement : draft.phase ≠ .element) (leads : draft.mode.next? token draft.phase = some next)
    {written : List Char}
    (carries : ∀ quote?, InText quote? place → Suits (draft.position next) quote? →
      Carries charset place written (InText quote?)) :
    Carries charset place written (Stands draft.settings.quote next) := by
  have moves := moves_of_text textual notElement leads
  rcases textQuote?_of_moves draft.settings.quote notElement moves with ⟨notElementToo, same⟩
  rw [stands_iff notElement] at stands
  have suits := draft.suits_position next
  rw [same] at suits
  refine (carries _ stands suits).mono fun _ inText => ?_
  rw [stands_iff notElementToo, same]
  exact inText

theorem carries_written {piece : Piece} {form : Name.Form} {namespaces : Bool}
    {position : TextPosition} {quote? : Option Quote} (encodable : piece.Encodable charset)
    (named : ∀ name, piece = .entity name → Name.isUsable form namespaces name = true)
    (inText : InText quote? place) (suits : Suits position quote?) :
    Carries charset place (piece.written position).toList (InText quote?) := by
  cases piece with
  | text content => exact carries_escaped suits inText content
  | entity name => exact carries_entityReference (name_of_isUsable (named name rfl)) encodable inText
  | character character =>
      exact (spells_hexReference character).carries_of_has
        (fun other member => (isCommon_of_mem_hexReference member).has) inText
  | hexadecimal bytes =>
      simp only [Piece.written, String.toList_ofList]
      exact carries_plain inText plain_of_mem_hexadecimal
  | whitespace content => exact carries_escaped suits inText content
  | raw => exact encodable.elim

theorem carries_lineText {beforeEnd : Bool} (inText : InText none place)
    (indents : (Terms.encodable charset).Indents draft.settings.indentChar) :
    Carries charset place (draft.lineText beforeEnd).toList (InText none) := by
  have lineEnd : IsChar '\n' ∧ '\n' ≠ '<' ∧ '\n' ≠ '&' := by
    refine ⟨?_, by decide, by decide⟩
    rw [IsChar]
    decide
  refine carries_text inText fun character member => ?_
  have all : IsChar character ∧ character ≠ '<' ∧ character ≠ '&' := by
    rcases mem_lineText member with rfl | rfl
    · exact lineEnd
    · exact indents
  exact ⟨all.1, all.2.1, all.2.2, by simp⟩

theorem carries_declaration (inTag : ∃ tag, InTag tag place) {name : List Char} (spelled : Spelled charset name)
    (quote : Quote) (uri : String) :
    Carries charset place (' ' :: (name ++ ['=', quote.char]) ++
      ((TextPosition.attribute quote).escaped uri).toList ++ [quote.char])
      (fun next => ∃ tag, InTag tag next) := by
  rcases inTag with ⟨tag, inTag⟩
  have start := carries_attributeStart inTag spelled.named spelled.has quote
  refine (start.append fun _ inText => ?_).append fun _ inText => carries_quote inText
  refine carries_escaped (fun other within => ?_) inText uri
  rw [Option.some.inj within]

theorem carries_declarationTexts (inTag : ∃ tag, InTag tag place) (quote : Quote)
    (entries : List (Binding × Nat))
    (writable : ∀ entry ∈ entries, Writable (.encodable charset) entry.1) :
    Carries charset place ((entries.map fun entry =>
      declarationText quote entry.1).foldr (· ++ ·) "").toList
      (fun next => ∃ tag, InTag tag next) := by
  induction entries generalizing place with
  | nil => exact .nil inTag
  | cons entry rest induction =>
      have first := writable entry List.mem_cons_self
      have prefixed : ∀ given, some "xmlns" = some given → (Terms.encodable charset).Named given := by
        rintro _ ⟨⟩
        exact (Terms.encodable charset).xmlns
      have declared := carries_declaration inTag (spelled_writtenName prefixed first.nsPrefix) quote
        entry.1.uri
      have whole := declared.append fun next inTag =>
        induction inTag fun other member => writable other (List.mem_cons_of_mem _ member)
      simpa [declarationText, writtenName, toList_text,
        Name.toList_escaped_of_isNCName _ first.nsPrefix.1] using whole

theorem carries_owedText (inTag : ∃ tag, InTag tag place) (fit : draft.Fit (.encodable charset)) :
    Carries charset place draft.owedText.toList (fun next => ∃ tag, InTag tag next) := by
  have declared := carries_declarationTexts inTag draft.settings.quote
    (draft.scope.owed draft.top.bindingMark) fun entry member =>
      fit.scope entry.1 (mem_of_mem_owed member).1
  rw [owedText, String.toList_append]
  refine declared.append fun next inTag => ?_
  split
  · have none : ∀ given, Option.none = some given → (Terms.encodable charset).Named given := by simp
    have default := carries_declaration inTag
      (spelled_writtenName none (Terms.encodable charset).xmlns) draft.settings.quote
      draft.top.defaultUri
    simpa [defaultText, writtenName, toList_text] using default
  · exact .nil inTag

theorem has_quoted? {literal written : String} (covers : charset.Covers literal)
    (found : draft.quoted? literal = some written) : charset.Covers written := by
  rcases Option.map_eq_some_iff.mp found with ⟨quote, _, rfl⟩
  have quoted : IsCommon quote.char := by cases quote <;> decide
  intro character member
  simp only [String.toList_append, toList_text, List.mem_append, List.mem_singleton] at member
  rcases member with (rfl | member) | rfl
  · exact quoted.has
  · exact covers character member
  · exact quoted.has

theorem Covers.append {text more : String} (covers : charset.Covers text)
    (later : charset.Covers more) : charset.Covers (text ++ more) := by
  intro character member
  rw [String.toList_append, List.mem_append] at member
  exact member.elim (covers character) (later character)

theorem covers_externalId? {name ids : String} {publicId systemId subset : Option String}
    (encodable : EncodableDoctype charset name publicId systemId subset)
    (identified : draft.externalId? publicId systemId = some ids) : charset.Covers ids := by
  have common (text : String) (all : ∀ character ∈ text.toList, IsCommon character) :
      charset.Covers text := fun character member => (all character member).has
  cases publicId with
  | none =>
      cases systemId with
      | none =>
          cases identified
          exact common "" (by simp)
      | some systemId =>
          rcases Option.map_eq_some_iff.mp identified with ⟨literal, found, rfl⟩
          exact Covers.append (common _ (by decide))
            (has_quoted? (encodable.systemId systemId rfl) found)
  | some publicId =>
      simp only [externalId?, Option.bind_eq_bind, Option.bind_eq_some_iff, Option.pure_def,
        Option.some.injEq] at identified
      rcases identified with ⟨publicLiteral, foundPublic, systemLiteral, foundSystem, rfl⟩
      have system : charset.Covers (systemId.getD "") := by
        cases systemId with
        | none => exact common "" (by simp)
        | some systemId => exact encodable.systemId systemId rfl
      exact Covers.append (Covers.append (Covers.append (common _ (by decide))
        (has_quoted? (encodable.publicId publicId rfl) foundPublic)) (common _ (by decide)))
        (has_quoted? system foundSystem)

theorem carries_topAttribute (inText : InText none place) {name : List Char}
    (named : Grammar.Name name) (quote : Quote) :
    Carries charset place (name ++ ['=', quote.char]) (InText none) :=
  carries_text inText fun character member =>
    have all := mem_attributeStart named member
    ⟨all.1, all.2.1, all.2.2, by simp⟩

theorem carries_instructionText {target content : String}
    (named : Grammar.Name target.toList) (covers : charset.Covers target)
    (coversToo : charset.Covers content) (noEnd : occursIn "?>".toList content.toList = false) :
    Carries charset (.text .content)
      ("<?" ++ target ++ (if content = "" then "" else " " ++ content) ++ "?>").toList
      (InText none) := by
  have space : IsCommon ' ' := by decide
  have notQuestion : '?' ∉ target.toList := named.notMem (by decide)
  rcases @instruction_lead target content notQuestion with ⟨lead, whole, notInLead, leads⟩
  rw [@String.append_assoc "<?", String.toList_append, String.toList_append, whole]
  refine carries_instruction (fun character member => ?_) fun inside => ?_
  · rcases List.mem_append.mp member with member | member
    · rcases leads character member with member | rfl
      · exact covers character member
      · exact space.has
    · exact coversToo character member
  · exact not_infix_of_occursIn noEnd (infix_of_infix_append notInLead inside)

theorem carries_startAttribute {request : NameRequest} {nsPrefix : Option String}
    (stands : Stands draft.settings.quote draft.phase place)
    (spelled : Spelled charset (writtenName nsPrefix request.localName).toList)
    (notInside : draft.phase ≠ .attribute)
    (leads : draft.mode.next? .startAttribute draft.phase = some next) :
    Carries charset place ((if draft.phase = .element then " " else "") ++
      writtenName nsPrefix request.localName ++ "=" ++ draft.settings.quote.text).toList
      (Stands draft.settings.quote next) := by
  rcases next?_startAttribute notInside leads with ⟨inTag, rfl⟩ | ⟨_, start, rfl⟩
  · rw [inTag] at stands
    rcases stands with ⟨tag, stands⟩
    rw [if_pos inTag, toList_attributeStart]
    exact carries_attributeStart stands spelled.named spelled.has draft.settings.quote
  · have inText : InText none place := by rwa [start] at stands
    rw [if_neg (by simp [start]), toList_topAttributeStart]
    exact carries_topAttribute inText spelled.named draft.settings.quote

theorem carries_endAttribute (stands : Stands draft.settings.quote draft.phase place)
    (leads : draft.mode.next? .endAttribute draft.phase = some next) :
    Carries charset place draft.settings.quote.text.toList (Stands draft.settings.quote next) := by
  rw [toList_text]
  rcases next?_endAttribute leads with ⟨inValue, rfl⟩ | ⟨_, onTop, rfl⟩
  · rw [inValue] at stands
    exact carries_quote stands
  · rw [onTop] at stands
    have plain : IsChar draft.settings.quote.char ∧ draft.settings.quote.char ≠ '<' ∧
        draft.settings.quote.char ≠ '&' := by
      unfold IsChar
      cases draft.settings.quote <;> decide
    have carried : Carries charset place [draft.settings.quote.char] (InText none) :=
      carries_text stands (by simpa using plain)
    exact carried

theorem carries_prefixText (stands : Stands draft.settings.quote draft.phase place)
    (closed : draft.phase ≠ .element) (leads : draft.mode.next? .text draft.phase = some next)
    (nsPrefix : String) :
    Carries charset place (TextPosition.escaped (draft.position next) nsPrefix ++
      TextPosition.escaped (draft.position next) ":").toList (Stands draft.settings.quote next) := by
  rw [String.toList_append]
  exact carries_textual stands (.inl rfl) closed leads fun _ inText suits =>
    (carries_escaped suits inText nsPrefix).append fun _ inText => carries_escaped suits inText ":"

theorem carries_step (stands : Stands draft.settings.quote draft.phase place)
    (placed : draft.Placed) (wholesome : draft.Wholesome (.encodable charset))
    (names : ∀ name ∈ draft.names, Spelled charset name)
    (encodable : event.Encodable charset) (step : draft.Step event text after) :
    Carries charset place text.toList (Stands after.settings.quote after.phase) := by
  cases step with
  | xmlDeclaration => exact encodable.elim
  | doctype name publicId systemId subset ids next usable identified leads =>
      have outside := outside_of_doctype leads
      have named := name_of_isUsable usable
      have has : ∀ character ∈ name.toList ++ ids.toList, charset.Has character := by
        intro character member
        rw [List.mem_append] at member
        exact member.elim (encodable.name character)
          (covers_externalId? encodable identified character)
      have carried := carries_between stands (.inl rfl) outside.1 outside.2 leads
        (carries_doctype named identified has)
      simpa [encodable.subset] using carried
  | line beforeEnd between indents notStart plain =>
      rw [stands.content between.1 between.2.1]
      exact (carries_lineText inText_content wholesome.indent).mono fun _ =>
        stands_of_inText between.1 between.2.1
  | comment content next between noDashes noDash leads =>
      rw [String.toList_append, String.toList_append]
      exact carries_between stands (by simp) between.1 between.2.1 leads
        (carries_comment encodable (not_infix_of_occursIn noDashes))
  | instruction target content next between noEnd notXml usable leads =>
      exact carries_between stands (by simp) between.1 between.2.1 leads
        (carries_instructionText (name_of_isUsable usable) encodable.1 encodable.2 noEnd)
  | cdata content next between noEnd leads =>
      rw [String.toList_append, String.toList_append]
      exact carries_between stands (by simp) between.1 between.2.1 leads
        (carries_cdata encodable (not_infix_of_occursIn noEnd))
  | startElement request nsPrefix found between named notXmlns disabled leads noPayload written =>
      have frames := written.frames (draft.depth_push_pos .element)
      rcases written.fit (wholesome.fit.push.congr rfl rfl) encodable with ⟨_, prefixed⟩
      have spelled := spelled_writtenName prefixed encodable.localName
      have phase : found.phase = .element := frames.phase
      rw [stands.content between.1 between.2.1, String.toList_append]
      refine (carries_startTag spelled.named spelled.has).mono fun _ inTag => ?_
      rw [modifyTop, phase]
      exact ⟨_, inTag⟩
  | startAttribute request nsPrefix kind next found notInside named disabled leads written =>
      have frames := written.frames.trans (found.frames_noteAttribute nsPrefix)
      rcases written.fit (wholesome.fit.congr rfl rfl) encodable with ⟨_, prefixed, _⟩
      have spelled := spelled_writtenName prefixed encodable.localName
      have phase : (found.noteAttribute nsPrefix).phase = next := frames.phase
      have quote : (found.noteAttribute nsPrefix).settings.quote = draft.settings.quote :=
        congrArg Settings.quote frames.settings
      dsimp only
      rw [quote, phase]
      exact carries_startAttribute stands spelled notInside leads
  | endAttribute next found leads noPayload applies =>
      have settings : found.settings = draft.settings := by
        split at applies
        · exact applies.frames.settings
        · rw [applies]
      rw [enter_settings, enter_phase, settings]
      exact carries_endAttribute stands leads
  | endStartTag inTag =>
      rw [inTag] at stands
      rw [String.toList_append]
      exact (carries_owedText stands wholesome.fit).append fun _ carried =>
        carried.elim fun _ inTag => carries_tagEnd inTag
  | endEmptyTag inTag inside =>
      rw [inTag] at stands
      rw [String.toList_append, enter_phase]
      have between := draft.phaseAfterElement_between
      exact ((carries_owedText stands wholesome.fit).append fun _ carried =>
        carried.elim fun _ inTag => carries_emptyTagEnd inTag).mono fun _ =>
          stands_of_inText between.1 between.2
  | endTag inContent inside =>
      have spelled : Spelled charset (tagName draft.top) :=
        names _ (by rw [names_eq_cons inside]; exact List.mem_cons_self)
      rw [inContent] at stands
      rw [stands.content (by simp) (by simp), String.toList_append, String.toList_append,
        enter_phase]
      have between := draft.phaseAfterElement_between
      exact (carries_endTag spelled.named spelled.has).mono fun _ =>
        stands_of_inText between.1 between.2
  | write piece next closed leads blank named legal =>
      have textual : piece.token = .text ∨ piece.token = .raw ∨ piece.token = .whitespace ∨
          piece.token = .base64 := by
        cases piece <;> simp [Piece.token]
      have carried := carries_textual stands textual closed leads fun _ inText suits =>
        carries_written encodable named inText suits
      simpa [capture] using carried
  | qualify uri nsPrefix next found closed enabled nonEmpty notDefault leads finds =>
      have frames := finds.frames_noted next
      have quote := congrArg Settings.quote
        (frames.settings.trans (draft.enterText_settings next))
      have phase := frames.phase.trans (draft.enterText_phase next)
      refine (carries_prefixText stands closed leads nsPrefix).mono fun _ stands => ?_
      rw [capture]
      dsimp only
      rw [quote, phase]
      exact stands
  | feed chunk next closed leads =>
      have carried : Carries charset place (draft.carry.feed chunk).1
          (Stands draft.settings.quote next) :=
        carries_textual stands (by simp) closed leads fun _ inText _ =>
          carries_plain inText plain_of_mem_feed
      simpa [capture] using carried
  -- The rest of a payload is text where more of the payload could stand.
  | endPayload pending =>
      rcases next?_payload (placed.takesPayload pending) with ⟨stays, notElement⟩
      have carried : Carries charset place draft.carry.lastGroup
          (Stands draft.settings.quote draft.phase) :=
        carries_textual stands (by simp) notElement stays fun _ inText _ =>
          carries_plain inText plain_of_mem_lastGroup
      simpa [capture] using carried
  -- The quotes matter to a reader within a value only, where they cannot be changed.
  | configure setting atStart unquoted =>
      refine .nil ?_
      cases setting with
      | quote chosen =>
          rcases unquoted chosen rfl with ⟨notAttribute, _⟩
          show Stands chosen draft.phase place
          cases phase : draft.phase <;> rw [phase] at stands
          all_goals first | exact stands | exact absurd phase notAttribute
      | _ => exact stands
  | finish between =>
      refine .nil ?_
      rw [stands.content between.1 between.2.1]
      exact inText_content

/-! ## Paths -/

/-- A reader has followed up to a draft, whose names the set covers. -/
structure Legible (charset : Charset) (draft : Draft) (place : Place) : Prop where
  live : draft.Live
  stands : Stands draft.settings.quote draft.phase place
  placed : draft.Placed
  wholesome : draft.Wholesome (.encodable charset)
  names : ∀ name ∈ draft.names, Spelled charset name

theorem Legible.step (legible : draft.Legible charset place) (encodable : event.Encodable charset)
    (step : draft.Step event text after) :
    Carries charset place text.toList (after.Legible charset) := by
  have carries := carries_step legible.stands legible.placed legible.wholesome legible.names
    encodable step
  have names := names_step (fun _ _ => spelled_writtenName) legible.names legible.wholesome
    encodable.meets step
  exact ⟨⟨legible.live.step step, carries.leads, legible.placed.step step,
    legible.wholesome.step encodable.meets step, names⟩, carries.same⟩

theorem Legible.path {last : Draft} {events : List Event} (legible : draft.Legible charset place)
    (path : draft.Path events text last) (encodable : ∀ event ∈ events, event.Encodable charset) :
    Carries charset place text.toList (last.Legible charset) := by
  induction path generalizing place with
  | nil => exact .nil legible
  | cons step rest induction =>
      rw [String.toList_append]
      exact (legible.step (encodable _ List.mem_cons_self) step).append fun _ legible =>
        induction legible fun event member => encodable event (List.mem_cons_of_mem _ member)

end XmlStream.Draft
