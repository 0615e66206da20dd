import XmlStream.Proofs.Grammar.Documents
import XmlStream.Proofs.Grammar.Parts
import XmlStream.Proofs.Output.Trails
import XmlStream.Proofs.Reading.Encodable
import XmlStream.Proofs.Reading.Markup

namespace XmlStream

/-! The characters of the output, and those that the references in it denote: legal ones, and
those of the texts that are given to be escaped. -/

open Grammar

namespace Grammar

/-! ## Escaped text and names -/

variable {denotes : Char → Prop}

theorem composed_escapedChar (position : TextPosition) {character : Char}
    (denoted : denotes character) : Composed denotes (position.escapedChar character) := by
  have stands := position.stands_escapedChar character
  generalize position.escapedChar character = written at stands ⊢
  cases stands with
  | plain notLess _ notAmpersand legal =>
      exact (Part.character legal notLess notAmpersand).composed
  | entity name predefined =>
      simpa [entityReference] using (Part.entity (name_of_predefined? predefined)).composed
  | number =>
      simpa [hexReference] using (Part.number (number?_upperHex character.toNat) denoted).composed

/-- Escaped text denotes no other characters than it was made of. -/
theorem composed_escaped (position : TextPosition) {content : String}
    (denoted : ∀ character ∈ content.toList, denotes character) :
    Composed denotes (position.escaped content).toList := by
  rw [TextPosition.toList_escaped]
  generalize content.toList = characters at denoted
  induction characters with
  | nil => exact .nil
  | cons first rest induction =>
      rw [List.forall_mem_cons] at denoted
      rw [List.flatMap_cons]
      exact (composed_escapedChar position denoted.1).append (induction denoted.2)

theorem composed_quote (quote : Quote) : Composed denotes [quote.char] := by
  refine (Part.character (isQuote_char quote).legal ?_ ?_).composed <;> cases quote <;> decide

theorem composed_attributeStart (named : Name text) (quote : Quote) :
    Composed denotes (text ++ ['=', quote.char]) :=
  composed_of_characters fun _ => Reading.mem_attributeStart named

theorem composed_space : Composed denotes [' '] :=
  composed_of_blank space_single.2

end Grammar

/-! ## Steps of the draft -/

def Terms.denoting (denotes : Char → Prop) : Terms where
  Named name := Name.isNCName name = true
  Uri uri := ∀ character ∈ uri.toList, denotes character
  Indents := IsBlank
  xml := isNCName_xml
  xmlns := isNCName_xmlns
  generated := isNCName_generatedPrefix

/-- The identifiers of a document type are legal, and there is no internal subset. -/
structure LegalDoctype (publicId systemId subset : Option String) : Prop where
  publicId : ∀ text, publicId = some text → Legal text
  systemId : ∀ text, systemId = some text → Legal text
  subset : subset = none

/-- What is escaped may contain the characters that are denoted, and all else is legal. -/
def Event.Composes (denotes : Char → Prop) : Event → Prop
  | .xmlDeclaration encoding _ =>
    ∀ name, encoding = some name → ∃ charset : Charset, name = charset.name
  | .doctype _ publicId systemId subset => LegalDoctype publicId systemId subset
  | .comment text | .cdata text | .instruction _ text => Legal text
  | .startElement asked _ | .startAttribute asked _ => asked.request.Meets (.denoting denotes)
  | .write (.text content) _ => ∀ character ∈ content.toList, denotes character
  | .write (.raw _) _ => False
  | .qualify uri _ => ∀ character ∈ uri.toList, denotes character
  | .configure (.indentChar character) => IsBlank character
  | _ => True

theorem Event.composes_of_completes {denotes : Char → Prop} {event : Event}
    (completes : event.completes) : event.Composes denotes := by
  cases event <;> simp_all [Event.completes, Event.Composes]

theorem Event.Composes.meets {denotes : Char → Prop} {event : Event}
    (composes : event.Composes denotes) : event.Meets (.denoting denotes) := by
  cases event with
  | startElement | startAttribute | qualify => exact composes
  | configure setting =>
      cases setting with
      | indentChar => exact composes
      | _ => trivial
  | _ => trivial

namespace Draft

variable {denotes : Char → Prop} {draft after : Draft} {event : Event} {text : String}

theorem legal_of_isNCName {name : String} (named : Name.isNCName name = true) : Legal name :=
  (name_of_isNCName named).legal

theorem composed_declaration {name : List Char} (named : Grammar.Name name) (quote : Quote)
    {uri : String} (denoted : ∀ character ∈ uri.toList, denotes character) :
    Composed denotes (' ' :: (name ++ ['=', quote.char]) ++
      ((TextPosition.attribute quote).escaped uri).toList ++ [quote.char]) := by
  have start : Composed denotes (' ' :: (name ++ ['=', quote.char])) :=
    composed_space.append (composed_attributeStart named quote)
  exact (start.append (composed_escaped _ denoted)).append (composed_quote quote)

theorem composed_declarationTexts (quote : Quote) (entries : List (Binding × Nat))
    (writable : ∀ entry ∈ entries,
      Name.isNCName entry.1.nsPrefix = true ∧ ∀ character ∈ entry.1.uri.toList, denotes character) :
    Composed denotes ((entries.map fun entry =>
      declarationText quote entry.1).foldr (· ++ ·) "").toList := by
  induction entries with
  | nil => exact .nil
  | cons entry rest induction =>
      rw [List.forall_mem_cons] at writable
      obtain ⟨⟨named, denoted⟩, later⟩ := writable
      have prefixed : ∀ given, some "xmlns" = some given → Name.isNCName given = true := by
        rintro _ ⟨⟩
        exact isNCName_xmlns
      have declared := composed_declaration (name_writtenName prefixed named) quote denoted
      simpa [declarationText, writtenName, toList_text, Name.toList_escaped_of_isNCName _ named]
        using declared.append (induction later)

theorem composed_owedText (fit : draft.Fit (.denoting denotes)) :
    Composed denotes draft.owedText.toList := by
  have declared := composed_declarationTexts draft.settings.quote
    (draft.scope.owed draft.top.bindingMark) fun entry member => by
      have owed := mem_of_mem_owed member
      have writable := fit.scope entry.1 owed.1
      exact ⟨writable.nsPrefix, writable.uri owed.2⟩
  rw [owedText, String.toList_append]
  refine declared.append ?_
  split
  · rename_i owes
    simp only [owesDefault, Bool.and_eq_true, decide_eq_true_eq] at owes
    have none : ∀ given, Option.none = some given → Name.isNCName given = true := by simp
    have default := composed_declaration (name_writtenName none isNCName_xmlns)
      draft.settings.quote (fit.owed owes.1.1 owes.2)
    simpa [defaultText, writtenName, toList_text] using default
  · exact .nil

theorem identifiers_of_externalId? {publicId systemId subset : Option String} {ids : String}
    (legal : LegalDoctype publicId systemId subset)
    (identified : draft.externalId? publicId systemId = some ids) : Identifiers ids.toList := by
  cases publicId with
  | none =>
      cases systemId with
      | none =>
          cases identified
          exact .none
      | some systemId =>
          obtain ⟨literal, found, rfl⟩ := Option.map_eq_some_iff.mp identified
          rw [String.toList_append]
          exact .system (quoted_of_quoted? found (legal.systemId systemId rfl))
  | some publicId =>
      simp only [externalId?, Option.bind_eq_bind, Option.bind_eq_some_iff, Option.pure_def,
        Option.some.injEq] at identified
      obtain ⟨publicLiteral, foundPublic, systemLiteral, foundSystem, rfl⟩ := identified
      have named : SystemLiteral publicLiteral.toList :=
        quoted_of_quoted? foundPublic (legal.publicId publicId rfl)
      have located : SystemLiteral systemLiteral.toList := by
        refine quoted_of_quoted? foundSystem ?_
        cases systemId with
        | none => simp
        | some systemId => exact legal.systemId systemId rfl
      simpa using Identifiers.publicSystem named located

theorem composed_instruction {target content : String} {namespaces : Bool} (legal : Legal content)
    (noEnd : occursIn "?>".toList content.toList = false)
    (usable : Name.isUsable .qualified namespaces target) :
    Composed denotes
      ("<?" ++ target ++ (if content = "" then "" else " " ++ content) ++ "?>").toList := by
  have named := name_of_isUsable usable
  cases xml : equalIgnoringCase target "xml" with
  | false =>
      have instruction := instruction_of_noEnd named xml legal noEnd
      exact (Part.verbatim (.instruction instruction)).composed
  | true =>
      have instruction := xmlInstruction_of_noEnd named xml legal noEnd
      exact (Part.verbatim (.xmlInstruction instruction)).composed

theorem composed_startAttribute {inTag : Prop} [Decidable inTag] {name : String}
    (named : Grammar.Name name.toList) (quote : Quote) :
    Composed denotes ((if inTag then " " else "") ++ name ++ "=" ++ quote.text).toList := by
  have start : Composed denotes (name.toList ++ ['=', quote.char]) :=
    composed_attributeStart named quote
  split
  · rw [Reading.toList_attributeStart]
    exact composed_space.append start
  · rw [Reading.toList_topAttributeStart]
    exact start

theorem composed_written (legal : ∀ character, IsChar character → denotes character)
    {piece : Piece} {position : TextPosition} {namespaces : Bool} {kind : Option SpecialKind}
    (composes : (Event.write piece kind).Composes denotes)
    (blank : ∀ text, piece = .whitespace text →
      text.toList.all CharacterClass.blank.hasChar = true)
    (named : ∀ name, piece = .entity name → Name.isUsable .qualified namespaces name = true)
    (allowed : ∀ character, piece = .character character →
      CharacterClass.xml.hasChar character = true) :
    Composed denotes (piece.written position).toList := by
  cases piece with
  | text content => exact composed_escaped position composes
  | whitespace content =>
      have blank := List.all_eq_true.mp (blank content rfl)
      exact composed_escaped position fun character member =>
        legal character (isChar_of_isBlank (blank character member))
  | entity name =>
      have named := name_of_isUsable (named name rfl)
      simpa [Piece.written, entityReference] using (Part.entity named).composed
  | character character =>
      have denoted := legal character (allowed character rfl)
      simpa [Piece.written, hexReference]
        using (Part.number (number?_upperHex character.toNat) denoted).composed
  | hexadecimal bytes =>
      rw [Piece.written, String.toList_ofList]
      exact composed_of_plain plain_of_mem_hexadecimal
  | raw content => exact composes.elim

theorem composed_step (legal : ∀ character, IsChar character → denotes character)
    (wholesome : draft.Wholesome (.denoting denotes))
    (names : ∀ name ∈ draft.names, Grammar.Name name) (composes : event.Composes denotes)
    (step : draft.Step event text after) : Composed denotes text.toList := by
  cases step with
  | xmlDeclaration encoding standalone start =>
      exact (Part.verbatim (.declaration (xmlDeclaration_grammar draft composes standalone))).composed
  | doctype name publicId systemId subset ids next usable identified leads =>
      have identifiers := identifiers_of_externalId? composes identified
      have doctype := Verbatim.doctype (name_of_isUsable usable) identifiers
      simpa [composes.subset] using (Part.verbatim doctype).composed
  | line beforeEnd between indents notStart plain =>
      exact composed_of_blank (isBlank_of_mem_lineText wholesome.indent)
  | comment content next between noDashes noDash leads =>
      exact (Part.verbatim (.comment (comment_of_noHyphens composes noDashes noDash))).composed
  | instruction target content next between noEnd notXml usable leads =>
      exact composed_instruction composes noEnd usable
  | cdata content next between noEnd leads =>
      exact (Part.verbatim (.cdata (section_of_noEnd composes noEnd))).composed
  | startElement request nsPrefix found between named notXmlns disabled leads noPayload written =>
      obtain ⟨_, prefixed⟩ := written.fit (wholesome.fit.push.congr rfl rfl) composes
      rw [String.toList_append]
      exact (Part.startTag (name_writtenName prefixed composes.localName)).composed
  | startAttribute request nsPrefix kind next found notInside named disabled leads written =>
      obtain ⟨_, prefixed, _⟩ := written.fit (wholesome.fit.congr rfl rfl) composes
      exact composed_startAttribute (name_writtenName prefixed composes.localName) _
  | endAttribute next found leads noPayload applies =>
      rw [toList_text]
      exact composed_quote draft.settings.quote
  | endStartTag inTag =>
      rw [String.toList_append]
      exact (composed_owedText wholesome.fit).append (composed_of_characters (by decide))
  | endEmptyTag inTag inside =>
      rw [String.toList_append]
      exact (composed_owedText wholesome.fit).append (composed_of_characters (by decide))
  | endTag inContent inside =>
      have named : Grammar.Name (tagName draft.top) :=
        names _ (by rw [names_eq_cons inside]; exact List.mem_cons_self)
      rw [String.toList_append, String.toList_append]
      exact (Part.endTag named).composed.append (composed_of_characters (by decide))
  | write piece next closed leads blank named allowed =>
      exact composed_written legal composes blank named allowed
  | qualify uri nsPrefix next found closed enabled nonEmpty notDefault leads finds =>
      obtain ⟨_, named⟩ := finds.fit (wholesome.fit.enterText next) composes
      have colon : AllLegal ":".toList := by decide
      rw [String.toList_append]
      exact (composed_escaped _ fun character member =>
          legal character (legal_of_isNCName named character member)).append
        (composed_escaped _ fun character member => legal character (colon character member))
  | feed chunk next closed leads =>
      rw [String.toList_ofList]
      exact composed_of_plain plain_of_mem_feed
  | endPayload pending =>
      rw [String.toList_ofList]
      exact composed_of_plain plain_of_mem_lastGroup
  | configure setting atStart unquoted => exact .nil
  | finish between => exact .nil

theorem composed_path (legal : ∀ character, IsChar character → denotes character)
    {events : List Event} (wholesome : draft.Wholesome (.denoting denotes))
    (names : ∀ name ∈ draft.names, Grammar.Name name)
    (composes : ∀ event ∈ events, event.Composes denotes) (path : draft.Path events text after) :
    Composed denotes text.toList := by
  induction path with
  | nil => exact .nil
  | cons step rest induction =>
      rw [List.forall_mem_cons] at composes
      have first := composed_step legal wholesome names composes.1 step
      have wholesomeNext := wholesome.step composes.1.meets step
      have namesNext := names_step (fun _ _ => name_writtenName) names wholesome composes.1.meets step
      rw [String.toList_append]
      exact first.append (induction wholesomeNext namesNext composes.2)

end Draft

/-! ## Calls -/

structure NameRequest.NCNamed (request : NameRequest) : Prop where
  localName : Name.isNCName request.localName = true
  nsPrefix : ∀ given, nonEmpty? request.nsPrefix = some given → Name.isNCName given = true

/-- A call asks for names without a colon, indents with white space, and has nothing written as
it is that is not legal. What it has escaped may be anything. -/
def Call.Composes : Call → Prop
  | .setIndentChar chosen => IsBlank chosen
  | .doctype _ publicId systemId subset => LegalDoctype publicId systemId subset
  | .startElement request | .startAttribute request | .attributeString request _
  | .elementString request _ => request.NCNamed
  | .cdata content | .comment content | .instruction _ content => Legal content
  | .raw _ => False
  | _ => True

def Call.escapedTexts : Call → List String
  | .startElement request | .startAttribute request => request.uri.toList
  | .attributeString request value => value :: request.uri.toList
  | .elementString request value => value.toList ++ request.uri.toList
  | .text content | .name content | .token content => [content]
  | .qualifiedName localName uri => localName :: uri.toList
  | _ => []

/-- Some call has a text escaped in which a character stands. -/
def Given (calls : List Call) (character : Char) : Prop :=
  ∃ call ∈ calls, ∃ text ∈ call.escapedTexts, character ∈ text.toList

namespace Writer

variable {before : Writer} {call : Call} {own : List Event} {denotes : Char → Prop}

theorem meets_denoting {request : NameRequest} (named : request.NCNamed)
    (denoted : ∀ uri ∈ request.uri.toList, ∀ character ∈ uri.toList, denotes character) :
    request.Meets (.denoting denotes) :=
  ⟨named.localName, named.nsPrefix, fun uri given => denoted uri (by simp [given])⟩

theorem charset_of_encoding? (output : OutputBuffer) :
    ∀ name, output.encoding? = some name → ∃ charset : Charset, name = charset.name := by
  intro name named
  obtain ⟨encoder, _, rfl⟩ := Option.map_eq_some_iff.mp named
  exact ⟨encoder.charset, rfl⟩

theorem Owns.composes (owns : Owns before call own) (composes : call.Composes)
    (denoted : ∀ text ∈ call.escapedTexts, ∀ character ∈ text.toList, denotes character) :
    ∀ event ∈ own, event.Composes denotes := by
  cases owns with
  | query | flush | noText | endElement | fullEndElement | endAttribute => simp
  | finish | base64 => exact List.forall_mem_singleton.mpr trivial
  | document standalone => exact List.forall_mem_singleton.mpr (charset_of_encoding? _)
  | doctype | cdata | comment | instruction => exact List.forall_mem_singleton.mpr composes
  | setting call setting sets =>
      cases sets with
      | indentChar chosen => exact List.forall_mem_singleton.mpr composes
      | _ => exact List.forall_mem_singleton.mpr trivial
  | startElement request | startAttribute request =>
      exact List.forall_mem_singleton.mpr (meets_denoting composes denoted)
  | attributeString request value room pieces went adds =>
      rw [Call.escapedTexts, List.forall_mem_cons] at denoted
      refine List.forall_mem_cons.mpr ⟨meets_denoting composes denoted.2, ?_⟩
      obtain rfl | ⟨kind, rfl⟩ := adds
      · simp
      · exact List.forall_mem_singleton.mpr denoted.1
  | elementString request value room opened pieces went opens adds =>
      rw [Call.escapedTexts, List.forall_mem_append] at denoted
      refine List.forall_mem_cons.mpr ⟨meets_denoting composes denoted.2, ?_⟩
      obtain rfl | ⟨content, rfl, rfl⟩ := adds
      · simp
      · exact List.forall_mem_singleton.mpr (denoted.1 content (by simp))
  | piece call piece kind gives stands =>
      refine List.forall_mem_singleton.mpr ?_
      cases gives with
      | text content | name content | token content =>
          exact denoted content (by simp [Call.escapedTexts])
      | qualifiedName localName => exact denoted localName (by simp [Call.escapedTexts])
      | raw => exact composes.elim
      | _ => trivial
  | qualified localName uri kind stands =>
      rw [Call.escapedTexts, List.forall_mem_cons] at denoted
      exact List.forall_mem_cons.mpr
        ⟨denoted.2 uri (by simp), List.forall_mem_singleton.mpr denoted.1⟩

theorem step_guarded_error {action : Action Unit} {error : WriterError} {after : Writer}
    (performs : perform call = guarded action) (notClosed : before.phase ≠ .closed)
    (fails : action before = .error error after) : (before.step call).1 = .error error := by
  have stops : ∃ last, perform call before = .error error last := by
    rw [performs, guarded, if_neg notClosed, fails]
    exact ⟨_, rfl⟩
  obtain ⟨last, stops⟩ := stops
  rw [step_of_error stops]

theorem step_character_refused (notClosed : before.phase ≠ .closed) {code : Nat}
    (notLegal : ∀ character : Char, IsChar character → character.toNat ≠ code) :
    (before.step (.character code)).1 = .error (.invalidCharacter code) := by
  have nothing : xmlCharacter? code = none := by
    rw [xmlCharacter?, if_neg]
    rw [Bool.and_eq_true, not_and]
    intro valid allowed
    have same : (Char.ofNat code).toNat = code := toNat_ofNat (of_decide_eq_true valid)
    exact notLegal (Char.ofNat code) (by rwa [IsChar, CharacterClass.hasChar, same]) same
  have fails : putCharacter code before = .error (.invalidCharacter code) before := by
    rw [putCharacter, nothing]
    rfl
  exact step_guarded_error rfl notClosed fails

theorem step_surrogates_refused (notClosed : before.phase ≠ .closed) {low high : Nat}
    (notPair : ¬((0xD800 ≤ high ∧ high ≤ 0xDBFF) ∧ 0xDC00 ≤ low ∧ low ≤ 0xDFFF)) :
    ∃ code, (code = high ∨ code = low) ∧
      (before.step (.surrogates low high)).1 = .error (.invalidCharacter code) := by
  have fails : ∃ code, (code = high ∨ code = low) ∧
      putSurrogates low high before = .error (.invalidCharacter code) before := by
    by_cases first : 0xD800 ≤ high ∧ high ≤ 0xDBFF
    · refine ⟨low, .inr rfl, ?_⟩
      have second : low < 0xDC00 ∨ 0xDFFF < low := by omega
      have passes : ¬(high < 0xD800 ∨ 0xDBFF < high) := by omega
      simp [putSurrogates, second, passes]
    · refine ⟨high, .inl rfl, ?_⟩
      have outside : high < 0xD800 ∨ 0xDBFF < high := by omega
      simp [putSurrogates, outside]
  obtain ⟨code, one, fails⟩ := fails
  exact ⟨code, one, step_guarded_error rfl notClosed fails⟩

/-- Without an encoder, what a run of calls delivers is composed of legal characters. The numbers
in it denote legal characters, or characters of the texts that have been given to be escaped:
those leave as references, whether they are legal or not. Where characters are asked for by their
numbers, only legal ones are written. -/
theorem composed_of_run (limit : Option Nat) (canFlush : Bool) (settings : Settings)
    (calls : List Call) (blank : IsBlank settings.indentChar)
    (composes : ∀ call ∈ calls, call.Composes)
    (accepts : (create { sink := { limit, canFlush } } settings).Accepts calls) :
    let writer := ((create { sink := { limit, canFlush } } settings).run calls).2
    (∃ text : String, writer.output.delivered = text.toUTF8 ∧
      (∀ character ∈ text.toList, IsChar character) ∧
      Composed (fun character => IsChar character ∨ Given calls character) text.toList ∧
      ((∀ character, Given calls character → IsChar character) → Composed IsChar text.toList)) ∧
    (writer.phase ≠ .closed →
      (∀ code, (∀ character : Char, IsChar character → character.toNat ≠ code) →
        (writer.step (.character code)).1 = .error (.invalidCharacter code)) ∧
      ∀ low high, ¬((0xD800 ≤ high ∧ high ≤ 0xDBFF) ∧ 0xDC00 ≤ low ∧ low ≤ 0xDFFF) →
        ∃ code, (code = high ∨ code = low) ∧
          (writer.step (.surrogates low high)).1 = .error (.invalidCharacter code)) := by
  intro writer
  let start : Writer := create { sink := { limit, canFlush } } settings
  let denotes : Char → Prop := fun character => IsChar character ∨ Given calls character
  have trail : Trail (·.Composes denotes) start writer :=
    trail_of_run (fun _ => Event.composes_of_completes)
      (fun call member _ _ owns => owns.composes (composes call member)
        fun text given character inside => .inr ⟨call, member, text, given, inside⟩)
      accepts
  have ready : start.Ready := ready_create _ settings
  have wholesome : start.draft.Wholesome (.denoting denotes) :=
    Draft.wholesome_of_start ready.layered ready.placed rfl blank
  obtain ⟨events, text, last, path, fine, gets⟩ := trail.ends
  have composed : Composed denotes text.toList :=
    Draft.composed_path (fun _ => .inl) wholesome (fun _ member => nomatch member) fine path
  refine ⟨⟨text, ?_, composed.legal, composed, fun legal => ?_⟩, fun notClosed => ⟨?_, ?_⟩⟩
  · have nothing : start.output.delivered = .empty := rfl
    rw [gets.delivered rfl, nothing, ByteArray.empty_append]
  · exact composed.weaken fun character => Or.rec id (legal character)
  · exact fun code notLegal => step_character_refused notClosed notLegal
  · exact fun low high notPair => step_surrogates_refused notClosed notPair

theorem composed_of_run_control :
    let calls : List Call :=
      [.startElement { localName := "a" }, .text "\u0001<", .comment "b", .character 0xE9]
    (create { sink := {} }).Accepts calls ∧
      ∃ text : String,
        ((create { sink := {} }).run calls).2.output.delivered = text.toUTF8 ∧
          Composed (fun character => IsChar character ∨ Given calls character) text.toList := by
  intro calls
  have blank : IsBlank ({} : Settings).indentChar := by
    rw [IsBlank]
    decide
  have composes : ∀ call ∈ calls, call.Composes := by
    simp only [calls, List.forall_mem_cons]
    have comment : AllLegal "b".toList := by decide
    exact ⟨⟨by decide +kernel, by simp [nonEmpty?]⟩, trivial, comment, trivial, by simp⟩
  have accepts : (create { sink := {} }).Accepts calls := by
    unfold Accepts
    decide +kernel
  obtain ⟨⟨text, wrote, _, composed, _⟩, _⟩ :=
    composed_of_run none true {} calls blank composes accepts
  exact ⟨accepts, text, wrote, composed⟩

/-- A character that is not legal is accepted in text, and leaves as a reference to it, where it
is refused if it is asked for by its number. Where nothing is escaped, it leaves as it is. -/
theorem referred_control :
    let calls : List Call := [.startElement { localName := "a" }, .text "\u0001", .close]
    let verbatim : List Call :=
      [.doctype "a" none (some "\u0001") none, .comment "\u0001", .instruction "b" "\u0001",
        .startElement { localName := "a" }, .cdata "\u0001", .close]
    ((create { sink := {} }).Accepts calls ∧
      ((create { sink := {} }).run calls).2.output.sink.received = "<a>&#x1;</a>".toUTF8 ∧
      ¬IsChar '\u0001' ∧
      (((create { sink := {} }).step (.startElement { localName := "a" })).2.step
        (.character 1)).1 = .error (.invalidCharacter 1)) ∧
    (create { sink := {} }).Accepts verbatim ∧
      ((create { sink := {} }).run verbatim).2.output.sink.received =
        ("<!DOCTYPE a SYSTEM \"\u0001\"><!--\u0001--><?b \u0001?>" ++
          "<a><![CDATA[\u0001]]></a>").toUTF8 := by
  refine ⟨⟨by unfold Accepts; decide +kernel, by decide +kernel, by decide, ?_⟩,
    by unfold Accepts; decide +kernel, by decide +kernel⟩
  rfl

end Writer

end XmlStream
