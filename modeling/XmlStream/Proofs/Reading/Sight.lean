import XmlStream.Proofs.Reading.Encodable
import XmlStream.Proofs.Reading.Markup
import XmlStream.Proofs.Reading.Namespaces

namespace XmlStream

/-! What a reader sees of the steps of a document: which tags they begin, continue and end. All
else is text and markup between tags, and the values of attributes. -/

open Grammar Reading

def Terms.plain : Terms where
  Named name := Name.isNCName name = true
  Uri _ := True
  Indents character := character ≠ '<' ∧ character ≠ '&'
  xml := Terms.wellFormed.xml
  xmlns := Terms.wellFormed.xmlns
  generated := isNCName_generatedPrefix

def Terms.indenting (indents : Char → Prop) : Terms := { Terms.plain with Indents := indents }

/-- An attribute is asked for by the name of a declaration, with a prefix, and in no namespace.
The prefix is dropped then, and what is written looks like a declaration. -/
def NameRequest.Disguised (request : NameRequest) : Prop :=
  request.localName = "xmlns" ∧ request.uri = some "" ∧
    ∃ given, nonEmpty? request.nsPrefix = some given ∧ given ≠ "xml" ∧ given ≠ "xmlns"

def Piece.parts : Piece → List Part
  | .text content | .whitespace content | .raw content => content.toList.map .character
  | .entity name =>
    [((predefined? name.toList).map Part.character).getD (.entity name.toList)]
  | .character code => [.character code]
  | .hexadecimal bytes => (Hexadecimal.encode bytes).map .character

/-- A piece is not raw, and in a declaration it is no reference to a predefined entity, which a
reader would resolve. -/
def Piece.Readable (kind : Option SpecialKind) : Piece → Prop
  | .raw _ => False
  | .entity name =>
    ∀ nsPrefix, kind = some (.declaration nsPrefix) → predefined? name.toList = none
  | .text _ | .whitespace _ | .character _ | .hexadecimal _ => True

/-- An event with names without a colon, nothing raw but a subset that is complete in itself,
and with namespaces. -/
def Event.Readable : Event → Prop
  | .xmlDeclaration encoding _ =>
    ∀ name, encoding = some name → ∃ charset : Charset, name = charset.name
  | .doctype _ _ _ subset => ∀ text, subset = some text → Enclosed text.toList
  | .startElement asked _ => asked.request.Meets .plain
  | .startAttribute asked _ => asked.request.Meets .plain ∧ ¬asked.request.Disguised
  | .write piece kind => piece.Readable kind
  | .configure setting => setting ≠ .namespaces false ∧
    ∀ character, setting = .indentChar character → Terms.plain.Indents character
  | _ => True

/-- An event with names without a colon, and with namespaces. A declaration is read as it is written,
what is written elsewhere need not be. -/
def Event.Named : Event → Prop
  | .xmlDeclaration encoding _ =>
    ∀ name, encoding = some name → ∃ charset : Charset, name = charset.name
  | .startElement asked _ => asked.request.Meets .plain
  | .startAttribute asked _ => asked.request.Meets .plain ∧ ¬asked.request.Disguised
  | .write piece kind => ∀ nsPrefix, kind = some (.declaration nsPrefix) → piece.Readable kind
  | .configure setting => setting ≠ .namespaces false
  | _ => True

theorem Event.Readable.named {event : Event} (readable : event.Readable) : event.Named := by
  cases event with
  | xmlDeclaration | startElement | startAttribute => exact readable
  | write => exact fun _ _ => readable
  | configure => exact readable.1
  | _ => trivial

theorem Event.Named.ne_namespaces {event : Event} (named : event.Named) :
    event ≠ .configure (.namespaces false) := by
  rintro rfl
  exact named rfl

/-- An event neither asks for a name nor ends a document. -/
def Event.Quiet : Event → Prop
  | .startElement _ _ | .startAttribute _ _ | .finish => False
  | _ => True

/-- An event that can be read, whether or not its attribute is taken for a declaration. -/
def Event.Legible : Event → Prop
  | .startAttribute asked _ => asked.request.Meets .plain
  | event => event.Readable

theorem Event.Readable.legible {event : Event} (readable : event.Readable) : event.Legible := by
  cases event with
  | startAttribute => exact readable.1
  | _ => exact readable

theorem Event.Legible.meets {event : Event} (legible : event.Legible) : event.Meets .plain := by
  cases event with
  | startElement | startAttribute => exact legible
  | configure setting =>
      cases setting with
      | indentChar character => exact legible.2 character rfl
      | _ => trivial
  | _ => trivial

theorem Event.Legible.ne_namespaces {event : Event} (legible : event.Legible) :
    event ≠ .configure (.namespaces false) := by
  rintro rfl
  exact legible.1 rfl

theorem Event.readable_of_completes {event : Event} (completes : event.completes) :
    event.Readable := by
  cases event <;> simp_all [Event.completes, Event.Readable]

namespace Reading

inductive View
  | between
  | tag (tag : StartTag)
  | value (tag : StartTag) (name : List Char) (parts : List Part)

/-- What a reader sees from its place, when a document has come to a phase. -/
inductive Sees (quote : Quote) : Phase → Place → View → Prop
  | between {phase : Phase} (notElement : phase ≠ .element) (notAttribute : phase ≠ .attribute) :
      Sees quote phase (.text .content) .between
  | tag {tag : StartTag} {place : Place} (inTag : InTag tag place) :
      Sees quote .element place (.tag tag)
  | value (tag : StartTag) (name : List Char) (parts : List Part) :
      Sees quote .attribute (.text (.value tag name quote parts)) (.value tag name parts)

structure Sight where
  view : View
  nesting : Nesting

section Sees

variable {quote : Quote} {phase : Phase} {place : Place} {view : View}

theorem Sees.of_between (sees : Sees quote phase place view) (notElement : phase ≠ .element)
    (notAttribute : phase ≠ .attribute) : place = .text .content ∧ view = .between := by
  cases sees with
  | between => exact ⟨rfl, rfl⟩
  | tag => exact absurd rfl notElement
  | value => exact absurd rfl notAttribute

theorem Sees.of_tag (sees : Sees quote .element place view) :
    ∃ tag, view = .tag tag ∧ InTag tag place := by
  cases sees with
  | between notElement => exact absurd rfl notElement
  | tag inTag => exact ⟨_, rfl, inTag⟩

theorem Sees.of_value (sees : Sees quote .attribute place view) :
    ∃ tag name parts, view = .value tag name parts ∧
      place = .text (.value tag name quote parts) := by
  cases sees with
  | between _ notAttribute => exact absurd rfl notAttribute
  | value => exact ⟨_, _, _, rfl, rfl⟩

theorem Sees.requote (sees : Sees quote phase place view) (chosen : Quote)
    (notAttribute : phase ≠ .attribute) : Sees chosen phase place view := by
  cases sees with
  | between notElement => exact .between notElement notAttribute
  | tag inTag => exact .tag inTag
  | value => exact absurd rfl notAttribute

end Sees

theorem foldl_add_text (parts : List Part) (nesting : Nesting) :
    (parts.map Item.text).foldl Nesting.add nesting = nesting := by
  induction parts with
  | nil => rfl
  | cons part rest induction => exact induction

theorem valueText_parts {piece : Piece} {kind : Option SpecialKind} (readable : piece.Readable kind)
    {nsPrefix : Option String} (declares : kind = some (.declaration nsPrefix)) :
    valueText piece.parts = piece.value := by
  cases piece with
  | text | whitespace => simp [Piece.parts, Piece.value, valueText_map_character]
  | entity name =>
      simp [Piece.parts, Piece.value, readable nsPrefix declares, valueText, Part.text,
        entityReference, String.ofList_append, ← String.toList_inj]
  | character code => simp [Piece.parts, Piece.value, valueText, Part.text]
  | hexadecimal bytes => exact valueText_map_character _
  | raw => exact readable.elim

theorem spells_written {quote? : Option Quote} {position : TextPosition} {piece : Piece}
    {kind : Option SpecialKind} {form : Name.Form} {namespaces : Bool}
    (readable : piece.Readable kind)
    (named : ∀ name, piece = .entity name → Name.isUsable form namespaces name = true)
    (suits : Suits position quote?) :
    Spells quote? (piece.written position).toList piece.parts := by
  cases piece with
  | text content | whitespace content => exact spells_escaped suits content
  | entity name =>
      have isName := name_of_isUsable (named name rfl)
      refine spells_entityReference isName ?_
      cases predefined : predefined? name.toList with
      | none => exact resolve?_entity isName predefined
      | some character => exact resolve?_predefined predefined
  | character code => exact spells_hexReference code
  | hexadecimal bytes =>
      simp only [Piece.written, String.toList_ofList]
      exact spells_of_plain plain_of_mem_hexadecimal
  | raw => exact readable.elim

end Reading

namespace Draft

def owedAttributes (draft : Draft) : List (List Char × List Part) :=
  (draft.scope.owed draft.top.bindingMark).map (fun entry =>
    (declarationName (some entry.1.nsPrefix), entry.1.uri.toList.map .character)) ++
    if draft.owesDefault then
      [(declarationName none, draft.top.defaultUri.toList.map .character)]
    else []

/-- Where the bindings of an element begin, and its default namespace, for all open elements. -/
def layers (draft : Draft) : List (Nat × String) :=
  draft.elements.opened.map fun element => (element.bindingMark, element.defaultUri)

structure Still (before after : Draft) : Prop where
  scope : after.scope = before.scope
  layers : after.layers = before.layers
  start : after.phase = .start → before.phase = .start

/-- What a reader sees of a step: how the tags change, and what has become of the names. -/
inductive Shows (draft : Draft) : Event → Sight → Draft → Sight → Prop
  | between (event : Event) (nesting : Nesting) (after : Draft) (quiet : event.Quiet)
      (still : draft.Still after) : Shows draft event ⟨.between, nesting⟩ after ⟨.between, nesting⟩
  | topAttribute (asked : AskedName) (relied : Bool) (nesting : Nesting) (after : Draft)
      (start : draft.phase = .start) (still : draft.Still after) :
      Shows draft (.startAttribute asked relied) ⟨.between, nesting⟩ after ⟨.between, nesting⟩
  | configure (setting : Setting) (sight : Sight) (notBetween : sight.view ≠ .between) :
      Shows draft (.configure setting) sight
        { draft with settings := setting.apply draft.settings } sight
  | startElement (request : NameRequest) (nsPrefix : Option String) (found : Draft)
      (owes : Bool) (nesting : Nesting) (notXmlns : request.nsPrefix ≠ some "xmlns")
      (names : (draft.push.enter .element).NamesElement request nsPrefix found) :
      Shows draft (.startElement (draft.asked request) owes) ⟨.between, nesting⟩
        (found.modifyTop fun element => { element with name := request.localName, nsPrefix })
        ⟨.tag { name := (writtenName nsPrefix request.localName).toList }, nesting⟩
  | startAttribute (request : NameRequest) (nsPrefix : Option String)
      (kind : Option SpecialKind) (found : Draft) (relied : Bool) (tag : StartTag)
      (nesting : Nesting)
      (names : (draft.enter .attribute).NamesAttribute request nsPrefix kind found) :
      Shows draft (.startAttribute (draft.asked request) relied) ⟨.tag tag, nesting⟩
        { found.noteAttribute nsPrefix with special := kind.map fun kind => { kind } }
        ⟨.value tag (writtenName nsPrefix request.localName).toList [], nesting⟩
  | endAttribute (found : Draft) (tag : StartTag) (name : List Char) (parts : List Part)
      (nesting : Nesting)
      (applies : match draft.special with
        | some special => Applies { draft with special := none } special found
        | none => found = draft) :
      Shows draft .endAttribute ⟨.value tag name parts, nesting⟩ (found.enter .element)
        ⟨.tag (tag.add name parts), nesting⟩
  | fill (event : Event) (text : String) (more : List Part) (after : Draft) (tag : StartTag)
      (name : List Char) (parts : List Part) (nesting : Nesting)
      (quiet : event.Quiet) (scope : after.scope = draft.scope)
      (elements : after.elements = draft.elements)
      (special : after.special = (draft.capture text).special)
      (spells : ∀ nsPrefix, draft.special.map (·.kind) = some (.declaration nsPrefix) →
        valueText more = text) :
      Shows draft event ⟨.value tag name parts, nesting⟩ after
        ⟨.value tag name (parts ++ more), nesting⟩
  | qualify (uri nsPrefix : String) (kind : Option SpecialKind) (found : Draft) (tag : StartTag)
      (name : List Char) (parts : List Part) (nesting : Nesting)
      (finds : draft.QualifiesText uri nsPrefix found) :
      Shows draft (.qualify uri kind) ⟨.value tag name parts, nesting⟩
        ((found.notePrefix nsPrefix).capture (nsPrefix ++ ":"))
        ⟨.value tag name (parts ++ (nsPrefix ++ ":").toList.map .character), nesting⟩
  | endStartTag (tag : StartTag) (nesting : Nesting) :
      Shows draft .endStartTag ⟨.tag tag, nesting⟩ (draft.settle.enter .content)
        ⟨.between, nesting.add (.startTag (tag.addAll draft.owedAttributes))⟩
  | endEmptyTag (tag : StartTag) (nesting : Nesting) :
      Shows draft .endEmptyTag ⟨.tag tag, nesting⟩
        (draft.settle.pop.enter draft.phaseAfterElement)
        ⟨.between, nesting.add (.emptyTag (tag.addAll draft.owedAttributes))⟩
  | endTag (name : List Char) (nesting : Nesting) (inside : 0 < draft.depth) :
      Shows draft .endTag ⟨.between, nesting⟩ (draft.pop.enter draft.phaseAfterElement)
        ⟨.between, nesting.add (.endTag name)⟩
  | finish (nesting : Nesting) (outside : draft.depth = 0) :
      Shows draft .finish ⟨.between, nesting⟩ draft.reset ⟨.between, nesting⟩

end Draft

end XmlStream
