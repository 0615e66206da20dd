import XmlStream.Proofs.Grammar.Growth
import XmlStream.Proofs.Charset.Transcription
import XmlStream.Proofs.Simulation.Calls

namespace XmlStream

/-! What a character set has to have for a reader not to notice it: all characters of a
document, apart from those in text and in the values of attributes. -/

open Charset Grammar

def Charset.Covers (charset : Charset) (text : String) : Prop :=
  ∀ character ∈ text.toList, charset.Has character

theorem Charset.covers_xml (charset : Charset) : charset.Covers "xml" := by
  have common : ∀ character ∈ "xml".toList, IsCommon character := by decide
  exact fun character member => (common character member).has

theorem Charset.covers_xmlns (charset : Charset) : charset.Covers "xmlns" := by
  have common : ∀ character ∈ "xmlns".toList, IsCommon character := by decide
  exact fun character member => (common character member).has

theorem Charset.covers_generatedPrefix (charset : Charset) (depth number : Nat) :
    charset.Covers (Bindings.generatedPrefix depth number) := by
  intro character member
  have first : IsCommon 'd' := by decide
  have second : IsCommon 'p' := by decide
  rw [Bindings.generatedPrefix_toList] at member
  simp only [List.mem_cons, List.mem_append] at member
  rcases member with rfl | member | rfl | member
  · exact first.has
  · exact (isCommon_of_mem_toDigits member).has
  · exact second.has
  · exact (isCommon_of_mem_toDigits member).has

theorem isNCName_xml : Name.isNCName "xml" = true := by decide +kernel

theorem isNCName_xmlns : Name.isNCName "xmlns" = true := by decide +kernel

def Terms.encodable (charset : Charset) : Terms where
  Named name := Name.isNCName name = true ∧ charset.Covers name
  Uri := Legal
  Indents character := IsChar character ∧ character ≠ '<' ∧ character ≠ '&'
  xml := ⟨isNCName_xml, charset.covers_xml⟩
  xmlns := ⟨isNCName_xmlns, charset.covers_xmlns⟩
  generated depth number :=
    ⟨isNCName_generatedPrefix depth number, charset.covers_generatedPrefix depth number⟩

def Piece.Encodable (charset : Charset) : Piece → Prop
  | .text content => Legal content
  | .entity name => charset.Covers name
  | .raw _ => False
  | .whitespace _ | .character _ | .hexadecimal _ => True

structure EncodableDoctype (charset : Charset) (name : String)
    (publicId systemId subset : Option String) : Prop where
  name : charset.Covers name
  publicId : ∀ literal, publicId = some literal → charset.Covers literal
  systemId : ∀ literal, systemId = some literal → charset.Covers literal
  subset : subset = none

/-- Text is legal, and what is neither text nor the value of an attribute is covered. -/
def Event.Encodable (charset : Charset) : Event → Prop
  | .xmlDeclaration _ _ => False
  | .doctype name publicId systemId subset =>
    EncodableDoctype charset name publicId systemId subset
  | .comment text | .cdata text => charset.Covers text
  | .instruction target text => charset.Covers target ∧ charset.Covers text
  | .startElement asked _ | .startAttribute asked _ => asked.request.Meets (.encodable charset)
  | .write piece _ => piece.Encodable charset
  | .qualify uri _ => Legal uri
  | .configure (.indentChar character) => (Terms.encodable charset).Indents character
  | _ => True

theorem Event.encodable_of_completes {charset : Charset} {event : Event}
    (completes : event.completes) : event.Encodable charset := by
  cases event <;> simp_all [Event.completes, Event.Encodable]

theorem Event.Encodable.meets {charset : Charset} {event : Event}
    (encodable : event.Encodable charset) : event.Meets (.encodable charset) := by
  cases event with
  | startElement | startAttribute | qualify => exact encodable
  | configure setting =>
      cases setting with
      | indentChar => exact encodable
      | _ => trivial
  | _ => trivial

/-- A call asks for names that a set covers and for legal text, and all else that it writes is
covered. Nothing is written raw. -/
def Call.Encodable (charset : Charset) : Call → Prop
  | .setIndentChar chosen => (Terms.encodable charset).Indents chosen
  | .doctype root publicId systemId subset =>
    EncodableDoctype charset root publicId systemId subset
  | .startElement request | .startAttribute request => request.Meets (.encodable charset)
  | .attributeString request value => request.Meets (.encodable charset) ∧ Legal value
  | .elementString request value =>
    request.Meets (.encodable charset) ∧ ∀ text, value = some text → Legal text
  | .cdata content | .comment content => charset.Covers content
  | .instruction target content => charset.Covers target ∧ charset.Covers content
  | .entity referred => charset.Covers referred
  | .text content | .name content | .token content => Legal content
  | .qualifiedName localName uri => Legal localName ∧ ∀ asked, uri = some asked → Legal asked
  | .raw _ => False
  | _ => True

theorem Writer.Owns.encodable {charset : Charset} {writer : Writer} {call : Call}
    {own : List Event} (owns : Owns writer call own) (encodable : call.Encodable charset)
    (undeclared : ∀ standalone, call ≠ .startDocument standalone) :
    ∀ event ∈ own, event.Encodable charset := by
  cases owns with
  | document standalone => exact absurd rfl (undeclared standalone)
  | setting call setting sets =>
      cases sets with
      | indentChar chosen => exact List.forall_mem_singleton.mpr encodable
      | _ => exact List.forall_mem_singleton.mpr trivial
  | piece call piece kind gives =>
      refine List.forall_mem_singleton.mpr ?_
      cases gives with
      | text | name | token | entity => exact encodable
      | qualifiedName => exact encodable.1
      | raw => exact encodable.elim
      | whitespace | hexadecimal | character | surrogates => trivial
  | qualified localName uri =>
      simpa [Event.Encodable, Piece.Encodable] using ⟨encodable.2 uri rfl, encodable.1⟩
  | attributeString request value room pieces went adds =>
      refine List.forall_mem_cons.mpr ⟨encodable.1, ?_⟩
      rcases adds with rfl | ⟨kind, rfl⟩
      · simp
      · exact List.forall_mem_singleton.mpr encodable.2
  | elementString request value room opened pieces went opens adds =>
      refine List.forall_mem_cons.mpr ⟨encodable.1, ?_⟩
      rcases adds with rfl | ⟨content, rfl, rfl⟩
      · simp
      · exact List.forall_mem_singleton.mpr (encodable.2 content rfl)
  | query | flush | noText | endElement | fullEndElement | endAttribute => simp
  | finish | base64 => exact List.forall_mem_singleton.mpr trivial
  | doctype | startElement | startAttribute | cdata | comment | instruction =>
      exact List.forall_mem_singleton.mpr encodable

structure Spelled (charset : Charset) (name : List Char) : Prop where
  named : Grammar.Name name
  has : ∀ character ∈ name, charset.Has character

theorem spelled_writtenName {charset : Charset} {nsPrefix : Option String} {localName : String}
    (prefixed : ∀ given, nsPrefix = some given → (Terms.encodable charset).Named given)
    (named : (Terms.encodable charset).Named localName) :
    Spelled charset (writtenName nsPrefix localName).toList := by
  refine ⟨name_writtenName (fun given stands => (prefixed given stands).1) named.1, ?_⟩
  cases nsPrefix with
  | none => exact named.2
  | some given =>
      have colon : IsCommon ':' := by decide
      intro character member
      simp only [writtenName, String.toList_append, List.mem_append] at member
      rcases member with (member | member) | member
      · exact (prefixed given rfl).2 character member
      · rw [show ":".toList = [':'] from rfl, List.mem_singleton] at member
        rw [member]
        exact colon.has
      · exact named.2 character member

namespace Draft

variable {terms : Terms} {draft after : Draft} {event : Event} {text : String}

/-! ## Names of open elements -/

theorem names_step {Holds : List Char → Prop}
    (spells : ∀ nsPrefix localName, (∀ given, nsPrefix = some given → terms.Named given) →
      terms.Named localName → Holds (writtenName nsPrefix localName).toList)
    (names : ∀ name ∈ draft.names, Holds name) (wholesome : draft.Wholesome terms)
    (meets : event.Meets terms) (step : draft.Step event text after) :
    ∀ name ∈ after.names, Holds name := by
  cases step with
  | xmlDeclaration | line | doctype | comment | instruction | configure | endPayload => exact names
  | cdata =>
      have same : (draft.markMixed).names = draft.names := names_modifyTop rfl
      exact same ▸ names
  | startElement request nsPrefix found _ _ _ _ _ _ written =>
      rcases written.fit (wholesome.fit.push.congr rfl rfl) meets with ⟨_, prefixed⟩
      rw [names_startElement written, List.forall_mem_cons]
      exact ⟨spells _ _ prefixed meets.localName, names⟩
  | startAttribute request nsPrefix kind next found _ _ _ _ written =>
      have same := (written.frames.trans (found.frames_noteAttribute nsPrefix)).names
      have all : (found.noteAttribute nsPrefix).names = draft.names := same
      exact all ▸ names
  | endAttribute next found _ _ applies =>
      have same : found.names = draft.names := by
        split at applies
        · exact applies.frames.names
        · rw [applies]
      exact same ▸ names
  | endStartTag => exact draft.frames_settle.names ▸ names
  | endEmptyTag _ inside =>
      have same : (draft.settle.pop.enter draft.phaseAfterElement).names = draft.pop.names :=
        draft.names_settle_pop
      rw [names_eq_cons inside, List.forall_mem_cons] at names
      exact same ▸ names.2
  | endTag _ inside =>
      rw [names_eq_cons inside, List.forall_mem_cons] at names
      exact names.2
  | write piece next => exact draft.names_enterText next ▸ names
  | qualify uri nsPrefix next found _ _ _ _ _ finds =>
      have same := (finds.frames_noted next).names.trans (draft.names_enterText next)
      exact same ▸ names
  | feed chunk next => exact draft.names_enterText next ▸ names
  | finish => simp [reset, Draft.names]

end Draft

end XmlStream
