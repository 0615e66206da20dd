import XmlStream.Proofs.Text.References
import XmlStream.Text

namespace XmlStream.Grammar

/-! The productions of XML 1.0 for documents with a declaration and without an internal
subset. A production is given by the texts it stands for, and the constraint that the
end tag of an element repeats the name of its start tag is part of it. -/

/-- The texts that a symbol of the grammar stands for. -/
abbrev Production := List Char → Prop

/-- The production `Char`. -/
def IsChar (character : Char) : Prop := CharacterClass.xml.hasChar character = true

instance (character : Char) : Decidable (IsChar character) :=
  inferInstanceAs (Decidable (_ = true))

/-- The characters of the production `S`. -/
def IsBlank (character : Char) : Prop := CharacterClass.blank.hasChar character = true

/-- The production `Char` in code points. The surrogates are no characters to begin with. -/
theorem isChar_iff {character : Char} :
    IsChar character ↔ character.toNat = 0x9 ∨ character.toNat = 0xA ∨ character.toNat = 0xD ∨
      0x20 ≤ character.toNat ∧ character.toNat ≤ 0xD7FF ∨
      0xE000 ≤ character.toNat ∧ character.toNat ≤ 0xFFFD ∨
      0x10000 ≤ character.toNat ∧ character.toNat ≤ 0x10FFFF := by
  simp only [IsChar, CharacterClass.hasChar, CharacterClass.has, CharacterClass.xml, CodeRange.has,
    CodeRange.single, List.any_cons, List.any_nil, Bool.or_eq_true, Bool.and_eq_true,
    decide_eq_true_eq, Bool.false_eq_true, or_false]
  omega

/-- The characters of the production `S` in code points. -/
theorem isBlank_iff {character : Char} :
    IsBlank character ↔ character.toNat = 0x20 ∨ character.toNat = 0x9 ∨ character.toNat = 0xD ∨
      character.toNat = 0xA := by
  simp only [IsBlank, CharacterClass.hasChar, CharacterClass.has, CharacterClass.blank,
    CodeRange.has, CodeRange.single, List.any_cons, List.any_nil, Bool.or_eq_true,
    Bool.and_eq_true, decide_eq_true_eq, Bool.false_eq_true, or_false]
  omega

/-- The production `S`, or nothing. -/
def OptionalSpace : Production := fun text => ∀ character ∈ text, IsBlank character

/-- The production `S`. -/
def Space : Production := fun text => text ≠ [] ∧ OptionalSpace text

inductive Name : Production
  | mk (first : Char) (rest : List Char)
      (start : CharacterClass.nameStart.hasChar first = true)
      (parts : ∀ character ∈ rest, CharacterClass.namePart.hasChar character = true) :
      Name (first :: rest)

/-- The production `Eq`. -/
inductive Equals : Production
  | mk {before after : List Char} (first : OptionalSpace before) (last : OptionalSpace after) :
      Equals (before ++ '=' :: after)

def IsQuote (character : Char) : Prop := character = '"' ∨ character = '\''

/-- The production `Reference`, with references to legal characters only. -/
inductive Reference : Production
  | entity {name : List Char} (named : Name name) : Reference ('&' :: name ++ [';'])
  | decimal {digits : List Char} (character : Char)
      (value : number? 10 digits = some character.toNat) (legal : IsChar character) :
      Reference ("&#".toList ++ digits ++ [';'])
  | hexadecimal {digits : List Char} (character : Char)
      (value : number? 16 digits = some character.toNat) (legal : IsChar character) :
      Reference ("&#x".toList ++ digits ++ [';'])

/-! ## Tags -/

/-- What stands between the quotes of an attribute value. -/
inductive Value (quote : Char) : Production
  | nil : Value quote []
  | character {text : List Char} {character : Char} (earlier : Value quote text)
      (legal : IsChar character) (notLess : character ≠ '<') (notAmpersand : character ≠ '&')
      (notQuote : character ≠ quote) : Value quote (text ++ [character])
  | reference {text reference : List Char} (earlier : Value quote text)
      (refers : Reference reference) : Value quote (text ++ reference)

inductive Attribute : Production
  | mk {name equals value : List Char} {quote : Char} (named : Name name)
      (equates : Equals equals) (quotes : IsQuote quote) (valued : Value quote value) :
      Attribute (name ++ equals ++ quote :: value ++ [quote])

inductive Attributes : Production
  | nil : Attributes []
  | snoc {text space last : List Char} (earlier : Attributes text) (apart : Space space)
      (next : Attribute last) : Attributes (text ++ space ++ last)

/-- The production `STag`, for a name. -/
inductive StartTag (name : List Char) : Production
  | mk {attributes space : List Char} (named : Name name) (attributed : Attributes attributes)
      (last : OptionalSpace space) :
      StartTag name ('<' :: name ++ attributes ++ space ++ ['>'])

/-- The production `EmptyElemTag`. -/
inductive EmptyTag : Production
  | mk {name attributes space : List Char} (named : Name name)
      (attributed : Attributes attributes) (last : OptionalSpace space) :
      EmptyTag ('<' :: name ++ attributes ++ space ++ "/>".toList)

/-- The production `ETag`, for a name. -/
inductive EndTag (name : List Char) : Production
  | mk {space : List Char} (last : OptionalSpace space) :
      EndTag name ("</".toList ++ name ++ space ++ ['>'])

/-! ## Content -/

structure CharData (text : List Char) : Prop where
  legal : ∀ character ∈ text, IsChar character ∧ character ≠ '<' ∧ character ≠ '&'
  noSectionEnd : ¬"]]>".toList <:+: text

/-- What stands in a comment: no two hyphens in a row, and none at the end. -/
inductive CommentText : Production
  | nil : CommentText []
  | character {character : Char} {text : List Char} (legal : IsChar character)
      (notHyphen : character ≠ '-') (rest : CommentText text) : CommentText (character :: text)
  | hyphen {character : Char} {text : List Char} (legal : IsChar character)
      (notHyphen : character ≠ '-') (rest : CommentText text) :
      CommentText ('-' :: character :: text)

inductive Comment : Production
  | mk {text : List Char} (inner : CommentText text) :
      Comment ("<!--".toList ++ text ++ "-->".toList)

/-- The production `PITarget`: a name that does not spell `xml`. -/
structure Target (name : List Char) : Prop where
  named : Name name
  notXml : name.map Char.toLower ≠ "xml".toList

/-- The production `PI`. -/
inductive Instruction : Production
  | bare {target : List Char} (targets : Target target) :
      Instruction ("<?".toList ++ target ++ "?>".toList)
  | text {target space text : List Char} (targets : Target target) (apart : Space space)
      (legal : ∀ character ∈ text, IsChar character) (noEnd : ¬"?>".toList <:+: text) :
      Instruction ("<?".toList ++ target ++ space ++ text ++ "?>".toList)

/-- The production `CDSect`. -/
inductive Section : Production
  | mk {text : List Char} (legal : ∀ character ∈ text, IsChar character)
      (noEnd : ¬"]]>".toList <:+: text) :
      Section ("<![CDATA[".toList ++ text ++ "]]>".toList)

mutual

inductive Element : List Char → Prop
  | empty {text : List Char} (tag : EmptyTag text) : Element text
  | full {name start content finish : List Char} (starts : StartTag name start)
      (holds : Content content) (ends : EndTag name finish) :
      Element (start ++ content ++ finish)

/-- What stands between character data in content. -/
inductive Item : List Char → Prop
  | element {text : List Char} (element : Element text) : Item text
  | reference {text : List Char} (reference : Reference text) : Item text
  | cdata {text : List Char} (cdata : Section text) : Item text
  | instruction {text : List Char} (instruction : Instruction text) : Item text
  | comment {text : List Char} (comment : Comment text) : Item text

inductive Content : List Char → Prop
  | data {text : List Char} (data : CharData text) : Content text
  | snoc {before item after : List Char} (earlier : Content before) (next : Item item)
      (data : CharData after) : Content (before ++ item ++ after)

end

/-! ## Documents -/

inductive Misc : Production
  | comment {text : List Char} (comment : Comment text) : Misc text
  | instruction {text : List Char} (instruction : Instruction text) : Misc text
  | space {text : List Char} (space : Space text) : Misc text

inductive Miscs : Production
  | nil : Miscs []
  | snoc {text last : List Char} (earlier : Miscs text) (misc : Misc last) : Miscs (text ++ last)

/-- A text in quotes that it does not contain. -/
inductive Quoted (inner : Production) : Production
  | mk {quote : Char} {text : List Char} (quotes : IsQuote quote) (holds : inner text)
      (notQuote : quote ∉ text) : Quoted inner (quote :: text ++ [quote])

inductive DeclarationPart (name : String) (inner : Production) : Production
  | mk {space equals value : List Char} (apart : Space space) (equates : Equals equals)
      (valued : Quoted inner value) :
      DeclarationPart name inner (space ++ name.toList ++ equals ++ value)

def Optional (part : Production) : Production := fun text => text = [] ∨ part text

/-- The production `VersionNum`. -/
def VersionNumber : Production := fun text =>
  ∃ digits, text = "1.".toList ++ digits ∧ digits ≠ [] ∧ ∀ digit ∈ digits, digit.isDigit = true

/-- The production `EncName`. -/
def EncodingName : Production := fun text =>
  ∃ first rest, text = first :: rest ∧ first.isAlpha = true ∧
    ∀ character ∈ rest, character.isAlphanum = true ∨ character ∈ "._-".toList

def Standalone : Production := fun text => text = "yes".toList ∨ text = "no".toList

/-- The production `XMLDecl`. -/
inductive XmlDeclaration : Production
  | mk {version encoding standalone space : List Char}
      (versioned : DeclarationPart "version" VersionNumber version)
      (encoded : Optional (DeclarationPart "encoding" EncodingName) encoding)
      (standing : Optional (DeclarationPart "standalone" Standalone) standalone)
      (last : OptionalSpace space) :
      XmlDeclaration
        ("<?xml".toList ++ version ++ encoding ++ standalone ++ space ++ "?>".toList)

/-- The characters of public identifiers. -/
def IsPublicChar (character : Char) : Prop :=
  character.isAlphanum = true ∨ character ∈ " \r\n-'()+,./:=?;!*#@$_%".toList

/-- The production `PubidLiteral`. -/
def PublicLiteral : Production := Quoted fun text => ∀ character ∈ text, IsPublicChar character

def SystemLiteral : Production := Quoted fun text => ∀ character ∈ text, IsChar character

inductive ExternalId : Production
  | system {space literal : List Char} (apart : Space space) (named : SystemLiteral literal) :
      ExternalId ("SYSTEM".toList ++ space ++ literal)
  | publicSystem {first literal second other : List Char} (apart : Space first)
      (named : PublicLiteral literal) (apartToo : Space second) (located : SystemLiteral other) :
      ExternalId ("PUBLIC".toList ++ first ++ literal ++ second ++ other)

/-- The production `doctypedecl`, without an internal subset. -/
inductive Doctype : Production
  | bare {first name last : List Char} (apart : Space first) (named : Name name)
      (ends : OptionalSpace last) : Doctype ("<!DOCTYPE".toList ++ first ++ name ++ last ++ ['>'])
  | external {first name second identifier last : List Char} (apart : Space first)
      (named : Name name) (apartToo : Space second) (identified : ExternalId identifier)
      (ends : OptionalSpace last) :
      Doctype ("<!DOCTYPE".toList ++ first ++ name ++ second ++ identifier ++ last ++ ['>'])

/-- The production `prolog` as far as the document type, with a declaration. -/
inductive Opening : Production
  | mk {declaration miscs : List Char} (declares : XmlDeclaration declaration)
      (mixed : Miscs miscs) : Opening (declaration ++ miscs)

/-- The production `prolog` with a document type. -/
inductive TypedProlog : Production
  | mk {opening doctype miscs : List Char} (opens : Opening opening) (typed : Doctype doctype)
      (mixed : Miscs miscs) : TypedProlog (opening ++ doctype ++ miscs)

/-- The production `document`, with a declaration. -/
inductive Document : Production
  | mk {prolog root miscs : List Char} (opens : Opening prolog ∨ TypedProlog prolog)
      (element : Element root) (mixed : Miscs miscs) : Document (prolog ++ root ++ miscs)

/-! ## Fragments -/

/-- What would be a processing instruction if its target did not spell `xml`. -/
inductive XmlInstruction : Production
  | bare {target : List Char} (named : Name target)
      (spells : target.map Char.toLower = "xml".toList) :
      XmlInstruction ("<?".toList ++ target ++ "?>".toList)
  | text {target space text : List Char} (named : Name target)
      (spells : target.map Char.toLower = "xml".toList) (apart : Space space)
      (legal : ∀ character ∈ text, IsChar character) (noEnd : ¬"?>".toList <:+: text) :
      XmlInstruction ("<?".toList ++ target ++ space ++ text ++ "?>".toList)

inductive TypedOpening : Production
  | mk {first before doctype after : List Char} (begins : Optional XmlInstruction first)
      (mixed : Miscs before) (typed : Doctype doctype) (mixedToo : Miscs after) :
      TypedOpening (first ++ before ++ doctype ++ after)

/-- What may stand before the content of a fragment: nothing or an instruction, a document
type with an element, or one attribute. -/
inductive Head : Production
  | plain {text : List Char} (begins : Optional XmlInstruction text) : Head text
  | typed {opening root : List Char} (opens : TypedOpening opening) (element : Element root) :
      Head (opening ++ root)
  | single {text : List Char} (single : Attribute text) : Head text

/-- A part of a document that stands on its own. -/
inductive Fragment : Production
  | content {head content : List Char} (begins : Head head) (holds : Content content) :
      Fragment (head ++ content)
  | typed {text : List Char} (opens : TypedOpening text) : Fragment text

end XmlStream.Grammar
