import XmlStream.Proofs.Grammar.Pieces

namespace XmlStream.Grammar

/-! The parts of any text that is written: characters, references, begins of tags, and constructs
in which there are no references. All of them consist of legal characters. -/

/-! ## Parts of a text -/

inductive Identifiers : Production
  | none : Identifiers []
  | system {literal : List Char} (located : SystemLiteral literal) :
      Identifiers (" SYSTEM ".toList ++ literal)
  | publicSystem {literal other : List Char} (named : SystemLiteral literal)
      (located : SystemLiteral other) :
      Identifiers (" PUBLIC ".toList ++ literal ++ ' ' :: other)

/-- The constructs in which there are no references. -/
inductive Verbatim : Production
  | declaration {text : List Char} (declares : XmlDeclaration text) : Verbatim text
  | doctype {name identifiers : List Char} (named : Name name)
      (identified : Identifiers identifiers) :
      Verbatim ("<!DOCTYPE ".toList ++ name ++ identifiers ++ ['>'])
  | comment {text : List Char} (comment : Comment text) : Verbatim text
  | instruction {text : List Char} (instruction : Instruction text) : Verbatim text
  | xmlInstruction {text : List Char} (instruction : XmlInstruction text) : Verbatim text
  | cdata {text : List Char} (cdata : Section text) : Verbatim text

/-- A part of a text. The numbers in it denote certain characters. -/
inductive Part (denotes : Char → Prop) : Production
  | character {character : Char} (legal : IsChar character) (notLess : character ≠ '<')
      (notAmpersand : character ≠ '&') : Part denotes [character]
  | startTag {name : List Char} (named : Name name) : Part denotes ('<' :: name)
  | endTag {name : List Char} (named : Name name) : Part denotes ("</".toList ++ name)
  | entity {name : List Char} (named : Name name) : Part denotes ('&' :: name ++ [';'])
  | number {digits : List Char} {character : Char}
      (value : number? 16 digits = some character.toNat) (denoted : denotes character) :
      Part denotes ("&#x".toList ++ digits ++ [';'])
  | verbatim {text : List Char} (verbatim : Verbatim text) : Part denotes text

inductive Composed (denotes : Char → Prop) : Production
  | nil : Composed denotes []
  | snoc {text last : List Char} (earlier : Composed denotes text) (next : Part denotes last) :
      Composed denotes (text ++ last)

variable {denotes : Char → Prop} {text more : List Char}

theorem Part.composed (part : Part denotes text) : Composed denotes text := by
  simpa using Composed.nil.snoc part

theorem Composed.append (earlier : Composed denotes text) (later : Composed denotes more) :
    Composed denotes (text ++ more) := by
  induction later with
  | nil => simpa using earlier
  | snoc _ next induction =>
      rw [← List.append_assoc]
      exact induction.snoc next

theorem Composed.weaken {others : Char → Prop} (composed : Composed denotes text)
    (implies : ∀ character, denotes character → others character) : Composed others text := by
  induction composed with
  | nil => exact .nil
  | snoc _ next induction =>
      refine induction.snoc ?_
      cases next with
      | character legal notLess notAmpersand => exact .character legal notLess notAmpersand
      | startTag named => exact .startTag named
      | endTag named => exact .endTag named
      | entity named => exact .entity named
      | number value denoted => exact .number value (implies _ denoted)
      | verbatim verbatim => exact .verbatim verbatim

theorem composed_of_characters
    (all : ∀ character ∈ text, IsChar character ∧ character ≠ '<' ∧ character ≠ '&') :
    Composed denotes text := by
  induction text with
  | nil => exact .nil
  | cons first rest induction =>
      rw [List.forall_mem_cons] at all
      obtain ⟨⟨legal, notLess, notAmpersand⟩, later⟩ := all
      exact (Part.character legal notLess notAmpersand).composed.append (induction later)

theorem composed_of_plain (plain : ∀ character ∈ text, Plain character) : Composed denotes text :=
  composed_of_characters fun character member =>
    ⟨(plain character member).legal, (plain character member).notLess,
      (plain character member).notAmpersand⟩

theorem composed_of_blank (blank : OptionalSpace text) : Composed denotes text :=
  composed_of_plain fun character member => plain_of_isBlank (blank character member)

/-! ## What productions consist of -/

abbrev AllLegal (text : List Char) : Prop := ∀ character ∈ text, IsChar character

theorem AllLegal.nil : AllLegal [] := by simp [AllLegal]

theorem AllLegal.append (first : AllLegal text) (last : AllLegal more) : AllLegal (text ++ more) :=
  List.forall_mem_append.mpr ⟨first, last⟩

theorem AllLegal.cons {character : Char} (first : IsChar character) (last : AllLegal text) :
    AllLegal (character :: text) :=
  List.forall_mem_cons.mpr ⟨first, last⟩

theorem Name.legal (named : Name text) : AllLegal text :=
  fun character member => CharacterClass.xml_of_namePart (named.parts character member)

theorem OptionalSpace.legal (space : OptionalSpace text) : AllLegal text :=
  fun character member => isChar_of_isBlank (space character member)

theorem IsQuote.legal {quote : Char} (quotes : IsQuote quote) : IsChar quote := by
  obtain rfl | rfl := quotes <;> decide

theorem Quoted.legal {inner : Production} (legal : ∀ text, inner text → AllLegal text)
    (quoted : Quoted inner text) : AllLegal text := by
  obtain ⟨quotes, holds⟩ := quoted
  exact .append (.cons quotes.legal (legal _ holds)) (.cons quotes.legal .nil)

theorem SystemLiteral.legal (located : SystemLiteral text) : AllLegal text :=
  Quoted.legal (fun _ holds => holds) located

theorem CommentText.legal (inner : CommentText text) : AllLegal text := by
  have hyphen : IsChar '-' := by decide
  induction inner with
  | nil => exact .nil
  | character legal _ _ induction => exact .cons legal induction
  | hyphen legal _ _ induction => exact .cons hyphen (.cons legal induction)

theorem Comment.legal (comment : Comment text) : AllLegal text := by
  obtain ⟨inner⟩ := comment
  exact .append (.append (by decide) inner.legal) (by decide)

theorem Instruction.legal (instruction : Instruction text) : AllLegal text := by
  cases instruction with
  | bare targets => exact .append (.append (by decide) targets.named.legal) (by decide)
  | text targets apart legal =>
      have named := targets.named.legal
      exact .append (.append (.append (.append (by decide) named) apart.2.legal) legal) (by decide)

theorem XmlInstruction.legal (instruction : XmlInstruction text) : AllLegal text := by
  cases instruction with
  | bare named => exact .append (.append (by decide) named.legal) (by decide)
  | text named _ apart legal =>
      exact .append (.append (.append (.append (by decide) named.legal) apart.2.legal) legal)
        (by decide)

theorem Section.legal (cdata : Section text) : AllLegal text := by
  obtain ⟨legal⟩ := cdata
  exact .append (.append (by decide) legal) (by decide)

theorem Identifiers.legal (identifiers : Identifiers text) : AllLegal text := by
  cases identifiers with
  | none => exact .nil
  | system located => exact .append (by decide) located.legal
  | publicSystem named located =>
      exact .append (.append (by decide) named.legal) (.cons (by decide) located.legal)

/-! The declaration of a document has letters and digits in it. -/

theorem isChar_of_isAlphanum {character : Char} (alphanum : character.isAlphanum = true) :
    IsChar character := by
  have ranges : character.isAlphanum =
      ((character.val ≥ 'A'.val ∧ character.val ≤ 'Z'.val ||
          character.val ≥ 'a'.val && character.val ≤ 'z'.val) ||
        character.val ≥ '0'.val && character.val ≤ '9'.val) := rfl
  simp only [ranges, Bool.or_eq_true, Bool.and_eq_true, decide_eq_true_eq, ge_iff_le,
    UInt32.le_iff_toNat_le, Char.reduceVal, UInt32.reduceToNat] at alphanum
  exact isChar_of_printable (by rw [Char.toNat]; omega) (by rw [Char.toNat]; omega)

theorem VersionNumber.legal (version : VersionNumber text) : AllLegal text := by
  obtain ⟨digits, rfl, -, all⟩ := version
  refine .append (by decide) fun digit member => isChar_of_isAlphanum ?_
  simp [Char.isAlphanum, all digit member]

theorem EncodingName.legal (encoding : EncodingName text) : AllLegal text := by
  obtain ⟨first, rest, rfl, letter, all⟩ := encoding
  have marks : AllLegal "._-".toList := by decide
  refine .cons (isChar_of_isAlphanum (by simp [Char.isAlphanum, letter])) fun character member => ?_
  exact (all character member).elim isChar_of_isAlphanum (marks character)

theorem Standalone.legal (standalone : Standalone text) : AllLegal text := by
  obtain rfl | rfl := standalone <;> decide

theorem Equals.legal (equates : Equals text) : AllLegal text := by
  obtain ⟨first, last⟩ := equates
  exact .append first.legal (.cons (by decide) last.legal)

theorem DeclarationPart.legal {name : String} {inner : Production} (named : AllLegal name.toList)
    (legal : ∀ text, inner text → AllLegal text) (part : DeclarationPart name inner text) :
    AllLegal text := by
  obtain ⟨apart, equates, valued⟩ := part
  exact .append (.append (.append apart.2.legal named) equates.legal) (valued.legal legal)

theorem Optional.legal {part : Production} (legal : ∀ text, part text → AllLegal text)
    (optional : Optional part text) : AllLegal text := by
  obtain rfl | stands := optional
  · exact .nil
  · exact legal _ stands

theorem XmlDeclaration.legal (declares : XmlDeclaration text) : AllLegal text := by
  obtain ⟨versioned, encoded, standing, last⟩ := declares
  have version := versioned.legal (by decide) fun _ => VersionNumber.legal
  have encoding := encoded.legal fun _ =>
    DeclarationPart.legal (by decide) fun _ => EncodingName.legal
  have standalone := standing.legal fun _ =>
    DeclarationPart.legal (by decide) fun _ => Standalone.legal
  exact .append (.append (.append (.append (.append (by decide) version) encoding) standalone)
    last.legal) (by decide)

theorem Verbatim.legal (verbatim : Verbatim text) : AllLegal text := by
  cases verbatim with
  | declaration declares => exact declares.legal
  | doctype named identified =>
      exact .append (.append (.append (by decide) named.legal) identified.legal) (by decide)
  | comment comment => exact comment.legal
  | instruction instruction => exact instruction.legal
  | xmlInstruction instruction => exact instruction.legal
  | cdata cdata => exact cdata.legal

theorem Part.legal {denotes : Char → Prop} (part : Part denotes text) : AllLegal text := by
  cases part with
  | character legal => exact .cons legal .nil
  | startTag named => exact .cons (by decide) named.legal
  | endTag named => exact .append (by decide) named.legal
  | entity named => exact .append (.cons (by decide) named.legal) (by decide)
  | number value => exact isChar_of_mem_reference (by decide) value
  | verbatim verbatim => exact verbatim.legal

theorem Composed.legal {denotes : Char → Prop} (composed : Composed denotes text) :
    AllLegal text := by
  induction composed with
  | nil => exact .nil
  | snoc _ next induction => exact induction.append next.legal

end XmlStream.Grammar
