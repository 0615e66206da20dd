import XmlStream.Proofs.Grammar.Productions
import XmlStream.Proofs.Text.Names
import XmlStream.Proofs.Text.Payloads

namespace XmlStream.Grammar

/-! What is written between two markups, as productions: escaped text, references,
payloads, and the texts of comments, instructions and sections. -/

/-! ## Characters and names -/

def Legal (text : String) : Prop := ∀ character ∈ text.toList, IsChar character

theorem legal_of_all {text : String} (all : text.toList.all CharacterClass.xml.hasChar = true) :
    Legal text := by
  simpa [Legal, IsChar] using all

theorem isChar_of_isBlank {character : Char} (blank : IsBlank character) : IsChar character := by
  rw [isBlank_iff] at blank
  rw [isChar_iff]
  omega

theorem isQuote_char (quote : Quote) : IsQuote quote.char := by
  cases quote <;> simp [IsQuote, Quote.char]

theorem space_single : Space [' '] := by
  refine ⟨by simp, ?_⟩
  simp only [OptionalSpace, List.mem_singleton, forall_eq, IsBlank]
  decide

theorem optionalSpace_nil : OptionalSpace [] := by simp [OptionalSpace]

theorem equals_single : Equals ['='] :=
  Equals.mk optionalSpace_nil optionalSpace_nil

theorem name_of_isNCName {text : String} (named : XmlStream.Name.isNCName text = true) :
    Name text.toList := by
  obtain ⟨first, rest, whole, start, parts⟩ := Name.toList_of_isNCName named
  rw [whole]
  exact .mk first rest (CharacterClass.nameStart_of_ncNameStart start)
    fun character member => CharacterClass.namePart_of_ncNamePart (parts character member)

theorem Name.parts {name : List Char} (named : Name name) :
    ∀ character ∈ name, CharacterClass.namePart.hasChar character = true := by
  rcases named with ⟨first, rest, start, parts⟩
  simp only [List.mem_cons, forall_eq_or_imp]
  exact ⟨CharacterClass.namePart_of_nameStart start, parts⟩

theorem Name.notMem {name : List Char} (named : Name name) {other : Char}
    (notPart : CharacterClass.namePart.hasChar other = false) : other ∉ name := by
  intro member
  rw [named.parts other member] at notPart
  cases notPart

theorem Name.append {name more : List Char} (named : Name name)
    (parts : ∀ character ∈ more, CharacterClass.namePart.hasChar character = true) :
    Name (name ++ more) := by
  obtain ⟨first, rest, start, earlier⟩ := named
  refine .mk first (rest ++ more) start fun character member => ?_
  obtain member | member := List.mem_append.mp member
  · exact earlier character member
  · exact parts character member

theorem name_writtenName {nsPrefix : Option String} {localName : String}
    (prefixed : ∀ given, nsPrefix = some given → XmlStream.Name.isNCName given = true)
    (named : XmlStream.Name.isNCName localName = true) :
    Name (writtenName nsPrefix localName).toList := by
  cases nsPrefix with
  | none => exact name_of_isNCName named
  | some given =>
      simp only [writtenName, String.toList_append]
      have first := name_of_isNCName (prefixed given rfl)
      refine (first.append ?_).append fun character member =>
        CharacterClass.namePart_of_ncNamePart (Name.ncNamePart_of_isNCName named character member)
      decide

theorem name_of_isName {text : String} (named : XmlStream.Name.isName text = true) :
    Name text.toList := by
  unfold XmlStream.Name.isName at named
  cases found : text.toList with
  | nil => simp [found] at named
  | cons first rest =>
      simp only [found, Bool.and_eq_true, List.all_eq_true] at named
      exact .mk first rest named.1 named.2

theorem name_of_isUsable {form : XmlStream.Name.Form} {namespaces : Bool} {text : String}
    (usable : XmlStream.Name.isUsable form namespaces text = true) : Name text.toList := by
  unfold XmlStream.Name.isUsable at usable
  split at usable
  · simp at usable
  rename_i nonEmpty
  split at usable
  · exact name_of_isName usable
  cases found : text.toList with
  | nil => exact absurd (String.toList_eq_nil_iff.mp found) nonEmpty
  | cons first rest =>
      by_cases start : CharacterClass.ncNameStart.hasChar first = true
      · have split := List.takeWhile_append_dropWhile
          (p := CharacterClass.ncNamePart.hasChar) (l := rest)
        have head : Name (first :: rest.takeWhile CharacterClass.ncNamePart.hasChar) := by
          refine .mk first _ (CharacterClass.nameStart_of_ncNameStart start) fun character member => ?_
          have all := List.all_takeWhile (p := CharacterClass.ncNamePart.hasChar) (l := rest)
          rw [List.all_eq_true] at all
          exact CharacterClass.namePart_of_ncNamePart (all character member)
        have tail : ∀ character ∈ rest.dropWhile CharacterClass.ncNamePart.hasChar,
            CharacterClass.namePart.hasChar character = true := by
          have dropped : (first :: rest).drop
              (first :: rest.takeWhile CharacterClass.ncNamePart.hasChar).length =
              rest.dropWhile CharacterClass.ncNamePart.hasChar := by
            rw [List.length_cons, List.drop_succ_cons]
            have left : (rest.takeWhile CharacterClass.ncNamePart.hasChar ++
                rest.dropWhile CharacterClass.ncNamePart.hasChar).drop
                  (rest.takeWhile CharacterClass.ncNamePart.hasChar).length = _ := List.drop_left
            rwa [split] at left
          simp only [found, XmlStream.Name.ncNameHead, start, if_true, dropped] at usable
          split at usable
          · rename_i nothing
            simp [nothing]
          · rename_i separator rest divided
            simp only [Bool.and_eq_true, beq_iff_eq, List.all_eq_true] at usable
            rw [divided]
            simp only [List.mem_cons, forall_eq_or_imp]
            refine ⟨?_, fun character member =>
              CharacterClass.namePart_of_ncNamePart (usable.2 character member)⟩
            rw [usable.1.1.2]
            decide
        have whole := head.append tail
        rwa [List.cons_append, split] at whole
      · simp [found, XmlStream.Name.ncNameHead, start] at usable

/-! ## References -/

theorem isChar_of_printable {character : Char} (large : 0x20 ≤ character.toNat)
    (small : character.toNat < 0x80) : IsChar character := by
  rw [isChar_iff]
  omega

theorem isChar_of_digitValue? {digit : Char} (isDigit : (digitValue? digit).isSome) :
    IsChar digit :=
  isChar_of_printable (printable_of_digitValue? isDigit).1 (printable_of_digitValue? isDigit).2

/-- References consist of legal characters, whatever they stand for. -/
theorem isChar_of_mem_reference {lead digits : List Char} {base number : Nat}
    (leads : ∀ character ∈ lead, IsChar character) (value : number? base digits = some number) :
    ∀ character ∈ lead ++ digits ++ [';'], IsChar character := by
  have semicolon : IsChar ';' := by
    unfold IsChar
    decide
  intro character member
  rw [List.mem_append, List.mem_append, List.mem_singleton] at member
  rcases member with (member | member) | rfl
  · exact leads character member
  · exact isChar_of_digitValue? (isSome_digitValue? value character member)
  · exact semicolon

theorem reference_entity {name : String} (named : Name name.toList) :
    Reference (entityReference name).toList := by
  have reference := Reference.entity named
  simpa [entityReference] using reference

theorem reference_hexReference {character : Char} (legal : IsChar character) :
    Reference (hexReference character).toList := by
  have reference := Reference.hexadecimal character (number?_upperHex character.toNat) legal
  simpa [hexReference] using reference

theorem name_of_predefined? {name : List Char} {character : Char}
    (predefined : predefined? name = some character) : Name name := by
  unfold predefined? at predefined
  split at predefined
  · rename_i same
    exact same ▸ .mk 'l' ['t'] (by decide) (by decide)
  split at predefined
  · rename_i same
    exact same ▸ .mk 'g' ['t'] (by decide) (by decide)
  split at predefined
  · rename_i same
    exact same ▸ .mk 'a' ['m', 'p'] (by decide) (by decide)
  split at predefined
  · rename_i same
    exact same ▸ .mk 'q' ['u', 'o', 't'] (by decide) (by decide)
  split at predefined
  · rename_i same
    exact same ▸ .mk 'a' ['p', 'o', 's'] (by decide) (by decide)
  · simp at predefined

/-! ## Values -/

theorem Value.escapedChar {quote : Quote} {text : List Char} (value : Value quote.char text)
    {character : Char} (legal : IsChar character) :
    Value quote.char (text ++ (TextPosition.attribute quote).escapedChar character) := by
  have stands := (TextPosition.attribute quote).stands_escapedChar character
  generalize (TextPosition.attribute quote).escapedChar character = written at stands ⊢
  cases stands with
  | plain notLess _ notAmpersand _ notQuote =>
      exact value.character legal notLess notAmpersand (notQuote quote rfl)
  | entity name predefined =>
      exact value.reference (reference_entity (name_of_predefined? predefined))
  | number => exact value.reference (reference_hexReference legal)

theorem Value.escaped {quote : Quote} {text : List Char} (value : Value quote.char text)
    {more : String} (legal : Legal more) :
    Value quote.char (text ++ ((TextPosition.attribute quote).escaped more).toList) := by
  rw [TextPosition.toList_escaped]
  unfold Legal at legal
  generalize more.toList = characters at legal
  induction characters generalizing text with
  | nil => simpa using value
  | cons character rest induction =>
      rw [List.flatMap_cons, ← List.append_assoc]
      exact induction (value.escapedChar (legal _ List.mem_cons_self))
        fun other member => legal other (List.mem_cons_of_mem _ member)

/-- Characters that stand for themselves wherever text may stand. -/
structure Plain (character : Char) : Prop where
  legal : IsChar character
  notLess : character ≠ '<'
  notGreater : character ≠ '>'
  notAmpersand : character ≠ '&'
  notDouble : character ≠ '"'
  notSingle : character ≠ '\''

theorem Value.plain {quote : Quote} {text more : List Char} (value : Value quote.char text)
    (plain : ∀ character ∈ more, Plain character) : Value quote.char (text ++ more) := by
  induction more generalizing text with
  | nil => simpa using value
  | cons character rest induction =>
      have first := plain character List.mem_cons_self
      have notQuote : character ≠ quote.char := by
        cases quote
        · exact first.notDouble
        · exact first.notSingle
      have longer := value.character first.legal first.notLess first.notAmpersand notQuote
      simpa using induction longer fun other member => plain other (List.mem_cons_of_mem _ member)

/-! ## Content -/

/-- Content that is still growing. Its character data contains no `>` at all, so that it
cannot come to contain the end of a section. -/
inductive Body : Production
  | nil : Body []
  | character {text : List Char} {character : Char} (earlier : Body text)
      (legal : IsChar character) (notLess : character ≠ '<') (notGreater : character ≠ '>')
      (notAmpersand : character ≠ '&') : Body (text ++ [character])
  | item {text item : List Char} (earlier : Body text) (next : Item item) : Body (text ++ item)

theorem charData_of_notGreater {text : List Char}
    (plain : ∀ character ∈ text,
      IsChar character ∧ character ≠ '<' ∧ character ≠ '>' ∧ character ≠ '&') : CharData text where
  legal character member :=
    ⟨(plain character member).1, (plain character member).2.1, (plain character member).2.2.2⟩
  noSectionEnd inside := by
    have member : '>' ∈ text := inside.subset (by decide)
    exact (plain '>' member).2.2.1 rfl

theorem Body.split {text : List Char} (body : Body text) :
    ∃ before data, text = before ++ data ∧
      (∀ character ∈ data,
        IsChar character ∧ character ≠ '<' ∧ character ≠ '>' ∧ character ≠ '&') ∧
      (before = [] ∨ ∃ content item, Content content ∧ Item item ∧ before = content ++ item) := by
  induction body with
  | nil => exact ⟨[], [], rfl, by simp, .inl rfl⟩
  | @character text character earlier legal notLess notGreater notAmpersand induction =>
      obtain ⟨before, data, rfl, plain, start⟩ := induction
      refine ⟨before, data ++ [character], by simp, fun other member => ?_, start⟩
      obtain member | member := List.mem_append.mp member
      · exact plain other member
      · rw [List.mem_singleton.mp member]
        exact ⟨legal, notLess, notGreater, notAmpersand⟩
  | @item text item earlier next induction =>
      obtain ⟨before, data, rfl, plain, start⟩ := induction
      refine ⟨before ++ data ++ item, [], by simp, by simp, .inr ⟨before ++ data, item, ?_, next, rfl⟩⟩
      have data := charData_of_notGreater plain
      obtain rfl | ⟨content, older, holds, is, rfl⟩ := start
      · exact .data data
      · exact .snoc holds is data

theorem Body.content {text : List Char} (body : Body text) : Content text := by
  obtain ⟨before, data, rfl, plain, rfl | ⟨content, item, earlier, next, rfl⟩⟩ := body.split
  · exact .data (charData_of_notGreater plain)
  · exact .snoc earlier next (charData_of_notGreater plain)

theorem Body.plain {text more : List Char} (body : Body text)
    (plain : ∀ character ∈ more, Plain character) : Body (text ++ more) := by
  induction more generalizing text with
  | nil => simpa using body
  | cons character rest induction =>
      have first := plain character List.mem_cons_self
      have longer := body.character first.legal first.notLess first.notGreater first.notAmpersand
      simpa using induction longer fun other member => plain other (List.mem_cons_of_mem _ member)

theorem Body.escapedChar {text : List Char} (body : Body text) {character : Char}
    (legal : IsChar character) :
    Body (text ++ TextPosition.content.escapedChar character) := by
  have stands := TextPosition.content.stands_escapedChar character
  generalize TextPosition.content.escapedChar character = written at stands ⊢
  cases stands with
  | plain notLess notGreater notAmpersand =>
      exact body.character legal notLess notGreater notAmpersand
  | entity name predefined =>
      exact body.item (.reference (reference_entity (name_of_predefined? predefined)))
  | number => exact body.item (.reference (reference_hexReference legal))

theorem Body.escaped {text : List Char} (body : Body text) {more : String} (legal : Legal more) :
    Body (text ++ (TextPosition.content.escaped more).toList) := by
  rw [TextPosition.toList_escaped]
  unfold Legal at legal
  generalize more.toList = characters at legal
  induction characters generalizing text with
  | nil => simpa using body
  | cons character rest induction =>
      rw [List.flatMap_cons, ← List.append_assoc]
      exact induction (body.escapedChar (legal _ List.mem_cons_self))
        fun other member => legal other (List.mem_cons_of_mem _ member)

theorem ne_of_isBlank {character other : Char} (blank : IsBlank character)
    (notBlank : CharacterClass.blank.hasChar other = false) : character ≠ other := by
  rintro rfl
  simp [IsBlank, notBlank] at blank

theorem plain_of_isBlank {character : Char} (blank : IsBlank character) : Plain character where
  legal := isChar_of_isBlank blank
  notLess := ne_of_isBlank blank (by decide)
  notGreater := ne_of_isBlank blank (by decide)
  notAmpersand := ne_of_isBlank blank (by decide)
  notDouble := ne_of_isBlank blank (by decide)
  notSingle := ne_of_isBlank blank (by decide)

theorem escapedChar_of_isBlank {character : Char} (blank : IsBlank character)
    (notReturn : character ≠ '\r') : TextPosition.content.escapedChar character = [character] := by
  have noEntity : TextPosition.content.entityFor? character = none := by
    unfold TextPosition.entityFor?
    split
    all_goals first | rfl | exact absurd rfl (ne_of_isBlank blank (by decide))
  have noNumber : TextPosition.content.needsNumber character = false := by
    unfold TextPosition.needsNumber
    split
    · rfl
    · rfl
    · exact absurd rfl notReturn
    · have legal : CharacterClass.xml.hasChar character = true := isChar_of_isBlank blank
      simp [legal]
  simp [TextPosition.escapedChar, TextPosition.escape?, noEntity, noNumber]

theorem toList_escaped_of_blank {text : String} (blank : ∀ character ∈ text.toList,
    IsBlank character) (noReturn : '\r' ∉ text.toList) :
    (TextPosition.content.escaped text).toList = text.toList := by
  rw [TextPosition.toList_escaped]
  generalize text.toList = characters at blank noReturn
  induction characters with
  | nil => rfl
  | cons character rest induction =>
      have notReturn : character ≠ '\r' := by
        rintro rfl
        exact noReturn List.mem_cons_self
      rw [List.flatMap_cons, escapedChar_of_isBlank (blank _ List.mem_cons_self) notReturn,
        induction (fun other member => blank other (List.mem_cons_of_mem _ member))
          fun member => noReturn (List.mem_cons_of_mem _ member)]
      rfl

/-! ## Payloads -/

instance (character : Char) : Decidable (Plain character) :=
  decidable_of_iff (CharacterClass.xml.hasChar character = true ∧ character ≠ '<' ∧
      character ≠ '>' ∧ character ≠ '&' ∧ character ≠ '"' ∧ character ≠ '\'')
    ⟨fun ⟨legal, notLess, notGreater, notAmpersand, notDouble, notSingle⟩ =>
        ⟨legal, notLess, notGreater, notAmpersand, notDouble, notSingle⟩,
      fun plain => ⟨plain.legal, plain.notLess, plain.notGreater, plain.notAmpersand,
        plain.notDouble, plain.notSingle⟩⟩

theorem plain_hexadecimalDigit (bits : Nat) : Plain (Hexadecimal.digit bits) :=
  of_getD bits (by decide +kernel) (by decide)

theorem plain_symbol (bits : Nat) : Plain (Base64.symbol bits) :=
  of_getD bits (by decide +kernel) (by decide)

theorem plain_of_mem_hexadecimal {bytes : List UInt8} :
    ∀ character ∈ Hexadecimal.encode bytes, Plain character :=
  Hexadecimal.of_mem_encode plain_hexadecimalDigit

theorem plain_of_mem_lastGroup {carry : Base64.Carry} :
    ∀ character ∈ carry.lastGroup, Plain character :=
  Base64.of_mem_lastGroup plain_symbol (by decide)

theorem plain_of_mem_feed {carry : Base64.Carry} {chunk : List UInt8} :
    ∀ character ∈ (carry.feed chunk).1, Plain character :=
  Base64.of_mem_groups plain_symbol _

/-! ## Verbatim constructs -/

theorem occursIn_iff {part text : List Char} : occursIn part text = true ↔ part <:+: text := by
  induction text with
  | nil => simp [occursIn]
  | cons first rest induction =>
      rw [occursIn, Bool.or_eq_true, induction, List.isPrefixOf_iff_prefix, List.infix_cons_iff]

theorem not_infix_of_occursIn {part text : List Char} (absent : occursIn part text = false) :
    ¬part <:+: text := by
  rw [← occursIn_iff, absent]
  simp

theorem section_of_noEnd {text : String} (legal : Legal text)
    (noEnd : occursIn "]]>".toList text.toList = false) :
    Section ("<![CDATA[" ++ text ++ "]]>").toList := by
  simpa using Section.mk legal (not_infix_of_occursIn noEnd)

theorem commentText : (text : List Char) → (legal : ∀ character ∈ text, IsChar character) →
    (noHyphens : ¬"--".toList <:+: text) → (noHyphen : text.getLast? ≠ some '-') →
    CommentText text
  | [], _, _, _ => .nil
  | [character], legal, _, noHyphen =>
      .character (legal _ List.mem_cons_self) (by simpa using noHyphen) .nil
  | first :: second :: rest, legal, noHyphens, noHyphen => by
      have legalRest (character : Char) (member : character ∈ second :: rest) :
          IsChar character := legal character (List.mem_cons_of_mem _ member)
      have noHyphensRest (inside : "--".toList <:+: second :: rest) : False :=
        noHyphens (List.infix_cons inside)
      by_cases hyphen : first = '-'
      · subst hyphen
        have notHyphen : second ≠ '-' := by
          rintro rfl
          exact noHyphens ⟨[], rest, rfl⟩
        refine .hyphen (legalRest _ List.mem_cons_self) notHyphen (commentText rest
          (fun character member => legalRest character (List.mem_cons_of_mem _ member))
          (fun inside => noHyphensRest (List.infix_cons inside)) ?_)
        cases rest with
        | nil => simp
        | cons _ _ => simpa using noHyphen
      · exact .character (legal _ List.mem_cons_self) hyphen
          (commentText (second :: rest) legalRest noHyphensRest (by simpa using noHyphen))

theorem comment_of_noHyphens {text : String} (legal : Legal text)
    (noHyphens : occursIn "--".toList text.toList = false)
    (noHyphen : text.toList.getLast? ≠ some '-') : Comment ("<!--" ++ text ++ "-->").toList := by
  simpa using Comment.mk (commentText text.toList legal (not_infix_of_occursIn noHyphens) noHyphen)

theorem instruction_of_noEnd {target text : String} (named : Name target.toList)
    (notXml : equalIgnoringCase target "xml" = false) (legal : Legal text)
    (noEnd : occursIn "?>".toList text.toList = false) :
    Instruction ("<?" ++ target ++ (if text = "" then "" else " " ++ text) ++ "?>").toList := by
  have targets : Target target.toList := by
    refine ⟨named, fun same => ?_⟩
    simp [equalIgnoringCase, same] at notXml
  by_cases empty : text = ""
  · simpa [empty] using Instruction.bare targets
  · simpa [empty] using Instruction.text targets space_single legal (not_infix_of_occursIn noEnd)

theorem xmlInstruction_of_noEnd {target text : String} (named : Name target.toList)
    (xml : equalIgnoringCase target "xml" = true) (legal : Legal text)
    (noEnd : occursIn "?>".toList text.toList = false) :
    XmlInstruction ("<?" ++ target ++ (if text = "" then "" else " " ++ text) ++ "?>").toList := by
  have spells : target.toList.map Char.toLower = "xml".toList := by
    simpa [equalIgnoringCase] using xml
  by_cases empty : text = ""
  · simpa [empty] using XmlInstruction.bare named spells
  · simpa [empty] using
      XmlInstruction.text named spells space_single legal (not_infix_of_occursIn noEnd)

end XmlStream.Grammar
