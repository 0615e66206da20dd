import XmlStream.Proofs.Grammar.Pieces
import XmlStream.Proofs.Text.Bytes

namespace XmlStream

/-! Names and their grammar. The checks of names answer for exactly the productions of
XML 1.0 and of its namespaces, and the lengths they go by are those of the longest
beginning that a production stands for. -/

namespace Grammar

/-! ## Productions -/

/-- The production `NameStartChar`. -/
def IsNameStartChar (character : Char) : Prop :=
  let code := character.toNat
  character = ':' ∨ 'A'.toNat ≤ code ∧ code ≤ 'Z'.toNat ∨ character = '_' ∨
    'a'.toNat ≤ code ∧ code ≤ 'z'.toNat ∨ 0xC0 ≤ code ∧ code ≤ 0xD6 ∨
    0xD8 ≤ code ∧ code ≤ 0xF6 ∨ 0xF8 ≤ code ∧ code ≤ 0x2FF ∨ 0x370 ≤ code ∧ code ≤ 0x37D ∨
    0x37F ≤ code ∧ code ≤ 0x1FFF ∨ 0x200C ≤ code ∧ code ≤ 0x200D ∨
    0x2070 ≤ code ∧ code ≤ 0x218F ∨ 0x2C00 ≤ code ∧ code ≤ 0x2FEF ∨
    0x3001 ≤ code ∧ code ≤ 0xD7FF ∨ 0xF900 ≤ code ∧ code ≤ 0xFDCF ∨
    0xFDF0 ≤ code ∧ code ≤ 0xFFFD ∨ 0x10000 ≤ code ∧ code ≤ 0xEFFFF

/-- The production `NameChar`. -/
def IsNameChar (character : Char) : Prop :=
  let code := character.toNat
  IsNameStartChar character ∨ character = '-' ∨ character = '.' ∨
    '0'.toNat ≤ code ∧ code ≤ '9'.toNat ∨ code = 0xB7 ∨ 0x0300 ≤ code ∧ code ≤ 0x036F ∨
    0x203F ≤ code ∧ code ≤ 0x2040

theorem nameStart_hasChar {character : Char} :
    CharacterClass.nameStart.hasChar character = true ↔ IsNameStartChar character := by
  simp only [CharacterClass.hasChar, CharacterClass.has, CharacterClass.nameStart,
    CharacterClass.ncNameStart, CodeRange.has, CodeRange.single, List.any_cons, List.any_nil,
    Bool.or_eq_true, Bool.and_eq_true, decide_eq_true_eq, IsNameStartChar, ← Char.toNat_inj,
    Char.reduceToNat, Bool.false_eq_true, or_false]
  omega

theorem namePart_hasChar {character : Char} :
    CharacterClass.namePart.hasChar character = true ↔ IsNameChar character := by
  have splits : CharacterClass.namePart.hasChar character = true ↔
      CharacterClass.nameStart.hasChar character = true ∨
        CharacterClass.hasChar [⟨'0'.toNat, '9'.toNat⟩, .single '-'.toNat, .single '.'.toNat,
          .single 0xB7, ⟨0x300, 0x36F⟩, ⟨0x203F, 0x2040⟩] character = true := by
    simp only [CharacterClass.hasChar, CharacterClass.has, CharacterClass.namePart,
      CharacterClass.ncNamePart, CharacterClass.nameStart, List.any_cons, List.any_append,
      Bool.or_eq_true, or_assoc]
  rw [splits, nameStart_hasChar, IsNameChar]
  refine or_congr_right ?_
  simp only [CharacterClass.hasChar, CharacterClass.has, CodeRange.has, CodeRange.single,
    List.any_cons, List.any_nil, Bool.or_eq_true, Bool.and_eq_true, decide_eq_true_eq,
    ← Char.toNat_inj, Char.reduceToNat, Bool.false_eq_true, or_false]
  omega

theorem hasChar_cons_colon {ranges : CharacterClass} (noColon : ranges.hasChar ':' = false)
    {character : Char} :
    ranges.hasChar character = true ↔
      CharacterClass.hasChar (.single ':'.toNat :: ranges) character = true ∧
        character ≠ ':' := by
  have single : (CodeRange.single ':'.toNat).has character.toNat = true ↔ character = ':' := by
    rw [CodeRange.has, Bool.and_eq_true, decide_eq_true_eq, decide_eq_true_eq, ← Char.toNat_inj]
    exact ⟨fun within => Nat.le_antisymm within.2 within.1, fun same =>
      ⟨Nat.le_of_eq same.symm, Nat.le_of_eq same⟩⟩
  have either : CharacterClass.hasChar (.single ':'.toNat :: ranges) character = true ↔
      character = ':' ∨ ranges.hasChar character = true := by
    simp only [CharacterClass.hasChar, CharacterClass.has, List.any_cons, Bool.or_eq_true, single]
  rw [either]
  constructor
  · intro part
    refine ⟨.inr part, ?_⟩
    rintro rfl
    exact Bool.false_ne_true (noColon.symm.trans part)
  · rintro ⟨colon | part, notColon⟩
    · exact (notColon colon).elim
    · exact part

theorem ncNameStart_hasChar {character : Char} :
    CharacterClass.ncNameStart.hasChar character = true ↔
      CharacterClass.nameStart.hasChar character = true ∧ character ≠ ':' :=
  hasChar_cons_colon (by decide)

theorem ncNamePart_hasChar {character : Char} :
    CharacterClass.ncNamePart.hasChar character = true ↔
      CharacterClass.namePart.hasChar character = true ∧ character ≠ ':' :=
  hasChar_cons_colon (by decide)

def NameToken : Production := fun text => text ≠ [] ∧ ∀ character ∈ text, IsNameChar character

/-- The production `NCName`: a name without a colon. -/
def NCName : Production := fun text => Name text ∧ ':' ∉ text

def NCNameChars : Production := fun text =>
  ∀ character ∈ text, IsNameChar character ∧ character ≠ ':'

/-- A name without a colon, or one that a colon sets off from further characters. What
follows the colon need not begin like a name, so there are more such texts than the
production `QName` has. -/
inductive PrefixedName : Production
  | plain {name : List Char} (named : NCName name) : PrefixedName name
  | prefixed {name rest : List Char} (named : NCName name) (further : NCNameChars rest)
      (nonEmpty : rest ≠ []) : PrefixedName (name ++ ':' :: rest)

/-- The size in bytes of the longest beginning of a text that a production stands for; it
is zero where the production stands for none. -/
inductive Longest (production : Production) (text : List Char) : Nat → Prop
  | found {head : List Char} (begins : head <+: text) (holds : production head)
      (most : ∀ other, other <+: text → production other → other <+: head) :
      Longest production text (String.ofList head).utf8ByteSize
  | none (absent : ∀ head, head <+: text → ¬production head) : Longest production text 0

/-! ## Names without a colon -/

theorem ncNameChars_iff {text : List Char} :
    NCNameChars text ↔ ∀ character ∈ text, CharacterClass.ncNamePart.hasChar character = true := by
  simp only [NCNameChars, ncNamePart_hasChar, namePart_hasChar]

theorem ncName_cons {first : Char} {rest : List Char} :
    NCName (first :: rest) ↔
      CharacterClass.ncNameStart.hasChar first = true ∧ NCNameChars rest := by
  rw [ncNameChars_iff]
  constructor
  · rintro ⟨⟨_, _, start, parts⟩, noColon⟩
    rw [List.mem_cons, not_or] at noColon
    exact ⟨ncNameStart_hasChar.mpr ⟨start, Ne.symm noColon.1⟩, fun character member =>
      ncNamePart_hasChar.mpr ⟨parts character member, fun colon => noColon.2 (colon ▸ member)⟩⟩
  · rintro ⟨start, parts⟩
    have start := ncNameStart_hasChar.mp start
    refine ⟨.mk first rest start.1 fun character member =>
      (ncNamePart_hasChar.mp (parts character member)).1, ?_⟩
    rw [List.mem_cons, not_or]
    exact ⟨Ne.symm start.2, fun member => (ncNamePart_hasChar.mp (parts _ member)).2 rfl⟩

theorem not_ncName_nil : ¬NCName [] := fun named => nomatch named.1

theorem prefix_takeWhile {holds : Char → Bool} {text other : List Char} (begins : other <+: text)
    (all : ∀ character ∈ other, holds character = true) : other <+: text.takeWhile holds := by
  obtain ⟨rest, rfl⟩ := begins
  rw [List.takeWhile_append_of_pos all]
  exact List.prefix_append other _

theorem ncNameChars_takeWhile (text : List Char) :
    NCNameChars (text.takeWhile CharacterClass.ncNamePart.hasChar) :=
  ncNameChars_iff.mpr (List.all_eq_true.mp List.all_takeWhile)

theorem tokenHead_longest (text : List Char) :
    Longest NCNameChars text (utf8Length (Name.tokenHead text)) := by
  rw [← utf8ByteSize_ofList]
  exact .found (List.takeWhile_prefix _) (ncNameChars_takeWhile text)
    fun other begins chars => prefix_takeWhile begins (ncNameChars_iff.mp chars)

theorem ncNameHead_cases (text : List Char) :
    Name.ncNameHead text = [] ∧ (∀ head, head <+: text → ¬NCName head) ∨
      NCName (Name.ncNameHead text) ∧
        ∀ other, other <+: text → NCName other → other <+: Name.ncNameHead text := by
  cases text with
  | nil =>
      refine .inl ⟨rfl, fun head begins => ?_⟩
      rw [List.prefix_nil.mp begins]
      exact not_ncName_nil
  | cons first rest =>
      cases start : CharacterClass.ncNameStart.hasChar first with
      | false =>
          refine .inl ⟨by simp [Name.ncNameHead, start], fun head begins named => ?_⟩
          cases head with
          | nil => exact not_ncName_nil named
          | cons character others =>
              rw [(List.cons_prefix_cons.mp begins).1, ncName_cons, start] at named
              exact Bool.false_ne_true named.1
      | true =>
          have head : Name.ncNameHead (first :: rest) =
              first :: rest.takeWhile CharacterClass.ncNamePart.hasChar := by
            simp [Name.ncNameHead, start]
          rw [head]
          refine .inr ⟨ncName_cons.mpr ⟨start, ncNameChars_takeWhile rest⟩,
            fun other begins named => ?_⟩
          cases other with
          | nil => exact List.nil_prefix
          | cons character others =>
              obtain ⟨same, begins⟩ := List.cons_prefix_cons.mp begins
              have chars := ncNameChars_iff.mp (ncName_cons.mp named).2
              exact List.cons_prefix_cons.mpr ⟨same, prefix_takeWhile begins chars⟩

theorem ncNameHead_longest (text : List Char) :
    Longest NCName text (utf8Length (Name.ncNameHead text)) := by
  obtain ⟨empty, absent⟩ | ⟨named, most⟩ := ncNameHead_cases text
  · rw [empty]
    exact .none absent
  · rw [← utf8ByteSize_ofList]
    exact .found (Name.ncNameHead_begins text) named most

theorem ncName_iff_head {text : List Char} :
    NCName text ↔ text ≠ [] ∧ Name.ncNameHead text = text := by
  obtain ⟨empty, absent⟩ | ⟨named, most⟩ := ncNameHead_cases text
  · rw [empty]
    exact ⟨fun named => (absent text (List.prefix_refl text) named).elim, fun ⟨nonEmpty, same⟩ =>
      (nonEmpty same.symm).elim⟩
  · constructor
    · intro whole
      refine ⟨fun empty => not_ncName_nil (empty ▸ whole), ?_⟩
      exact (Name.ncNameHead_begins text).eq_of_length_le
        (most text (List.prefix_refl text) whole).length_le
    · rintro ⟨-, same⟩
      exact same ▸ named

/-! ## The checks -/

theorem isName_iff {text : String} : XmlStream.Name.isName text = true ↔ Name text.toList := by
  refine ⟨name_of_isName, fun named => ?_⟩
  rw [XmlStream.Name.isName]
  generalize text.toList = characters at named
  obtain ⟨first, rest, start, parts⟩ := named
  simp only [start, Bool.true_and, List.all_eq_true]
  exact parts

theorem isNCName_iff {text : String} :
    XmlStream.Name.isNCName text = true ↔ NCName text.toList := by
  simp [XmlStream.Name.isNCName, ncName_iff_head]

theorem isToken_iff {text : String} :
    XmlStream.Name.isToken text = true ↔ NameToken text.toList := by
  simp [XmlStream.Name.isToken, NameToken, namePart_hasChar]

theorem isUsable_false_iff {form : XmlStream.Name.Form} {text : String} :
    XmlStream.Name.isUsable form false text = true ↔ Name text.toList := by
  rw [← isName_iff, XmlStream.Name.isUsable]
  split
  · rename_i empty
    subst empty
    decide
  · simp

theorem isUsable_of_head {text : String} (nonEmpty : text ≠ "")
    (whole : Name.ncNameHead text.toList = text.toList) (form : XmlStream.Name.Form) :
    XmlStream.Name.isUsable form true text = true := by
  simp [XmlStream.Name.isUsable, nonEmpty, whole]

/-- With namespaces a longer text is judged by what stands behind its head. -/
theorem isUsable_of_behind {text : String} {separator : Char} {tail : List Char}
    (whole : Name.ncNameHead text.toList ++ separator :: tail = text.toList)
    (form : XmlStream.Name.Form) :
    XmlStream.Name.isUsable form true text =
      (form == .qualified && !(Name.ncNameHead text.toList).isEmpty && separator == ':' &&
        !tail.isEmpty && tail.all CharacterClass.ncNamePart.hasChar) := by
  have nonEmpty : text ≠ "" := by
    rintro rfl
    exact List.cons_ne_nil _ _ (List.append_eq_nil_iff.mp whole).2
  have behind : text.toList.drop (Name.ncNameHead text.toList).length = separator :: tail :=
    (congrArg (List.drop _) whole.symm).trans List.drop_left
  simp only [XmlStream.Name.isUsable, if_neg nonEmpty, behind, Bool.not_true,
    Bool.false_eq_true, ↓reduceIte]

theorem ncName_of_ncNameHead {text : List Char} (found : Name.ncNameHead text ≠ []) :
    NCName (Name.ncNameHead text) := by
  obtain ⟨empty, -⟩ | ⟨named, -⟩ := ncNameHead_cases text
  · exact (found empty).elim
  · exact named

theorem ncNameHead_append_colon {name : List Char} (named : NCName name) (rest : List Char) :
    Name.ncNameHead (name ++ ':' :: rest) = name := by
  cases name with
  | nil => exact (not_ncName_nil named).elim
  | cons first others =>
      obtain ⟨start, chars⟩ := ncName_cons.mp named
      have stops : (':' :: rest).takeWhile CharacterClass.ncNamePart.hasChar = [] := by
        rw [List.takeWhile_cons, if_neg (by decide)]
      rw [List.cons_append, Name.ncNameHead, if_pos start,
        List.takeWhile_append_of_pos (ncNameChars_iff.mp chars), stops, List.append_nil]

theorem isUsable_of_ncName {text : String} (named : NCName text.toList)
    (form : XmlStream.Name.Form) : XmlStream.Name.isUsable form true text = true := by
  obtain ⟨nonEmpty, whole⟩ := ncName_iff_head.mp named
  exact isUsable_of_head (mt String.toList_eq_nil_iff.mpr nonEmpty) whole form

theorem isUsable_unqualified_iff {text : String} :
    XmlStream.Name.isUsable .unqualified true text = true ↔ NCName text.toList :=
  ⟨fun usable => isNCName_iff.mp (Name.isNCName_of_isUsable usable), fun named =>
    isUsable_of_ncName named .unqualified⟩

theorem isUsable_qualified_iff {text : String} :
    XmlStream.Name.isUsable .qualified true text = true ↔ PrefixedName text.toList := by
  constructor
  · intro usable
    obtain ⟨rest, whole⟩ := Name.ncNameHead_begins text.toList
    cases rest with
    | nil =>
        refine .plain (ncName_iff_head.mpr ⟨?_, by rwa [List.append_nil] at whole⟩)
        rintro empty
        rw [String.toList_eq_nil_iff.mp empty] at usable
        exact absurd usable (by decide)
    | cons separator tail =>
        rw [isUsable_of_behind whole] at usable
        simp only [beq_self_eq_true, Bool.true_and, Bool.and_eq_true, Bool.not_eq_true',
          List.isEmpty_eq_false_iff, beq_iff_eq, List.all_eq_true] at usable
        obtain ⟨⟨⟨found, colon⟩, nonEmpty⟩, chars⟩ := usable
        rw [← whole, colon]
        exact .prefixed (ncName_of_ncNameHead found) (ncNameChars_iff.mpr chars) nonEmpty
  · intro prefixed
    generalize written : text.toList = characters at prefixed
    cases prefixed with
    | plain named => exact isUsable_of_ncName (written ▸ named) .qualified
    | @prefixed name rest named further nonEmpty =>
        have head : Name.ncNameHead text.toList = name := by
          rw [written, ncNameHead_append_colon named]
        have found : name ≠ [] := fun empty => not_ncName_nil (empty ▸ named)
        have whole : Name.ncNameHead text.toList ++ ':' :: rest = text.toList := by
          rw [head, written]
        rw [isUsable_of_behind whole, head]
        simpa [found, nonEmpty] using ncNameChars_iff.mp further

end Grammar

/-! ## Names by their bytes -/

namespace Name

open Grammar

/-- The check of names on the bytes of a text. It stops without an answer where it would
look for a byte that is not there or cut the text within a character. -/
def usableByBytes? (form : Form) (namespaces : Bool) (text : String) : Option Bool := do
  if text.utf8ByteSize = 0 then return false
  if !namespaces then return isName text
  let position := ncNameLength text
  if position = text.utf8ByteSize then return true
  if form = .unqualified ∨ position = 0 then return false
  let byte ← byteAt? text position
  if byte ≠ 0x3A ∨ position + 1 = text.utf8ByteSize then return false
  let rest ← textFrom? text (position + 1)
  return position + 1 + tokenLength rest = text.utf8ByteSize

section Behind

variable {text : String} {rest tail : List Char} {separator : Char}

theorem eq_append_of_behind (behind : ncNameHead text.toList ++ rest = text.toList) :
    text = String.ofList (ncNameHead text.toList) ++ String.ofList rest := by
  rw [← String.ofList_append, behind, String.ofList_toList]

theorem utf8ByteSize_of_behind (behind : ncNameHead text.toList ++ rest = text.toList) :
    text.utf8ByteSize = ncNameLength text + utf8Length rest := by
  rw [utf8ByteSize_eq, ncNameLength, ← utf8Length_append, behind]

/-- The byte behind the head of a text is the first one of the next character. -/
theorem byteAt?_ncNameLength
    (behind : ncNameHead text.toList ++ separator :: tail = text.toList) :
    ∃ byte, byteAt? text (ncNameLength text) = some byte ∧ (byte = 0x3A ↔ separator = ':') := by
  obtain ⟨byte, others, encoded⟩ :=
    List.exists_cons_of_ne_nil (@String.utf8EncodeChar_ne_nil separator)
  have first := byteAt?_append (String.ofList (ncNameHead text.toList)) separator tail
  rw [← eq_append_of_behind behind, utf8ByteSize_ofList, encoded, List.head?_cons] at first
  refine ⟨byte, first, ?_⟩
  rw [← head?_utf8EncodeChar_eq_colon, encoded, List.head?_cons, Option.some.injEq]

theorem textFrom?_ncNameLength (behind : ncNameHead text.toList ++ ':' :: tail = text.toList) :
    textFrom? text (ncNameLength text + 1) = some (String.ofList tail) := by
  have cut :=
    textFrom?_append (String.ofList (ncNameHead text.toList ++ [':'])) (String.ofList tail)
  rw [utf8ByteSize_ofList, utf8Length_append, ← String.ofList_append, List.append_assoc,
    List.singleton_append, behind, String.ofList_toList] at cut
  exact cut

theorem tokenLength_eq_iff :
    tokenLength (String.ofList tail) = utf8Length tail ↔
      tail.all CharacterClass.ncNamePart.hasChar = true := by
  rw [tokenLength, String.toList_ofList]
  obtain ⟨rest, splits⟩ : tokenHead tail <+: tail := List.takeWhile_prefix _
  constructor
  · intro same
    have ends : rest = [] := utf8Length_append_eq_left.mp (same.trans (by rw [splits]))
    rw [← splits, ends, List.append_nil]
    exact List.all_takeWhile
  · intro all
    have begins := prefix_takeWhile (List.prefix_refl tail) (List.all_eq_true.mp all)
    exact congrArg utf8Length ((List.takeWhile_prefix _).eq_of_length_le begins.length_le)

theorem usableByBytes?_of_colon (found : ncNameHead text.toList ≠ [])
    (behind : ncNameHead text.toList ++ ':' :: tail = text.toList) :
    usableByBytes? .qualified true text =
      some (!tail.isEmpty && tail.all CharacterClass.ncNamePart.hasChar) := by
  have size : text.utf8ByteSize = ncNameLength text + 1 + utf8Length tail := by
    rw [utf8ByteSize_of_behind behind, utf8Length_cons, Nat.add_assoc]
    rfl
  have nonEmpty : text.utf8ByteSize ≠ 0 := by omega
  have notEnd : ncNameLength text ≠ text.utf8ByteSize := by omega
  have begins : ncNameLength text ≠ 0 := mt utf8Length_eq_zero.mp found
  obtain ⟨byte, next, isColon⟩ := byteAt?_ncNameLength behind
  have runs : decide (ncNameLength text + 1 + tokenLength (String.ofList tail) =
      text.utf8ByteSize) = tail.all CharacterClass.ncNamePart.hasChar := by
    rw [size, Bool.eq_iff_iff, decide_eq_true_eq, Nat.add_left_cancel_iff, tokenLength_eq_iff]
  by_cases last : tail = []
  · subst last
    have ends : ncNameLength text + 1 = text.utf8ByteSize := size.symm
    simp [usableByBytes?, nonEmpty, notEnd, begins, next, ends]
  · have further : ncNameLength text + 1 ≠ text.utf8ByteSize := by
      have := mt utf8Length_eq_zero.mp last
      omega
    simp [usableByBytes?, nonEmpty, notEnd, begins, next, isColon, further, last, runs,
      textFrom?_ncNameLength behind]

end Behind

/-- The bytes give the same answer as the characters, and no position is looked at that the
text does not have. -/
theorem usableByBytes?_eq (form : Form) (namespaces : Bool) (text : String) :
    usableByBytes? form namespaces text = some (isUsable form namespaces text) := by
  by_cases empty : text = ""
  · subst empty
    rfl
  have nonEmpty : text.utf8ByteSize ≠ 0 := mt String.utf8ByteSize_eq_zero_iff.mp empty
  cases namespaces with
  | false => simp [usableByBytes?, isUsable, empty, nonEmpty]
  | true =>
      obtain ⟨rest, behind⟩ := ncNameHead_begins text.toList
      have size := utf8ByteSize_of_behind behind
      cases rest with
      | nil =>
          have ends : ncNameLength text = text.utf8ByteSize := size.symm
          rw [List.append_nil] at behind
          rw [isUsable_of_head empty behind]
          simp [usableByBytes?, nonEmpty, ends]
      | cons separator tail =>
          have notEnd : ncNameLength text ≠ text.utf8ByteSize := by
            have positive := separator.utf8Size_pos
            rw [utf8Length_cons] at size
            omega
          rw [isUsable_of_behind behind]
          cases form with
          | unqualified => simp [usableByBytes?, nonEmpty, notEnd]
          | qualified =>
              by_cases found : ncNameHead text.toList = []
              · have zero : ncNameLength text = 0 := utf8Length_eq_zero.mpr found
                simp [usableByBytes?, nonEmpty, found, zero, nonEmpty.symm]
              by_cases colon : separator = ':'
              · subst colon
                rw [usableByBytes?_of_colon found behind, List.isEmpty_eq_false_iff.mpr found]
                rfl
              · obtain ⟨byte, next, isColon⟩ := byteAt?_ncNameLength behind
                simp [usableByBytes?, nonEmpty, notEnd, next, isColon, colon]

/-- Every check of a name answers for its production. The two lengths are those of the
longest beginnings that are a name without a colon and a run of characters of such names. -/
theorem checks_follow_productions (text : String) :
    (∀ character, (CharacterClass.nameStart.hasChar character = true ↔
        IsNameStartChar character) ∧
      (CharacterClass.namePart.hasChar character = true ↔ IsNameChar character)) ∧
    Longest NCName text.toList (ncNameLength text) ∧
    Longest NCNameChars text.toList (tokenLength text) ∧
    (isName text = true ↔ Grammar.Name text.toList) ∧
    (isNCName text = true ↔ NCName text.toList) ∧
    (isToken text = true ↔ NameToken text.toList) ∧
    (isNCName text = true ↔ isName text = true ∧ ':' ∉ text.toList) ∧
    (∀ form, isUsable form false text = true ↔ Grammar.Name text.toList) ∧
    (isUsable .unqualified true text = true ↔ NCName text.toList) ∧
    (isUsable .qualified true text = true ↔ PrefixedName text.toList) ∧
    ∀ form namespaces,
      (isUsable form namespaces text = true → Grammar.Name text.toList) ∧
      usableByBytes? form namespaces text = some (isUsable form namespaces text) := by
  refine ⟨fun character => ⟨nameStart_hasChar, namePart_hasChar⟩, ncNameHead_longest _,
    tokenHead_longest _, isName_iff, isNCName_iff, isToken_iff, ?_, fun form =>
    isUsable_false_iff, isUsable_unqualified_iff, isUsable_qualified_iff,
    fun form namespaces => ⟨name_of_isUsable, usableByBytes?_eq form namespaces text⟩⟩
  rw [isNCName_iff, isName_iff, NCName]

/-- What follows the colon may begin with a digit; a second colon is too many. -/
example : usableByBytes? .qualified true "あ:1" = some true ∧
    usableByBytes? .qualified true "あ:b:c" = some false := by decide +kernel

end Name

end XmlStream
