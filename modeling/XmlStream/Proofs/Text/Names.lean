import XmlStream.Name
import XmlStream.Proofs.Text.Escaping

namespace XmlStream

/-! Names without a colon: which characters they are made of, and that escaping leaves
them alone. -/

namespace CharacterClass

theorem ncNamePart_of_start {character : Char} (start : ncNameStart.hasChar character = true) :
    ncNamePart.hasChar character = true := by
  simp only [hasChar, has, ncNamePart, List.any_append, Bool.or_eq_true]
  exact .inl start

theorem nameStart_of_ncNameStart {character : Char}
    (start : ncNameStart.hasChar character = true) : nameStart.hasChar character = true := by
  simp only [hasChar, has, nameStart, List.any_cons, Bool.or_eq_true]
  exact .inr start

theorem namePart_of_ncNamePart {character : Char}
    (part : ncNamePart.hasChar character = true) : namePart.hasChar character = true := by
  simp only [hasChar, has, namePart, List.any_cons, Bool.or_eq_true]
  exact .inr part

theorem namePart_of_nameStart {character : Char} (start : nameStart.hasChar character = true) :
    namePart.hasChar character = true := by
  simp only [hasChar, has, nameStart, namePart, List.any_cons, Bool.or_eq_true] at start ⊢
  exact start.imp_right ncNamePart_of_start

theorem not_blank_of_namePart {character : Char} (part : namePart.hasChar character = true) :
    blank.hasChar character = false := by
  refine Bool.eq_false_iff.mpr fun blanks => ?_
  simp only [hasChar, has, blank, CodeRange.has, CodeRange.single, List.any_cons, List.any_nil,
    Bool.or_eq_true, Bool.and_eq_true, decide_eq_true_eq, Bool.false_eq_true, or_false] at blanks
  have code : character.toNat = 0x20 ∨ character.toNat = 0x9 ∨ character.toNat = 0xA ∨
      character.toNat = 0xD := by omega
  rcases code with code | code | code | code <;>
    · rw [hasChar, code] at part
      exact absurd part (by decide)

theorem xml_of_ncNamePart {character : Char} (part : ncNamePart.hasChar character = true) :
    xml.hasChar character = true := by
  simp only [hasChar, has, ncNamePart, ncNameStart, xml, CodeRange.has, CodeRange.single,
    List.any_cons, List.any_nil, List.any_append, Bool.or_eq_true, Bool.and_eq_true,
    decide_eq_true_eq] at part ⊢
  simp only [Char.reduceToNat, Bool.false_eq_true, or_false] at part ⊢
  omega

theorem xml_of_namePart {character : Char} (part : namePart.hasChar character = true) :
    xml.hasChar character = true := by
  simp only [hasChar, has, namePart, List.any_cons, Bool.or_eq_true] at part
  rcases part with colon | part
  · rcases (Bool.and_eq_true _ _).mp colon with ⟨least, most⟩
    have code : character.toNat = 0x3A :=
      Nat.le_antisymm (of_decide_eq_true most) (of_decide_eq_true least)
    rw [hasChar, code]
    decide
  · exact xml_of_ncNamePart part

theorem ne_of_ncNamePart {character other : Char} (part : ncNamePart.hasChar character = true)
    (notPart : ncNamePart.hasChar other = false) : character ≠ other := by
  rintro rfl
  simp [part] at notPart

end CharacterClass

open CharacterClass

theorem TextPosition.escapedChar_of_ncNamePart (position : TextPosition) {character : Char}
    (part : ncNamePart.hasChar character = true) :
    position.escapedChar character = [character] := by
  have noEntity : position.entityFor? character = none := by
    unfold entityFor?
    split
    all_goals first | rfl | exact absurd rfl (ne_of_ncNamePart part (by decide))
  have noNumber : position.needsNumber character = false := by
    unfold needsNumber
    split
    all_goals first | (simp [xml_of_ncNamePart part]; done) | exact absurd rfl (ne_of_ncNamePart part (by decide))
  simp [escapedChar, escape?, noEntity, noNumber]

namespace Name

theorem toList_of_isNCName {text : String} (named : isNCName text = true) :
    ∃ first rest, text.toList = first :: rest ∧ ncNameStart.hasChar first = true ∧
      ∀ character ∈ rest, ncNamePart.hasChar character = true := by
  simp only [isNCName, Bool.and_eq_true, beq_iff_eq] at named
  obtain ⟨nonEmpty, whole⟩ := named
  cases found : text.toList with
  | nil => simp_all
  | cons first rest =>
      rw [found, ncNameHead] at whole
      split at whole
      · rename_i start
        refine ⟨first, rest, rfl, start, ?_⟩
        simp only [List.cons.injEq, true_and] at whole
        have all : (rest.takeWhile ncNamePart.hasChar).all ncNamePart.hasChar = true :=
          List.all_takeWhile
        rw [whole] at all
        simpa using all
      · simp at whole

theorem ncNamePart_of_isNCName {text : String} (named : isNCName text = true) :
    ∀ character ∈ text.toList, ncNamePart.hasChar character = true := by
  obtain ⟨first, rest, whole, start, parts⟩ := toList_of_isNCName named
  rw [whole]
  simp only [List.mem_cons, forall_eq_or_imp]
  exact ⟨ncNamePart_of_start start, parts⟩

theorem ne_empty_of_isNCName {text : String} (named : isNCName text = true) : text ≠ "" := by
  rintro rfl
  simp [isNCName] at named

theorem ncNameHead_begins (characters : List Char) : ncNameHead characters <+: characters := by
  cases characters with
  | nil => exact List.nil_prefix
  | cons first rest =>
      rw [ncNameHead]
      split
      · exact List.cons_prefix_cons.mpr ⟨rfl, List.takeWhile_prefix _⟩
      · exact List.nil_prefix

theorem isNCName_of_isUsable {text : String} (usable : isUsable .unqualified true text = true) :
    isNCName text = true := by
  unfold isUsable at usable
  split at usable
  · cases usable
  · rename_i nonEmpty
    have whole : ncNameHead text.toList = text.toList := by
      refine (ncNameHead_begins text.toList).eq_of_length_le ?_
      rw [← List.drop_eq_nil_iff]
      cases left : text.toList.drop (ncNameHead text.toList).length with
      | nil => rfl
      | cons separator tail => simp [left] at usable
    simp [isNCName, nonEmpty, whole]

theorem toList_escaped_of_isNCName (position : TextPosition) {text : String}
    (named : isNCName text = true) : (position.escaped text).toList = text.toList := by
  have parts := ncNamePart_of_isNCName named
  rw [TextPosition.toList_escaped]
  generalize text.toList = characters at parts
  induction characters with
  | nil => rfl
  | cons character rest induction =>
      rw [List.flatMap_cons, position.escapedChar_of_ncNamePart (parts _ List.mem_cons_self),
        induction fun other member => parts other (List.mem_cons_of_mem _ member)]
      rfl

end Name

end XmlStream
