import XmlStream.Proofs.Draft.Step
import XmlStream.Proofs.Text.References

namespace XmlStream.TextPosition

/-! Escaped text, character by character: every character stands for itself, or a
reference stands for it. The pieces that text is handed on in do not show. -/

def escapedChar (position : TextPosition) (character : Char) : List Char :=
  match position.escape? character with
  | none => [character]
  | some reference => reference.toList

theorem toList_foldr_append (pieces : List String) :
    (pieces.foldr (· ++ ·) "").toList = pieces.flatMap String.toList := by
  induction pieces with
  | nil => rfl
  | cons piece rest induction => simp [induction]

theorem flatMap_piecesFrom (position : TextPosition) (run text : List Char) :
    (position.piecesFrom run text).flatMap String.toList =
      run.reverse ++ text.flatMap position.escapedChar := by
  induction text generalizing run with
  | nil =>
      cases run <;> simp [piecesFrom]
  | cons character rest induction =>
      simp only [piecesFrom, List.flatMap_cons, escapedChar]
      cases found : position.escape? character with
      | none => simp [induction]
      | some reference => cases run <;> simp [induction]

theorem toList_escaped (position : TextPosition) (text : String) :
    (position.escaped text).toList = text.toList.flatMap position.escapedChar := by
  rw [escaped, pieces, toList_foldr_append, flatMap_piecesFrom]
  rfl

/-- What can stand for a character in a position: the character, a predefined entity, or
its number. -/
inductive Stands (position : TextPosition) (character : Char) : List Char → Prop
  | plain (notLess : character ≠ '<') (notGreater : character ≠ '>')
      (notAmpersand : character ≠ '&') (legal : CharacterClass.xml.hasChar character = true)
      (notQuote : ∀ quote, position = .attribute quote → character ≠ quote.char) :
      Stands position character [character]
  | entity (name : String) (predefined : predefined? name.toList = some character) :
      Stands position character (entityReference name).toList
  | number : Stands position character (hexReference character).toList

theorem stands_escapedChar (position : TextPosition) (character : Char) :
    Stands position character (position.escapedChar character) := by
  unfold escapedChar escape?
  cases entity : position.entityFor? character with
  | some name =>
      refine .entity name ?_
      unfold entityFor? at entity
      split at entity <;> first | cases entity | (split at entity <;> cases entity)
      all_goals rfl
  | none =>
      by_cases number : position.needsNumber character = true
      · simp only [number, if_true]
        exact .number
      · simp only [number, Bool.false_eq_true, if_false]
        refine .plain ?_ ?_ ?_ ?_ ?_
        · rintro rfl
          simp [entityFor?] at entity
        · rintro rfl
          simp [entityFor?] at entity
        · rintro rfl
          simp [entityFor?] at entity
        · unfold needsNumber at number
          split at number
          · decide +kernel
          · decide +kernel
          · simp at number
          · simpa using number
        · rintro quote rfl rfl
          cases quote <;> simp [entityFor?, Quote.char] at entity

end XmlStream.TextPosition
