import XmlStream.Escape

namespace XmlStream

/-! References in text: the predefined entities, and the numbers of characters. -/

instance (priority := high) decidableAll (text : List Char) (holds : Char → Prop)
    [DecidablePred holds] : Decidable (∀ character ∈ text, holds character) :=
  text.decidableBAll holds

def predefined? (name : List Char) : Option Char :=
  if name = "lt".toList then some '<'
  else if name = "gt".toList then some '>'
  else if name = "amp".toList then some '&'
  else if name = "quot".toList then some '"'
  else if name = "apos".toList then some '\''
  else none

def digitValue? (digit : Char) : Option Nat :=
  if '0' ≤ digit ∧ digit ≤ '9' then some (digit.toNat - '0'.toNat)
  else if 'a' ≤ digit ∧ digit ≤ 'f' then some (digit.toNat - 'a'.toNat + 10)
  else if 'A' ≤ digit ∧ digit ≤ 'F' then some (digit.toNat - 'A'.toNat + 10)
  else none

def addDigit (base : Nat) (number : Option Nat) (digit : Char) : Option Nat := do
  let number ← number
  let value ← digitValue? digit
  if value < base then some (base * number + value) else none

def number? (base : Nat) (digits : List Char) : Option Nat :=
  if digits.isEmpty then none else digits.foldl (addDigit base) (some 0)

theorem foldl_addDigit_toDigits {base : Nat} {spell : Char → Char} (large : 1 < base)
    (spells : ∀ value < base, digitValue? (spell value.digitChar) = some value) (number : Nat) :
    ((Nat.toDigits base number).map spell).foldl (addDigit base) (some 0) = some number := by
  induction number using Nat.strongRecOn with
  | ind number induction =>
      rw [Nat.toDigits_eq_if large]
      split
      · rename_i small
        simp [addDigit, spells _ small, small]
      · rename_i notSmall
        have smaller : number / base < number := Nat.div_lt_self (by omega) large
        have small : number % base < base := Nat.mod_lt _ (by omega)
        rw [List.map_append, List.foldl_append, induction _ smaller]
        simp only [List.map_cons, List.map_nil, List.foldl_cons, List.foldl_nil, addDigit,
          spells _ small, small, Option.bind_eq_bind, Option.bind_some, if_true]
        rw [Nat.div_add_mod]

theorem number?_upperHex (number : Nat) : number? 16 (upperHex number) = some number := by
  have digits : upperHex number ≠ [] := by simp [upperHex, Nat.toDigits_ne_nil]
  have spells : ∀ value < 16, digitValue? value.digitChar.toUpper = some value := by decide
  rw [number?, if_neg (by simpa using digits), upperHex,
    foldl_addDigit_toDigits (by omega) spells]

theorem number?_toDigits (number : Nat) :
    number? 10 (Nat.toDigits 10 number) = some number := by
  have spells : ∀ value < 10, digitValue? value.digitChar = some value := by decide
  have value := @foldl_addDigit_toDigits 10 id (by omega) spells number
  rw [number?, if_neg (by simp [Nat.toDigits_ne_nil])]
  simpa using value

theorem foldl_addDigit_none (base : Nat) (digits : List Char) :
    digits.foldl (addDigit base) none = none := by
  induction digits with
  | nil => rfl
  | cons digit rest induction => exact induction

theorem isSome_of_foldl_addDigit {base number : Nat} {digits : List Char} {start : Option Nat}
    (value : digits.foldl (addDigit base) start = some number) :
    ∀ digit ∈ digits, (digitValue? digit).isSome := by
  induction digits generalizing start with
  | nil => simp
  | cons digit rest induction =>
      rw [List.foldl_cons] at value
      simp only [List.mem_cons, forall_eq_or_imp]
      refine ⟨?_, induction value⟩
      cases found : digitValue? digit with
      | some _ => rfl
      | none =>
          have nothing : addDigit base start digit = none := by
            cases start <;> simp [addDigit, found]
          rw [nothing, foldl_addDigit_none] at value
          simp at value

theorem isSome_digitValue? {base number : Nat} {digits : List Char}
    (value : number? base digits = some number) :
    ∀ digit ∈ digits, (digitValue? digit).isSome := by
  unfold number? at value
  split at value
  · simp at value
  · exact isSome_of_foldl_addDigit value

theorem printable_of_digitValue? {digit : Char} (isDigit : (digitValue? digit).isSome) :
    0x20 ≤ digit.toNat ∧ digit.toNat < 0x80 := by
  unfold digitValue? at isDigit
  simp only [Char.le_def, UInt32.le_iff_toNat_le] at isDigit
  split at isDigit
  · rename_i range
    exact ⟨Nat.le_trans (by decide) range.1, Nat.lt_of_le_of_lt range.2 (by decide)⟩
  split at isDigit
  · rename_i range
    exact ⟨Nat.le_trans (by decide) range.1, Nat.lt_of_le_of_lt range.2 (by decide)⟩
  split at isDigit
  · rename_i range
    exact ⟨Nat.le_trans (by decide) range.1, Nat.lt_of_le_of_lt range.2 (by decide)⟩
  · cases isDigit

end XmlStream
