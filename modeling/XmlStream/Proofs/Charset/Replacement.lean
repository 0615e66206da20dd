import XmlStream.Proofs.Charset.Transcription

namespace XmlStream

/-! What is read in place of the characters that a set does not have, told by the tables of the sets,
and the shift state that bytes end in. -/

namespace Charset

def shiftControls : List Char := ['\x0e', '\x0f', '\x1b']

/-- Whether a set does not have a character. UTF-8 has all, a table those in its two halves, and
ISO-2022-JP has ASCII without the shift controls, two characters of the Roman set, and kana. -/
def lacks (charset : Charset) (character : Char) : Bool :=
  match charset with
  | .utf8 => false
  | .iso2022jp =>
      shiftControls.contains character ||
        decide (0x80 ≤ character.toNat) && !(['¥', '‾'].contains character) &&
          !decide (0x3041 ≤ character.toNat ∧ character.toNat ≤ 0x3093) &&
          !decide (0x30A1 ≤ character.toNat ∧ character.toNat ≤ 0x30F6)
  | charset => decide (0x80 ≤ character.toNat) && !charset.upperHalf.contains character.toNat

/-- The number in the reference to a missing character. The shift controls are told as the replacement
character. -/
def numberOf (character : Char) : Nat :=
  if shiftControls.contains character then 65533 else character.toNat

def replaced (charset : Charset) (character : Char) : List Char :=
  if charset.lacks character then
    ['&', '#'] ++ Nat.toDigits 10 (numberOf character) ++ [';']
  else [character]

theorem isShiftControl_toNat (character : Char) :
    Japanese.isShiftControl character.toNat = shiftControls.contains character := by
  have code (other : Char) : (character.toNat == other.toNat) = (character == other) := by
    rw [Bool.eq_iff_iff, beq_iff_eq, beq_iff_eq, Char.toNat_inj]
  simp only [Japanese.isShiftControl, shiftControls, List.contains_cons, List.contains_nil,
    Bool.or_false, ← code]
  rw [Bool.or_assoc]
  rfl

theorem lacks_of_table {charset : Charset} (table : charset.HasTable) (character : Char) :
    charset.lacks character =
      (decide (0x80 ≤ character.toNat) && !charset.upperHalf.contains character.toNat) := by
  cases charset with
  | utf8 => exact absurd rfl table.1
  | iso2022jp => exact absurd rfl table.2
  | _ => rfl

theorem isNone_byteOf? (upperHalf : List Nat) (character : Char) :
    (SingleByte.byteOf? upperHalf character).isNone =
      (decide (0x80 ≤ character.toNat) && !upperHalf.contains character.toNat) := by
  unfold SingleByte.byteOf?
  split
  · next small => simp [show ¬(0x80 ≤ character.toNat) by omega]
  · next large =>
      have stands : upperHalf.idxOf? character.toNat = none ↔ character.toNat ∉ upperHalf :=
        List.idxOf?_eq_none_iff
      rw [Bool.eq_iff_iff, Option.isNone_iff_eq_none, Option.map_eq_none_iff, stands]
      simp [show 0x80 ≤ character.toNat by omega]

theorem numberOf_of_large {character : Char} (large : 0x80 ≤ character.toNat) :
    numberOf character = character.toNat := by
  have notControl : shiftControls.contains character = false := by
    rw [← isShiftControl_toNat]
    simp only [Japanese.isShiftControl, Bool.or_eq_false_iff, beq_eq_false_iff_ne]
    omega
  rw [numberOf, notControl]
  rfl

theorem romanByte?_eq_none (character : Char) :
    Japanese.romanByte? character.toNat = none ↔ ['¥', '‾'].contains character = false := by
  unfold Japanese.romanByte?
  have code (other : Char) : (character == other) = (character.toNat == other.toNat) := by
    rw [Bool.eq_iff_iff, beq_iff_eq, beq_iff_eq, Char.toNat_inj]
  simp only [List.contains_cons, List.contains_nil, Bool.or_false, code]
  split
  · next same => simp [same]
  · next same => simp [same]
  · next yen overline => simp_all

theorem kanaBytes?_eq_none (code : Nat) :
    Japanese.kanaBytes? code = none ↔
      ¬(0x3041 ≤ code ∧ code ≤ 0x3093) ∧ ¬(0x30A1 ≤ code ∧ code ≤ 0x30F6) := by
  unfold Japanese.kanaBytes?
  split
  · next row => simp [row]
  · next notHiragana =>
      split
      · next row => simp [row]
      · next notKatakana => simp [notHiragana, notKatakana]

theorem missing?_japanese (character : Char) :
    Charset.iso2022jp.missing? character =
      if shiftControls.contains character then some '\uFFFD'
      else if Charset.iso2022jp.lacks character then some character else none := by
  simp only [missing?, Encoder.step, Japanese.step, isShiftControl_toNat]
  cases control : shiftControls.contains character with
  | true => rfl
  | false =>
      simp only [Bool.false_eq_true, if_false, lacks, control, Bool.false_or]
      by_cases small : character.toNat < 0x80
      · simp [small, show ¬(0x80 ≤ character.toNat) by omega, Japanese.writeIn]
      · simp only [small, if_false, show 0x80 ≤ character.toNat by omega, decide_true, Bool.true_and]
        cases roman : Japanese.romanByte? character.toNat with
        | some byte =>
            have stands : ['¥', '‾'].contains character = true := by
              by_contra absent
              rw [(romanByte?_eq_none character).mpr (by simpa using absent)] at roman
              cases roman
            simp only [stands, Bool.not_true, Bool.false_and, Bool.false_eq_true, if_false]
            rfl
        | none =>
            have absent := (romanByte?_eq_none character).mp roman
            cases kana : Japanese.kanaBytes? character.toNat with
            | some bytes =>
                have row := (kanaBytes?_eq_none character.toNat).not.mp (by simp [kana])
                rw [if_neg]
                · rfl
                · simp only [absent, Bool.not_false, Bool.true_and, Bool.and_eq_true,
                    Bool.not_eq_true', decide_eq_false_iff_not]
                  exact row
            | none =>
                have rows := (kanaBytes?_eq_none character.toNat).mp kana
                rw [if_pos]
                · rfl
                · simp only [absent, Bool.not_false, Bool.true_and, Bool.and_eq_true,
                    Bool.not_eq_true', decide_eq_false_iff_not]
                  exact rows

theorem shown_eq_replaced (charset : Charset) : charset.shown = charset.replaced := by
  funext character
  have referred (reported : Char) : (decimalReference reported).toList =
      ['&', '#'] ++ Nat.toDigits 10 reported.toNat ++ [';'] := by
    simp [toList_decimalReference]
  unfold shown replaced
  by_cases utf8 : charset = .utf8
  · subst utf8
    rfl
  by_cases japanese : charset = .iso2022jp
  · subst japanese
    rw [missing?_japanese, numberOf]
    cases control : shiftControls.contains character with
    | true =>
        simp only [lacks, control, Bool.true_or, if_true, referred]
        rfl
    | false =>
        cases lacking : Charset.iso2022jp.lacks character with
        | true => simp [referred]
        | false => rfl
  have table : charset.HasTable := ⟨utf8, japanese⟩
  rw [missing?, Encoder.step_table_missing table, isNone_byteOf?, lacks_of_table table]
  cases lacking : decide (0x80 ≤ character.toNat) && !charset.upperHalf.contains character.toNat with
  | true =>
      have large : 0x80 ≤ character.toNat := by
        simp only [Bool.and_eq_true, decide_eq_true_eq] at lacking
        exact lacking.1
      simp [referred, numberOf_of_large large]
  | false => rfl

/-! ## The shift state at the end -/

namespace Japanese

def follow (progress : Progress) (bytes : List UInt8) : Option Progress :=
  bytes.foldlM (fun progress byte => (accept progress byte).map (·.1)) progress

theorem decodeFrom_append (progress : Progress) (bytes : List UInt8) :
    (follow progress bytes = none ∧ ∀ more, decodeFrom progress (bytes ++ more) = none) ∨
      ∃ next text, follow progress bytes = some next ∧
        ∀ more, decodeFrom progress (bytes ++ more) = (decodeFrom next more).map (text ++ ·) := by
  induction bytes generalizing progress with
  | nil => exact .inr ⟨progress, [], rfl, fun more => by simp⟩
  | cons byte rest induction =>
      cases accepts : accept progress byte with
      | none => exact .inl ⟨by simp [follow, accepts], fun more => by simp [decodeFrom, accepts]⟩
      | some result =>
          obtain ⟨middle, first⟩ := result
          have follows : follow progress (byte :: rest) = follow middle rest := by
            simp [follow, accepts]
          have decodes (more : List UInt8) := decodeFrom_accept accepts (rest ++ more)
          obtain ⟨nowhere, fails⟩ | ⟨next, text, ends, goes⟩ := induction middle
          · exact .inl ⟨follows.trans nowhere, fun more => by simp [decodes, fails]⟩
          · refine .inr ⟨next, first ++ text, follows.trans ends, fun more => ?_⟩
            rw [List.cons_append, decodes, goes, Option.map_map]
            simp [Function.comp_def]

/-- Bytes behind which text is read as from the beginning end in ASCII: a backslash is read as such
there only. -/
theorem follow_of_decodeFrom {bytes : List UInt8} {text : List Char}
    (decodes : ∀ more, decodeFrom { shift := .ascii } (bytes ++ more) =
      (decodeFrom { shift := .ascii } more).map (text ++ ·)) :
    follow { shift := .ascii } bytes = some { shift := .ascii } := by
  obtain ⟨_, fails⟩ | ⟨⟨shift, begun⟩, read, ends, goes⟩ := decodeFrom_append { shift := .ascii } bytes
  · have nothing := (decodes []).symm.trans (fails [])
    simp [decodeFrom] at nothing
  · have complete := (goes []).symm.trans (decodes [])
    have backslash := (goes [0x5C]).symm.trans (decodes [0x5C])
    have finished : begun = [] := by
      by_contra unfinished
      simp [decodeFrom, unfinished] at complete
    subst finished
    cases shift with
    | ascii => exact ends
    | roman => simp [decodeFrom, accept, charOf] at backslash
    | kanji => simp [decodeFrom, accept] at backslash

end Japanese

end Charset

namespace Encoder

theorem reads_finish (encoder : Encoder) :
    encoder.Reads encoder.finish.bytes.toByteArray [] encoder.finish.encoder := by
  rcases encoder with ⟨charset, shift⟩
  by_cases japanese : charset = .iso2022jp
  · subst japanese
    refine ⟨rfl, fun more => ?_⟩
    cases shift with
    | ascii => simp [finish, Charset.Japanese.finish]
    | roman | kanji =>
        simp [finish, Charset.Japanese.finish, decodeFrom, Charset.Japanese.decodeFrom_enter]
  · have ends : ({ charset, shift } : Encoder).finish = { bytes := [], encoder := { charset, shift } } := by
      cases charset <;> first | rfl | exact absurd rfl japanese
    rw [ends]
    exact .refl _

theorem finish_finish (encoder : Encoder) :
    encoder.finish.encoder.finish = { bytes := [], encoder := encoder.finish.encoder } := by
  rcases encoder with ⟨charset, shift⟩
  cases charset <;> rfl

theorem decodeFrom_nil (encoder : Encoder) : encoder.finish.encoder.decodeFrom [] = some [] := by
  have ended := encoder.finish.encoder.decodeFrom_finish
  rwa [finish_finish] at ended

theorem finish_japanese {encoder : Encoder} (japanese : encoder.finish.encoder.charset = .iso2022jp) :
    encoder.finish.encoder = { charset := .iso2022jp, shift := .ascii } := by
  rcases encoder with ⟨charset, shift⟩
  cases charset <;> first | rfl | cases japanese

end Encoder

end XmlStream
