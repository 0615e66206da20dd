import XmlStream.Proofs.Charset.Transcription

namespace XmlStream

/-! Plain text, which has the same bytes in all character sets. Where a shift state is in the way the
switch out of it comes first. -/

namespace Charset

/-- The characters that have the same byte in every set, and in every shift state but for the kanji. -/
def IsPlain (character : Char) : Prop :=
  IsCommon character ∧ character ≠ '\\' ∧ character ≠ '~'

instance (character : Char) : Decidable (IsPlain character) :=
  inferInstanceAs (Decidable (_ ∧ _))

theorem utf8EncodeChar_of_plain {character : Char} (plain : IsPlain character) :
    String.utf8EncodeChar character = [UInt8.ofNat character.toNat] := by
  have small : character.val.toNat ≤ 127 := Nat.le_of_lt_succ plain.1.1
  simp only [String.utf8EncodeChar, if_pos small]
  rfl

end Charset

namespace Encoder

def IsDirect (encoder : Encoder) : Prop := encoder.charset = .iso2022jp → encoder.shift ≠ .kanji

theorem step_of_plain {encoder : Encoder} {character : Char} (direct : encoder.IsDirect)
    (plain : Charset.IsPlain character) :
    encoder.step character = { bytes := String.utf8EncodeChar character, encoder } := by
  rcases encoder with ⟨charset, shift⟩
  rcases plain with ⟨⟨small, common⟩, notBackslash, notTilde⟩
  by_cases utf8 : charset = .utf8
  · subst utf8
    rfl
  rw [Charset.utf8EncodeChar_of_plain ⟨⟨small, common⟩, notBackslash, notTilde⟩]
  by_cases japanese : charset = .iso2022jp
  · subst japanese
    cases shift with
    | kanji => exact absurd rfl (direct rfl)
    | ascii => simp [step, Charset.Japanese.step, common, small, Charset.Japanese.writeIn]
    | roman =>
        simp [step, Charset.Japanese.step, common, small, Charset.Japanese.writeIn, notBackslash,
          notTilde]
  · rw [step_table ⟨utf8, japanese⟩, Charset.SingleByte.byteOf?, if_pos small]

theorem step_of_kanji {encoder : Encoder} {character : Char} (kanji : ¬encoder.IsDirect)
    (plain : Charset.IsPlain character) :
    encoder.step character =
      { bytes := encoder.finish.bytes ++ String.utf8EncodeChar character
        encoder := encoder.finish.encoder } := by
  rcases encoder with ⟨charset, shift⟩
  rw [Charset.utf8EncodeChar_of_plain plain]
  rcases plain with ⟨⟨small, common⟩, notBackslash, notTilde⟩
  simp only [IsDirect, Classical.not_imp, ne_eq, Decidable.not_not] at kanji
  rcases kanji with ⟨rfl, rfl⟩
  simp [step, finish, Charset.Japanese.step, Charset.Japanese.finish, common, small,
    Charset.Japanese.writeIn]

theorem transcribe_of_plain {encoder : Encoder} {text : List Char} (direct : encoder.IsDirect)
    (plain : ∀ character ∈ text, Charset.IsPlain character) (bytes : ByteArray) :
    text.foldl pushOrRefer (encoder, bytes) = (encoder, bytes ++ text.utf8Encode) := by
  induction text generalizing bytes with
  | nil => simp
  | cons character rest induction =>
      have here := step_of_plain direct (plain character List.mem_cons_self)
      rw [List.foldl_cons, List.utf8Encode_cons, pushOrRefer, here]
      dsimp only
      rw [push, here, induction fun other member => plain other (List.mem_cons_of_mem _ member)]
      simp [List.utf8Encode_singleton, ByteArray.append_assoc]

/-- The bytes of a plain text, up to the switch back to the initial state, are the same in all sets.
The switch is made before the text or after it. -/
theorem finish_of_plain (encoder : Encoder) {text : List Char}
    (plain : ∀ character ∈ text, Charset.IsPlain character) :
    let (last, bytes) := text.foldl pushOrRefer (encoder, .empty)
    bytes ++ last.finish.bytes.toByteArray = text.utf8Encode ++ encoder.finish.bytes.toByteArray ∨
      bytes ++ last.finish.bytes.toByteArray =
        encoder.finish.bytes.toByteArray ++ text.utf8Encode := by
  by_cases direct : encoder.IsDirect
  · rw [transcribe_of_plain direct plain]
    simp
  · cases text with
    | nil => simp
    | cons character rest =>
        have here := step_of_kanji direct (plain character List.mem_cons_self)
        have settled : encoder.finish.encoder.IsDirect := by
          rcases encoder with ⟨charset, shift⟩
          simp only [IsDirect, Classical.not_imp, ne_eq, Decidable.not_not] at direct
          rcases direct with ⟨rfl, rfl⟩
          intro _
          simp [finish]
        have nothing : encoder.finish.encoder.finish.bytes = [] := by
          rcases encoder with ⟨charset, shift⟩
          simp only [IsDirect, Classical.not_imp, ne_eq, Decidable.not_not] at direct
          rcases direct with ⟨rfl, rfl⟩
          simp [finish, Charset.Japanese.finish]
        rw [List.foldl_cons, pushOrRefer, here]
        dsimp only
        rw [push, here, transcribe_of_plain settled fun other member =>
          plain other (List.mem_cons_of_mem _ member), nothing]
        rw [List.utf8Encode_cons, List.utf8Encode_singleton]
        simp [ByteArray.append_assoc]

end Encoder

end XmlStream
