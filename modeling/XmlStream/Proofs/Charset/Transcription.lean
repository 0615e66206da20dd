import XmlStream.Proofs.Charset.Decoding
import XmlStream.Proofs.Output.Delivery
import XmlStream.Proofs.Text.References

namespace XmlStream

/-! Whole texts in a character set. What is read back is the text with decimal references in
place of the characters that the set does not have. -/

theorem toList_decimalReference (character : Char) :
    (decimalReference character).toList =
      '&' :: '#' :: (Nat.toDigits 10 character.toNat ++ [';']) := by
  simp [decimalReference]

namespace Charset

def missing? (charset : Charset) (character : Char) : Option Char :=
  (({ charset } : Encoder).step character).missing

def Has (charset : Charset) (character : Char) : Prop := charset.missing? character = none

instance (charset : Charset) (character : Char) : Decidable (charset.Has character) :=
  inferInstanceAs (Decidable (_ = _))

def shown (charset : Charset) (character : Char) : List Char :=
  match charset.missing? character with
  | none => [character]
  | some reported => (decimalReference reported).toList

def decode (charset : Charset) (bytes : ByteArray) : Option (List Char) :=
  ({ charset } : Encoder).decodeFrom bytes.data.toList

end Charset

namespace Encoder

theorem step_charset (encoder : Encoder) (character : Char) :
    (encoder.step character).encoder.charset = encoder.charset := by
  rcases encoder with ⟨charset, shift⟩
  by_cases utf8 : charset = .utf8
  · subst utf8
    rfl
  by_cases japanese : charset = .iso2022jp
  · subst japanese
    rfl
  rw [step_table ⟨utf8, japanese⟩]
  cases Charset.SingleByte.byteOf? charset.upperHalf character <;> rfl

theorem step_table_missing {encoder : Encoder} (table : encoder.charset.HasTable)
    (character : Char) : (encoder.step character).missing =
      if (Charset.SingleByte.byteOf? encoder.charset.upperHalf character).isNone then some character
      else none := by
  rw [step_table table]
  cases Charset.SingleByte.byteOf? encoder.charset.upperHalf character <;> rfl

/-- Whether a character is missing depends on nothing but the set. -/
theorem step_missing (encoder : Encoder) (character : Char) :
    (encoder.step character).missing = encoder.charset.missing? character := by
  rcases encoder with ⟨charset, shift⟩
  by_cases utf8 : charset = .utf8
  · subst utf8
    rfl
  by_cases japanese : charset = .iso2022jp
  · subst japanese
    exact Charset.Japanese.missing_step shift .ascii character
  rw [Charset.missing?, step_table_missing ⟨utf8, japanese⟩, step_table_missing ⟨utf8, japanese⟩]

end Encoder

namespace Charset

/-- The ASCII characters, but for the controls that steer shift states. -/
def IsCommon (character : Char) : Prop :=
  character.toNat < 0x80 ∧ Japanese.isShiftControl character.toNat = false

instance (character : Char) : Decidable (IsCommon character) :=
  inferInstanceAs (Decidable (_ ∧ _))

theorem IsCommon.has {charset : Charset} {character : Char} (common : IsCommon character) :
    charset.Has character := by
  rcases common with ⟨small, plain⟩
  by_cases utf8 : charset = .utf8
  · subst utf8
    rfl
  by_cases japanese : charset = .iso2022jp
  · subst japanese
    simp [Has, missing?, Encoder.step, Japanese.step, plain, small, Japanese.writeIn]
  rw [Has, missing?, Encoder.step_table_missing ⟨utf8, japanese⟩, SingleByte.byteOf?, if_pos small]
  rfl

theorem shown_of_has {charset : Charset} {character : Char} (has : charset.Has character) :
    charset.shown character = [character] := by
  unfold Has at has
  rw [shown, has]

theorem flatMap_shown_of_has {charset : Charset} {text : List Char}
    (has : ∀ character ∈ text, charset.Has character) : text.flatMap charset.shown = text := by
  induction text with
  | nil => rfl
  | cons character rest induction =>
      rw [List.flatMap_cons, shown_of_has (has _ List.mem_cons_self),
        induction fun other member => has other (List.mem_cons_of_mem _ member)]
      rfl

/-- A legal character that is missing is not in ASCII, and is reported as it is. -/
theorem missing?_of_legal {charset : Charset} {character reported : Char}
    (legal : CharacterClass.xml.hasChar character = true)
    (missing : charset.missing? character = some reported) :
    reported = character ∧ 0x80 ≤ character.toNat := by
  have notControl : Japanese.isShiftControl character.toNat = false := by
    by_contra control
    simp only [Japanese.isShiftControl, Bool.not_eq_false, Bool.or_eq_true, beq_iff_eq] at control
    rcases control with (control | control) | control <;>
      simp [CharacterClass.hasChar, control] at legal <;> revert legal <;> decide
  have large : 0x80 ≤ character.toNat := by
    by_contra small
    have has := @IsCommon.has charset character ⟨by omega, notControl⟩
    rw [Has, missing] at has
    cases has
  refine ⟨?_, large⟩
  by_cases utf8 : charset = .utf8
  · subst utf8
    cases missing
  by_cases japanese : charset = .iso2022jp
  · subst japanese
    simp only [missing?, Encoder.step, Japanese.step, notControl, Bool.false_eq_true, if_false,
      show ¬(character.toNat < 0x80) by omega] at missing
    split at missing
    · cases missing
    · cases missing
    · exact (Option.some.inj missing).symm
  rw [missing?, Encoder.step_table_missing ⟨utf8, japanese⟩] at missing
  split at missing
  · exact (Option.some.inj missing).symm
  · cases missing

theorem isCommon_of_digitValue? {digit : Char} (isDigit : (digitValue? digit).isSome) :
    IsCommon digit := by
  have printable := printable_of_digitValue? isDigit
  refine ⟨printable.2, ?_⟩
  simp only [Japanese.isShiftControl, Bool.or_eq_false_iff, beq_eq_false_iff_ne]
  omega

theorem isCommon_of_mem_toDigits {number : Nat} {digit : Char}
    (member : digit ∈ Nat.toDigits 10 number) : IsCommon digit :=
  isCommon_of_digitValue? (isSome_digitValue? (number?_toDigits number) digit member)

theorem has_decimalReference (charset : Charset) (reported : Char) :
    ∀ character ∈ (decimalReference reported).toList, charset.Has character := by
  have ampersand : IsCommon '&' := by decide
  have hash : IsCommon '#' := by decide
  have semicolon : IsCommon ';' := by decide
  intro character member
  rw [toList_decimalReference] at member
  simp only [List.mem_cons, List.mem_append, List.not_mem_nil, or_false] at member
  rcases member with rfl | rfl | member | rfl
  · exact ampersand.has
  · exact hash.has
  · exact (isCommon_of_mem_toDigits member).has
  · exact semicolon.has

end Charset

namespace Encoder

/-- An encoder has written bytes that are read as a text, and has come to `after`. -/
structure Reads (encoder : Encoder) (bytes : ByteArray) (text : List Char) (after : Encoder) :
    Prop where
  charset : after.charset = encoder.charset
  decodes : ∀ more, encoder.decodeFrom (bytes.data.toList ++ more) =
    (after.decodeFrom more).map (text ++ ·)

theorem Reads.refl (encoder : Encoder) : encoder.Reads .empty [] encoder :=
  ⟨rfl, fun more => by simp⟩

theorem Reads.trans {first second third : Encoder} {bytes more : ByteArray}
    {text rest : List Char} (earlier : first.Reads bytes text second)
    (later : second.Reads more rest third) : first.Reads (bytes ++ more) (text ++ rest) third where
  charset := later.charset.trans earlier.charset
  decodes := by
    intro others
    rw [ByteArray.data_append, Array.toList_append, List.append_assoc, earlier.decodes,
      later.decodes, Option.map_map]
    simp [Function.comp_def]

theorem reads_push (encoder : Encoder) (character : Char) :
    encoder.Reads (push (encoder, .empty) character).2
      (Charset.told (encoder.charset.missing? character) character)
      (push (encoder, .empty) character).1 where
  charset := encoder.step_charset character
  decodes := by
    intro more
    rw [← step_missing]
    simpa [push] using encoder.decodeFrom_step character more

theorem reads_foldl_push (encoder : Encoder) {text : List Char}
    (has : ∀ character ∈ text, encoder.charset.Has character) :
    encoder.Reads (text.foldl push (encoder, .empty)).2 text
      (text.foldl push (encoder, .empty)).1 := by
  induction text generalizing encoder with
  | nil => exact .refl encoder
  | cons character rest induction =>
      have first := encoder.reads_push character
      have found : encoder.charset.missing? character = none := has _ List.mem_cons_self
      rw [found] at first
      have later := induction (push (encoder, .empty) character).1 (by
        rw [first.charset]
        exact fun other member => has other (List.mem_cons_of_mem _ member))
      rw [List.foldl_cons, foldl_push_eq]
      exact first.trans later

theorem reads_pushOrRefer (encoder : Encoder) (character : Char) :
    encoder.Reads (pushOrRefer (encoder, .empty) character).2
      (encoder.charset.shown character) (pushOrRefer (encoder, .empty) character).1 := by
  have first := encoder.reads_push character
  unfold pushOrRefer Charset.shown
  rw [step_missing]
  cases missing : encoder.charset.missing? character with
  | none =>
      rw [missing] at first
      exact first
  | some reported =>
      rw [missing] at first
      have later := (push (encoder, .empty) character).1.reads_foldl_push
        ((push (encoder, .empty) character).1.charset.has_decimalReference reported)
      dsimp only
      rw [foldl_push_eq]
      exact first.trans later

/-- A text that is transcribed is read as it is shown in the set. -/
theorem reads_transcribe (encoder : Encoder) (text : String) :
    encoder.Reads (encoder.transcribe text).2 (text.toList.flatMap encoder.charset.shown)
      (encoder.transcribe text).1 := by
  unfold transcribe
  generalize text.toList = characters
  induction characters generalizing encoder with
  | nil => exact .refl encoder
  | cons character rest induction =>
      have first := encoder.reads_pushOrRefer character
      have later := induction (pushOrRefer (encoder, .empty) character).1
      rw [first.charset] at later
      rw [List.foldl_cons, foldl_pushOrRefer_eq, List.flatMap_cons]
      exact first.trans later

theorem decodeFrom_finish (encoder : Encoder) :
    encoder.decodeFrom encoder.finish.bytes = some [] := by
  rcases encoder with ⟨charset, shift⟩
  cases charset with
  | iso2022jp => exact Charset.Japanese.decodeFrom_finish shift
  | _ => rfl

end Encoder

theorem Charset.decode_toUTF8 (text : String) :
    Charset.utf8.decode text.toUTF8 = some text.toList := by
  have bytes : text.toUTF8.data.toList.toByteArray = text.toList.utf8Encode := by
    apply ByteArray.ext
    simp
  rw [Charset.decode, Encoder.decodeFrom]
  dsimp only
  rw [bytes, List.utf8Decode?_utf8Encode]
  simp

namespace OutputBuffer

variable {output : OutputBuffer} {text : String}

theorem decode_of_extends (extended : ({ sink := {} } : OutputBuffer).Extends text output) :
    Charset.utf8.decode output.terminate.delivered = some text.toList := by
  have noEncoder : output.encoder = none := extended.encoder
  have ended : output.terminate = output := by simp [terminate, noEncoder]
  have delivered : output.delivered = text.toUTF8 := by
    rw [extended.delivered]
    simp [OutputBuffer.delivered, encoded]
  rw [ended, delivered, Charset.decode_toUTF8]

theorem decode_of_extends_encoder {charset : Charset}
    (extended : ({ sink := {}, encoder := some { charset } } : OutputBuffer).Extends text output) :
    charset.decode output.terminate.delivered = some (text.toList.flatMap charset.shown) := by
  have reads := ({ charset } : Encoder).reads_transcribe text
  have encoder : output.encoder = some (({ charset } : Encoder).transcribe text).1 := extended.encoder
  have delivered : output.terminate.delivered = (({ charset } : Encoder).transcribe text).2 ++
      (({ charset } : Encoder).transcribe text).1.finish.bytes.toByteArray := by
    have before := extended.delivered
    simp only [OutputBuffer.delivered, encoded, ByteArray.empty_append] at before
    simp only [terminate, encoder, OutputBuffer.delivered]
    rw [← ByteArray.append_assoc, before]
  rw [delivered, Charset.decode, ByteArray.data_append, Array.toList_append, reads.decodes]
  simp [Encoder.decodeFrom_finish]

end OutputBuffer

end XmlStream
