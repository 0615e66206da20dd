import Mathlib.Data.List.Basic
import XmlStream.Encoder

namespace XmlStream

/-! How bytes are read back as text. What an encoder has written is read as the text that it
was given, with references in place of the characters that are missing. -/

namespace Charset

theorem toNat_byte {number : Nat} (small : number < 256) : (UInt8.ofNat number).toNat = number := by
  rw [UInt8.toNat_ofNat']
  omega

/-- What encoding a character is read as: the character, or nothing if that is missing. -/
def told (missing : Option Char) (character : Char) : List Char :=
  if missing.isNone then [character] else []

namespace SingleByte

def charOf? (upperHalf : List Nat) (byte : UInt8) : Option Char :=
  if byte.toNat < 128 then some (Char.ofNat byte.toNat)
  else upperHalf[byte.toNat - 128]?.map Char.ofNat

theorem charOf?_of_byteOf? {upperHalf : List Nat} (sized : upperHalf.length = 128)
    {character : Char} {byte : UInt8} (written : byteOf? upperHalf character = some byte) :
    charOf? upperHalf byte = some character := by
  unfold byteOf? at written
  split at written
  · rename_i small
    cases written
    have same : (UInt8.ofNat character.toNat).toNat = character.toNat :=
      toNat_byte (by omega)
    rw [charOf?, same, if_pos small, Char.ofNat_toNat]
  · rcases Option.map_eq_some_iff.mp written with ⟨index, found, rfl⟩
    rcases List.idxOf?_eq_some_iff.mp found with ⟨inside, stands, _⟩
    have same : (UInt8.ofNat (128 + index)).toNat = 128 + index :=
      toNat_byte (by omega)
    have large : ¬(128 + index < 128) := by omega
    have position : 128 + index - 128 = index := by omega
    rw [charOf?, same, if_neg large, position, List.getElem?_eq_getElem inside, stands,
      Option.map_some, Char.ofNat_toNat]

end SingleByte

namespace Japanese

def entered? (second third : UInt8) : Option Shift :=
  [Shift.ascii, .roman, .kanji].find? fun shift => shift.enter == [0x1B, second, third]

def charOf (shift : Shift) (byte : UInt8) : Char :=
  if shift = .roman ∧ byte = 0x5C then '¥'
  else if shift = .roman ∧ byte = 0x7E then '‾'
  else Char.ofNat byte.toNat

def kanaIn? (first length : Nat) (trail : UInt8) : Option Char :=
  if 0x21 ≤ trail.toNat ∧ trail.toNat < 0x21 + length then
    some (Char.ofNat (first + (trail.toNat - 0x21)))
  else none

def kana? (lead trail : UInt8) : Option Char :=
  if lead = 0x24 then kanaIn? 0x3041 83 trail
  else if lead = 0x25 then kanaIn? 0x30A1 86 trail
  else none

structure Progress where
  shift : Shift
  begun : List UInt8 := []

def accept (progress : Progress) (byte : UInt8) : Option (Progress × List Char) :=
  match progress.begun with
  | [] =>
    if byte = 0x1B ∨ progress.shift = .kanji then
      some ({ progress with begun := [byte] }, [])
    else if byte < 0x80 then some (progress, [charOf progress.shift byte])
    else none
  | [first] =>
    if first = 0x1B then some ({ progress with begun := [first, byte] }, [])
    else (kana? first byte).map fun kana => ({ progress with begun := [] }, [kana])
  | _ :: second :: _ => (entered? second byte).map fun shift => ({ shift }, [])

/-- Read bytes. Nothing may be left begun at their end. -/
def decodeFrom (progress : Progress) : List UInt8 → Option (List Char)
  | [] => if progress.begun = [] then some [] else none
  | byte :: rest =>
    (accept progress byte).bind fun next => (decodeFrom next.1 rest).map (next.2 ++ ·)

theorem decodeFrom_accept {progress next : Progress} {byte : UInt8} {text : List Char}
    (accepts : accept progress byte = some (next, text)) (more : List UInt8) :
    decodeFrom progress (byte :: more) = (decodeFrom next more).map (text ++ ·) := by
  rw [decodeFrom, accepts, Option.bind_some]

theorem decodeFrom_single {shift : Shift} {byte : UInt8} (notKanji : shift ≠ .kanji)
    (notEscape : byte ≠ 0x1B) (small : byte < 0x80) (more : List UInt8) :
    decodeFrom { shift } (byte :: more) =
      (decodeFrom { shift } more).map (charOf shift byte :: ·) := by
  have accepts : accept { shift } byte = some ({ shift }, [charOf shift byte]) := by
    simp [accept, notKanji, notEscape, small]
  exact decodeFrom_accept accepts more

theorem decodeFrom_kanji {lead trail : UInt8} {kana : Char} (notEscape : lead ≠ 0x1B)
    (stands : kana? lead trail = some kana) (more : List UInt8) :
    decodeFrom { shift := .kanji } (lead :: trail :: more) =
      (decodeFrom { shift := .kanji } more).map (kana :: ·) := by
  have first : accept { shift := .kanji } lead = some (⟨.kanji, [lead]⟩, []) := by simp [accept]
  have second : accept ⟨.kanji, [lead]⟩ trail = some ({ shift := .kanji }, [kana]) := by
    simp [accept, notEscape, stands]
  rw [decodeFrom_accept first, decodeFrom_accept second, Option.map_map]
  rfl

theorem decodeFrom_enter (shift target : Shift) (more : List UInt8) :
    decodeFrom { shift } (target.enter ++ more) = decodeFrom { shift := target } more := by
  cases target <;> simp [Shift.enter, decodeFrom, accept, entered?, Function.comp_def]

theorem decodeFrom_writeIn (shift target : Shift) (bytes more : List UInt8) :
    decodeFrom { shift } ((writeIn shift target bytes).bytes ++ more) =
      decodeFrom { shift := target } (bytes ++ more) := by
  simp only [writeIn]
  split
  · rename_i same
    rw [same]
  · rw [List.append_assoc, decodeFrom_enter]

theorem decodeFrom_refuse (shift : Shift) (reported character : Char) (more : List UInt8) :
    decodeFrom { shift } ((refuse shift reported).bytes ++ more) =
      (decodeFrom { shift := (refuse shift reported).shift } more).map
        (told (refuse shift reported).missing character ++ ·) := by
  cases shift with
  | kanji => simp [refuse, told, decodeFrom_enter .kanji .ascii more]
  | ascii | roman => simp [refuse, told]

theorem charOf_of_romanByte? {character : Char} {byte : UInt8}
    (roman : romanByte? character.toNat = some byte) :
    charOf .roman byte = character ∧ byte ≠ 0x1B ∧ byte < 0x80 := by
  unfold romanByte? at roman
  split at roman
  · rename_i same
    cases roman
    refine ⟨?_, by decide, by decide⟩
    rw [← Char.ofNat_toNat character, same]
    decide
  · rename_i same
    cases roman
    refine ⟨?_, by decide, by decide⟩
    rw [← Char.ofNat_toNat character, same]
    decide
  · cases roman

theorem kanaIn?_ofNat {first length : Nat} {character : Char} (low : first ≤ character.toNat)
    (high : character.toNat < first + length) (small : length ≤ 94) :
    kanaIn? first length (UInt8.ofNat (0x21 + (character.toNat - first))) = some character := by
  have same : (UInt8.ofNat (0x21 + (character.toNat - first))).toNat =
      0x21 + (character.toNat - first) := toNat_byte (by omega)
  have back : first + (0x21 + (character.toNat - first) - 0x21) = character.toNat := by omega
  rw [kanaIn?, same, if_pos (by omega), back, Char.ofNat_toNat]

theorem kana?_of_kanaBytes? {character : Char} {bytes : List UInt8}
    (kana : kanaBytes? character.toNat = some bytes) :
    ∃ lead trail, bytes = [lead, trail] ∧ lead ≠ 0x1B ∧ kana? lead trail = some character := by
  unfold kanaBytes? at kana
  split at kana
  · rename_i row
    cases kana
    have stands := @kanaIn?_ofNat _ 83 _ row.1 (by omega) (by omega)
    exact ⟨0x24, _, rfl, by decide, by rw [kana?, if_pos rfl, stands]⟩
  · split at kana
    · rename_i row
      cases kana
      have stands := @kanaIn?_ofNat _ 86 _ row.1 (by omega) (by omega)
      exact ⟨0x25, _, rfl, by decide, by rw [kana?, if_neg (by decide), if_pos rfl, stands]⟩
    · cases kana

/-- ASCII characters stand for themselves, but for the two that the Roman set lacks. -/
theorem charOf_ofNat {shift : Shift} {character : Char} (small : character.toNat < 0x80)
    (free : shift = .roman → character ≠ '\\' ∧ character ≠ '~') :
    charOf shift (UInt8.ofNat character.toNat) = character := by
  have same : (UInt8.ofNat character.toNat).toNat = character.toNat :=
    toNat_byte (by omega)
  have differs (other : Char) {byte : UInt8} (code : byte.toNat = other.toNat)
      (different : character ≠ other) : UInt8.ofNat character.toNat ≠ byte := by
    intro equal
    rw [equal, code] at same
    exact different (Char.toNat_inj.mp same.symm)
  rw [charOf, if_neg, if_neg, same, Char.ofNat_toNat]
  · exact fun roman => differs '~' rfl (free roman.1).2 roman.2
  · exact fun roman => differs '\\' rfl (free roman.1).1 roman.2

theorem decodeFrom_step (shift : Shift) (character : Char) (more : List UInt8) :
    decodeFrom { shift } ((step shift character).bytes ++ more) =
      (decodeFrom { shift := (step shift character).shift } more).map
        (told (step shift character).missing character ++ ·) := by
  unfold step
  dsimp only
  split
  · exact decodeFrom_refuse shift '\uFFFD' character more
  rename_i notControl
  split
  · rename_i small
    have same : (UInt8.ofNat character.toNat).toNat = character.toNat :=
      toNat_byte (by omega)
    have notEscape : UInt8.ofNat character.toNat ≠ 0x1B := by
      intro isEscape
      rw [isEscape] at same
      simp [isShiftControl, ← same] at notControl
    have smallByte : UInt8.ofNat character.toNat < 0x80 := by
      rw [UInt8.lt_iff_toNat_lt, same]
      exact small
    rw [decodeFrom_writeIn, List.singleton_append]
    split
    · rename_i roman
      rw [decodeFrom_single (by simp) notEscape smallByte,
        charOf_ofNat small fun _ => roman.2]
      rfl
    · rw [decodeFrom_single (by simp) notEscape smallByte, charOf_ofNat small (by simp)]
      rfl
  · split
    · rename_i byte roman
      rcases charOf_of_romanByte? roman with ⟨stands, notEscape, smallByte⟩
      rw [decodeFrom_writeIn, List.singleton_append,
        decodeFrom_single (by simp) notEscape smallByte, stands]
      rfl
    · rename_i bytes kana
      rcases kana?_of_kanaBytes? kana with ⟨lead, trail, rfl, notEscape, stands⟩
      rw [decodeFrom_writeIn, List.cons_append, List.cons_append, List.nil_append,
        decodeFrom_kanji notEscape stands]
      rfl
    · exact decodeFrom_refuse shift character character more

theorem decodeFrom_finish (shift : Shift) :
    decodeFrom { shift } (finish shift) = some [] := by
  cases shift <;> rfl

theorem missing_step (shift other : Shift) (character : Char) :
    (step shift character).missing = (step other character).missing := by
  have refused (reported : Char) :
      (refuse shift reported).missing = (refuse other reported).missing := by
    cases shift <;> cases other <;> rfl
  unfold step
  dsimp only
  split
  · exact refused '\uFFFD'
  · split
    · rfl
    · split
      · rfl
      · rfl
      · exact refused character

end Japanese

def upperHalf : Charset → List Nat
  | .windows1252 => SingleByte.windows1252
  | .iso8859Part15 => SingleByte.iso8859Part15
  | .koi8r => SingleByte.koi8r
  | .windows1251 => SingleByte.windows1251
  | .userDefined => SingleByte.userDefined
  | .utf8 | .iso2022jp => []

def HasTable (charset : Charset) : Prop := charset ≠ .utf8 ∧ charset ≠ .iso2022jp

theorem length_upperHalf {charset : Charset} (table : charset.HasTable) :
    charset.upperHalf.length = 128 := by
  cases charset with
  | utf8 => exact absurd rfl table.1
  | iso2022jp => exact absurd rfl table.2
  | _ => decide +kernel

end Charset

namespace Encoder

def decodeFrom (encoder : Encoder) (bytes : List UInt8) : Option (List Char) :=
  match encoder.charset with
  | .utf8 => bytes.toByteArray.utf8Decode?.map Array.toList
  | .iso2022jp => Charset.Japanese.decodeFrom { shift := encoder.shift } bytes
  | charset => bytes.mapM (Charset.SingleByte.charOf? charset.upperHalf)

theorem decodeFrom_table {encoder : Encoder} (table : encoder.charset.HasTable)
    (bytes : List UInt8) : encoder.decodeFrom bytes =
      bytes.mapM (Charset.SingleByte.charOf? encoder.charset.upperHalf) := by
  unfold decodeFrom
  split
  · rename_i found
    exact absurd found table.1
  · rename_i found
    exact absurd found table.2
  · rfl

theorem step_table {encoder : Encoder} (table : encoder.charset.HasTable) (character : Char) :
    encoder.step character =
      match Charset.SingleByte.byteOf? encoder.charset.upperHalf character with
      | some byte => { bytes := [byte], encoder }
      | none => { bytes := [], encoder, missing := some character } := by
  unfold step
  split <;> rename_i found
  · exact absurd found table.1
  iterate 5
    · rw [found]
      rfl
  · exact absurd found table.2

theorem utf8Decode?_cons (character : Char) (bytes : ByteArray) :
    ((String.utf8EncodeChar character).toByteArray ++ bytes).utf8Decode? =
      bytes.utf8Decode?.map fun text => (character :: text.toList).toArray := by
  rw [← List.utf8Encode_singleton]
  cases found : bytes.utf8Decode? with
  | none =>
      have notValid : ¬bytes.IsValidUTF8 := by
        rw [← ByteArray.isSome_utf8Decode?_iff, found]
        simp
      rw [← ByteArray.isValidUTF8_utf8Encode_singleton_append_iff (c := character),
        ← ByteArray.isSome_utf8Decode?_iff] at notValid
      simpa using notValid
  | some text =>
      have valid : bytes.IsValidUTF8 := by
        rw [← ByteArray.isSome_utf8Decode?_iff, found]
        rfl
      rcases valid with ⟨characters, rfl⟩
      rw [List.utf8Decode?_utf8Encode] at found
      cases found
      rw [← List.utf8Encode_cons, List.utf8Decode?_utf8Encode]
      rfl

/-- What a step has written is read back. -/
theorem decodeFrom_step (encoder : Encoder) (character : Char) (more : List UInt8) :
    encoder.decodeFrom ((encoder.step character).bytes ++ more) =
      ((encoder.step character).encoder.decodeFrom more).map
        (Charset.told (encoder.step character).missing character ++ ·) := by
  rcases encoder with ⟨charset, shift⟩
  by_cases utf8 : charset = .utf8
  · subst utf8
    simp only [step, decodeFrom, List.toByteArray_append, utf8Decode?_cons, Option.map_map]
    rfl
  by_cases japanese : charset = .iso2022jp
  · subst japanese
    exact Charset.Japanese.decodeFrom_step shift character more
  have table : charset.HasTable := ⟨utf8, japanese⟩
  rw [step_table table]
  cases found : Charset.SingleByte.byteOf? charset.upperHalf character with
  | none => simp [Charset.told]
  | some byte =>
      have back := Charset.SingleByte.charOf?_of_byteOf? (Charset.length_upperHalf table) found
      simp only
      rw [decodeFrom_table table, decodeFrom_table table, List.singleton_append, List.mapM_cons,
        back]
      cases more.mapM (Charset.SingleByte.charOf? charset.upperHalf) <;> rfl

end Encoder

end XmlStream
