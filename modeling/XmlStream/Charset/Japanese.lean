import XmlStream.Charset

namespace XmlStream.Charset.Japanese

/-! ISO-2022-JP. One byte stands for different characters in different shift
states, and an escape sequence enters a state. ASCII and the Roman set take one
byte for each character, the kanji set two. -/

/-- The set of characters that bytes currently stand for. -/
inductive Shift
  | ascii
  | roman
  | kanji
deriving DecidableEq, Repr

def Shift.enter : Shift → List UInt8
  | .ascii => [0x1B, 0x28, 0x42]
  | .roman => [0x1B, 0x28, 0x4A]
  | .kanji => [0x1B, 0x24, 0x42]

/-- What one character becomes: the bytes, the shift state after them, and the
character to report if the set does not have it. -/
structure Step where
  bytes : List UInt8
  shift : Shift
  missing : Option Char := none
deriving DecidableEq, Repr

/-- The controls that steer shift states elsewhere. They are refused, so that
text cannot smuggle in an escape sequence. -/
def isShiftControl (code : Nat) : Bool := code == 0x0E || code == 0x0F || code == 0x1B

/-- The two characters that the Roman set has in place of `\` and `~`. -/
def romanByte? : Nat → Option UInt8
  | 0xA5 => some 0x5C
  | 0x203E => some 0x7E
  | _ => none

/-- The two bytes of a kana: row 4 of the kanji set holds hiragana and row 5
katakana, both in the order of their code points. -/
def kanaBytes? (code : Nat) : Option (List UInt8) :=
  if 0x3041 ≤ code ∧ code ≤ 0x3093 then
    some [0x24, UInt8.ofNat (0x21 + (code - 0x3041))]
  else if 0x30A1 ≤ code ∧ code ≤ 0x30F6 then
    some [0x25, UInt8.ofNat (0x21 + (code - 0x30A1))]
  else none

def writeIn (current target : Shift) (bytes : List UInt8) : Step where
  bytes := if current = target then bytes else target.enter ++ bytes
  shift := target

/-- Report a missing character. The kanji set is left first, since what is
written in place of the character is ASCII text; the Roman set may stay. -/
def refuse (current : Shift) (reported : Char) : Step :=
  match current with
  | .kanji => { bytes := Shift.ascii.enter, shift := .ascii, missing := some reported }
  | _ => { bytes := [], shift := current, missing := some reported }

/-- Write one character. In the Roman set ASCII characters are written as they
are, except for the two that it does not have. -/
def step (current : Shift) (character : Char) : Step :=
  let code := character.toNat
  if isShiftControl code then refuse current '\uFFFD'
  else if code < 0x80 then
    let target :=
      if current = .roman ∧ character ≠ '\\' ∧ character ≠ '~' then .roman else .ascii
    writeIn current target [UInt8.ofNat code]
  else
    match romanByte? code, kanaBytes? code with
    | some byte, _ => writeIn current .roman [byte]
    | none, some bytes => writeIn current .kanji bytes
    | none, none => refuse current character

/-- The bytes that end a text: a switch back to ASCII, unless it is current. -/
def finish (current : Shift) : List UInt8 :=
  if current = .ascii then [] else Shift.ascii.enter

example : step .ascii 'あ' = { bytes := [0x1B, 0x24, 0x42, 0x24, 0x22], shift := .kanji } := by
  decide +kernel

example : (step .ascii '¥').shift = .roman ∧ (step .roman '\\').shift = .ascii := by
  decide +kernel

end XmlStream.Charset.Japanese
