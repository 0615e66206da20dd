namespace XmlStream

/-! Character classes of XML 1.0 and of its namespaces, as unions of ranges of
code points. A class answers for every number, so that a number which is not a
Unicode scalar value can be asked about too. -/

structure CodeRange where
  first : Nat
  last : Nat
deriving DecidableEq, Repr

def CodeRange.has (range : CodeRange) (code : Nat) : Bool :=
  range.first ≤ code && code ≤ range.last

def CodeRange.single (code : Nat) : CodeRange := ⟨code, code⟩

abbrev CharacterClass := List CodeRange

namespace CharacterClass

def has (ranges : CharacterClass) (code : Nat) : Bool :=
  ranges.any (·.has code)

def hasChar (ranges : CharacterClass) (character : Char) : Bool :=
  ranges.has character.toNat

/-- The production `Char`: what may stand in a document at all. -/
def xml : CharacterClass :=
  [.single 0x9, .single 0xA, .single 0xD, ⟨0x20, 0xD7FF⟩, ⟨0xE000, 0xFFFD⟩,
    ⟨0x10000, 0x10FFFF⟩]

/-- White space of the production `S`: space, tab and the two line ends. -/
def blank : CharacterClass :=
  [.single 0x20, .single 0x9, .single 0xA, .single 0xD]

def ncNameStart : CharacterClass :=
  [⟨'a'.toNat, 'z'.toNat⟩, ⟨'A'.toNat, 'Z'.toNat⟩, .single '_'.toNat,
    ⟨0xC0, 0xD6⟩, ⟨0xD8, 0xF6⟩, ⟨0xF8, 0x2FF⟩, ⟨0x370, 0x37D⟩, ⟨0x37F, 0x1FFF⟩,
    ⟨0x200C, 0x200D⟩, ⟨0x2070, 0x218F⟩, ⟨0x2C00, 0x2FEF⟩, ⟨0x3001, 0xD7FF⟩,
    ⟨0xF900, 0xFDCF⟩, ⟨0xFDF0, 0xFFFD⟩, ⟨0x10000, 0xEFFFF⟩]

def ncNamePart : CharacterClass :=
  ncNameStart ++ [⟨'0'.toNat, '9'.toNat⟩, .single '-'.toNat, .single '.'.toNat,
    .single 0xB7, ⟨0x300, 0x36F⟩, ⟨0x203F, 0x2040⟩]

def nameStart : CharacterClass := .single ':'.toNat :: ncNameStart

def namePart : CharacterClass := .single ':'.toNat :: ncNamePart

example : blank.has 0xC = false := by decide

example : xml.has 0xD800 = false := by decide

example : namePart.hasChar '-' = true ∧ nameStart.hasChar '-' = false := by decide

end CharacterClass

structure CharacterTraits where
  xml : Bool
  blank : Bool
  nameStart : Bool
  namePart : Bool
  ncNameStart : Bool
  ncNamePart : Bool
deriving DecidableEq, Repr

def CharacterTraits.of (code : Nat) : CharacterTraits where
  xml := CharacterClass.xml.has code
  blank := CharacterClass.blank.has code
  nameStart := CharacterClass.nameStart.has code
  namePart := CharacterClass.namePart.has code
  ncNameStart := CharacterClass.ncNameStart.has code
  ncNamePart := CharacterClass.ncNamePart.has code

end XmlStream
