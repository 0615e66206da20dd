namespace XmlStream.Base64

/-! Base64 text of a payload that arrives in chunks. Three bytes make a group of
four symbols. Bytes that do not fill a group are carried over to the next chunk,
so the text does not depend on where the chunks were cut. -/

def alphabet : Array Char :=
  "ABCDEFGHIJKLMNOPQRSTUVWXYZabcdefghijklmnopqrstuvwxyz0123456789+/".toList.toArray

def padding : Char := '='

def symbol (bits : Nat) : Char := alphabet.getD bits padding

def group (first second third : UInt8) : List Char :=
  [symbol (first.toNat / 4),
    symbol (first.toNat % 4 * 16 + second.toNat / 16),
    symbol (second.toNat % 16 * 4 + third.toNat / 64),
    symbol (third.toNat % 64)]

/-- The bytes of a payload that wait for the rest of their group. -/
inductive Carry
  | empty
  | one (first : UInt8)
  | two (first second : UInt8)
deriving DecidableEq, Repr

namespace Carry

def bytes : Carry → List UInt8
  | .empty => []
  | .one first => [first]
  | .two first second => [first, second]

/-- The padded group that ends a payload. Nothing is written when no byte
waits. -/
def lastGroup : Carry → List Char
  | .empty => []
  | .one first =>
    [symbol (first.toNat / 4), symbol (first.toNat % 4 * 16), padding, padding]
  | .two first second =>
    [symbol (first.toNat / 4), symbol (first.toNat % 4 * 16 + second.toNat / 16),
      symbol (second.toNat % 16 * 4), padding]

end Carry

/-- The complete groups of some bytes, and what is left over. -/
def groups : List UInt8 → List Char × Carry
  | first :: second :: third :: rest =>
    let (text, carry) := groups rest
    (group first second third ++ text, carry)
  | [first, second] => ([], .two first second)
  | [first] => ([], .one first)
  | [] => ([], .empty)

def Carry.feed (carry : Carry) (chunk : List UInt8) : List Char × Carry :=
  groups (carry.bytes ++ chunk)

example : (Carry.empty.feed "Man".toUTF8.data.toList).1 = "TWFu".toList := by
  decide +kernel

example : (Carry.one 77).lastGroup = "TQ==".toList := by decide +kernel

end XmlStream.Base64
