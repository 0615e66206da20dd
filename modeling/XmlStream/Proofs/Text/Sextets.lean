import Mathlib.Tactic.Ring
import XmlStream.Proofs.Text.Payloads

namespace XmlStream.Base64

/-! Base64 by its bits: all bits of the bytes in a row, six for each symbol. That is what the symbols of
a payload are, in groups of three bytes and with what is left over at the end. -/

/-- The bits of a byte, the highest first. -/
def octet (byte : UInt8) : List Bool := [7, 6, 5, 4, 3, 2, 1, 0].map byte.toNat.testBit

/-- Bits in sixes. Zeros fill up the last ones. -/
def sextets : List Bool → List (List Bool)
  | first :: second :: third :: fourth :: fifth :: sixth :: rest =>
    [first, second, third, fourth, fifth, sixth] :: sextets rest
  | [] => []
  | last => [last ++ List.replicate (6 - last.length) false]

def number (bits : List Bool) : Nat := bits.foldl (fun number bit => 2 * number + bit.toNat) 0

/-- The symbol for a number: the letters, small ones after the capitals, the digits and two more. -/
def letter (number : Nat) : Char :=
  if number < 26 then Char.ofNat ('A'.toNat + number)
  else if number < 52 then Char.ofNat ('a'.toNat + (number - 26))
  else if number < 62 then Char.ofNat ('0'.toNat + (number - 52))
  else if number = 62 then '+'
  else '/'

def letters (bytes : List UInt8) : List Char :=
  (sextets (bytes.flatMap octet)).map fun bits => letter (number bits)

/-- Base64 as it is standardized. The symbols are filled up to fours. -/
def standard (bytes : List UInt8) : List Char :=
  letters bytes ++ List.replicate ((4 - (letters bytes).length % 4) % 4) '='

theorem symbol_eq_letter : ∀ bits < 64, symbol bits = letter bits := by decide +kernel

theorem number_append (bits more : List Bool) :
    number (bits ++ more) = number bits * 2 ^ more.length + number more := by
  have goesOn (start : Nat) : more.foldl (fun number bit => 2 * number + bit.toNat) start =
      start * 2 ^ more.length + number more := by
    induction more generalizing start with
    | nil => simp [number]
    | cons bit rest induction =>
        have first : number (bit :: rest) = bit.toNat * 2 ^ rest.length + number rest := by
          rw [number, List.foldl_cons, induction]
          simp
        rw [List.foldl_cons, induction, first, List.length_cons]
        ring
  rw [number, List.foldl_append, goesOn]
  rfl

def slice (byte : UInt8) (places : List Nat) : List Bool := places.map byte.toNat.testBit

theorem number_slice (byte : UInt8) :
    number (slice byte [7, 6, 5, 4, 3, 2]) = byte.toNat / 4 ∧
      number (slice byte [1, 0]) = byte.toNat % 4 ∧
      number (slice byte [7, 6, 5, 4]) = byte.toNat / 16 ∧
      number (slice byte [3, 2, 1, 0]) = byte.toNat % 16 ∧
      number (slice byte [7, 6]) = byte.toNat / 64 ∧
      number (slice byte [5, 4, 3, 2, 1, 0]) = byte.toNat % 64 := by
  have all : ∀ value < 256,
      number ([7, 6, 5, 4, 3, 2].map value.testBit) = value / 4 ∧
        number ([1, 0].map value.testBit) = value % 4 ∧
        number ([7, 6, 5, 4].map value.testBit) = value / 16 ∧
        number ([3, 2, 1, 0].map value.testBit) = value % 16 ∧
        number ([7, 6].map value.testBit) = value / 64 ∧
        number ([5, 4, 3, 2, 1, 0].map value.testBit) = value % 64 := by decide +kernel
  exact all _ byte.toNat_lt

theorem letters_group (first second third : UInt8) (rest : List UInt8) :
    letters (first :: second :: third :: rest) = group first second third ++ letters rest := by
  have bits : sextets ((first :: second :: third :: rest).flatMap octet) =
      [slice first [7, 6, 5, 4, 3, 2], slice first [1, 0] ++ slice second [7, 6, 5, 4],
        slice second [3, 2, 1, 0] ++ slice third [7, 6], slice third [5, 4, 3, 2, 1, 0]] ++
        sextets (rest.flatMap octet) := rfl
  have small := first.toNat_lt
  have smallToo := second.toNat_lt
  have smallThree := third.toNat_lt
  rcases number_slice first with ⟨high, low, _⟩
  rcases number_slice second with ⟨_, _, highToo, lowToo, _⟩
  rcases number_slice third with ⟨_, _, _, _, highThree, lowThree⟩
  rw [letters, bits, List.map_append]
  simp only [List.map_cons, List.map_nil, number_append, high, low, highToo, lowToo, highThree,
    lowThree]
  rw [group, symbol_eq_letter _ (by omega), symbol_eq_letter _ (by omega),
    symbol_eq_letter _ (by omega), symbol_eq_letter _ (by omega)]
  rfl

/-- A payload is the standard text of its bytes. -/
theorem encode_eq_standard (bytes : List UInt8) : encode bytes = standard bytes := by
  have parts (bytes : List UInt8) : encode bytes = (groups bytes).1 ++ (groups bytes).2.lastGroup := rfl
  rw [parts]
  induction bytes using groups.induct with
  | case1 first second third rest text carry found induction =>
      rw [found] at induction
      have four : (group first second third).length = 4 := rfl
      rw [groups, found, standard, letters_group, List.length_append, four, Nat.add_mod_left,
        List.append_assoc, List.append_assoc]
      exact congrArg (group first second third ++ ·) induction
  | case2 first second =>
      have bits : sextets ([first, second].flatMap octet) =
          [slice first [7, 6, 5, 4, 3, 2], slice first [1, 0] ++ slice second [7, 6, 5, 4],
            slice second [3, 2, 1, 0] ++ [false, false]] := rfl
      have small := first.toNat_lt
      have smallToo := second.toNat_lt
      rcases number_slice first with ⟨high, low, _⟩
      rcases number_slice second with ⟨_, _, highToo, lowToo, _⟩
      rw [standard, letters, bits]
      simp only [List.map_cons, List.map_nil, number_append, high, low, highToo, lowToo]
      rw [groups, Carry.lastGroup, symbol_eq_letter _ (by omega), symbol_eq_letter _ (by omega),
        symbol_eq_letter _ (by omega)]
      rfl
  | case3 first =>
      have bits : sextets ([first].flatMap octet) =
          [slice first [7, 6, 5, 4, 3, 2], slice first [1, 0] ++ [false, false, false, false]] := rfl
      have small := first.toNat_lt
      rcases number_slice first with ⟨high, low, _⟩
      rw [standard, letters, bits]
      simp only [List.map_cons, List.map_nil, number_append, high, low]
      rw [groups, Carry.lastGroup, symbol_eq_letter _ (by omega), symbol_eq_letter _ (by omega)]
      rfl
  | case4 => rfl

end XmlStream.Base64
