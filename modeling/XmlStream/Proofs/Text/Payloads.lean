import XmlStream.Base64
import XmlStream.Hexadecimal
import XmlStream.Proofs.Text.References

namespace XmlStream

/-! Payloads as they are read: bytes from base64 and from hexadecimal digits. -/

theorem of_getD {Holds : Char → Prop} {symbols : Array Char} {fallback : Char} (position : Nat)
    (all : ∀ character ∈ symbols.toList, Holds character) (other : Holds fallback) :
    Holds (symbols.getD position fallback) := by
  rw [Array.getD]
  split
  · exact all _ (by simp)
  · exact other

namespace Base64

/-! ## Chunks -/

theorem groups_append (bytes more : List UInt8) :
    groups (bytes ++ more) =
      ((groups bytes).1 ++ ((groups bytes).2.feed more).1, ((groups bytes).2.feed more).2) := by
  induction bytes using groups.induct with
  | case1 first second third rest text carry found induction =>
      rw [found] at induction
      simp [groups, found, induction]
  | case2 first second => rfl
  | case3 first => rfl
  | case4 => rfl

theorem feed_append (carry : Carry) (chunk more : List UInt8) :
    carry.feed (chunk ++ more) =
      ((carry.feed chunk).1 ++ ((carry.feed chunk).2.feed more).1,
        ((carry.feed chunk).2.feed more).2) := by
  rw [Carry.feed, ← List.append_assoc, groups_append]
  rfl

def encode (bytes : List UInt8) : List Char :=
  (Carry.empty.feed bytes).1 ++ (Carry.empty.feed bytes).2.lastGroup

/-! ## Characters -/

section Characters

variable {Holds : Char → Prop} (symbols : ∀ bits, Holds (symbol bits))

include symbols

theorem of_mem_groups (bytes : List UInt8) : ∀ character ∈ (groups bytes).1, Holds character := by
  induction bytes using groups.induct with
  | case1 first second third rest text carry found induction =>
      rw [found] at induction
      intro character member
      rw [groups, found] at member
      rcases List.mem_append.mp member with member | member
      · simp only [group, List.mem_cons, List.not_mem_nil, or_false] at member
        rcases member with rfl | rfl | rfl | rfl <;> exact symbols _
      · exact induction character member
  | case2 | case3 | case4 => simp [groups]

theorem of_mem_lastGroup (padded : Holds padding) {carry : Carry} :
    ∀ character ∈ carry.lastGroup, Holds character := by
  cases carry with
  | empty => simp [Carry.lastGroup]
  | one first =>
      simp only [Carry.lastGroup, List.mem_cons, List.not_mem_nil, or_false, forall_eq_or_imp,
        forall_eq]
      exact ⟨symbols _, symbols _, padded, padded⟩
  | two first second =>
      simp only [Carry.lastGroup, List.mem_cons, List.not_mem_nil, or_false, forall_eq_or_imp,
        forall_eq]
      exact ⟨symbols _, symbols _, symbols _, padded⟩

theorem of_mem_encode (padded : Holds padding) (bytes : List UInt8) :
    ∀ character ∈ encode bytes, Holds character := by
  intro character member
  rcases List.mem_append.mp member with member | member
  · exact of_mem_groups symbols _ character member
  · exact of_mem_lastGroup symbols padded character member

end Characters

/-! ## Decoding -/

def bits? (symbol : Char) : Option Nat :=
  if 'A' ≤ symbol ∧ symbol ≤ 'Z' then some (symbol.toNat - 'A'.toNat)
  else if 'a' ≤ symbol ∧ symbol ≤ 'z' then some (symbol.toNat - 'a'.toNat + 26)
  else if '0' ≤ symbol ∧ symbol ≤ '9' then some (symbol.toNat - '0'.toNat + 52)
  else if symbol = '+' then some 62
  else if symbol = '/' then some 63
  else none

/-- The bytes of the first two symbols of a group, of the middle ones, and of the last two. -/
def firstByte (first second : Nat) : UInt8 := UInt8.ofNat (first * 4 + second / 16)

@[inherit_doc firstByte]
def secondByte (second third : Nat) : UInt8 := UInt8.ofNat (second % 16 * 16 + third / 4)

@[inherit_doc firstByte]
def thirdByte (third fourth : Nat) : UInt8 := UInt8.ofNat (third % 4 * 64 + fourth)

/-- The bytes of a group that is filled up with padding. -/
def decodeLast? (first second third : Char) : Option (List UInt8) := do
  let first ← bits? first
  let second ← bits? second
  if third = '=' then return [firstByte first second]
  let third ← bits? third
  return [firstByte first second, secondByte second third]

/-- The bytes that a text in base64 stands for. Only its last group may be filled up. -/
def decode? : List Char → Option (List UInt8)
  | [] => some []
  | first :: second :: third :: fourth :: rest =>
    if fourth = '=' ∧ rest = [] then decodeLast? first second third
    else do
      let first ← bits? first
      let second ← bits? second
      let third ← bits? third
      let fourth ← bits? fourth
      let later ← decode? rest
      return firstByte first second :: secondByte second third :: thirdByte third fourth :: later
  | _ => none

theorem bits?_symbol : ∀ bits < 64, bits? (symbol bits) = some bits := by decide +kernel

theorem symbol_ne_padding : ∀ bits < 64, symbol bits ≠ '=' := by decide +kernel

section Bytes

variable (first second third : UInt8)

theorem firstByte_eq : firstByte (first.toNat / 4) (first.toNat % 4 * 16 + second.toNat / 16) =
    first := by
  have small := second.toNat_lt
  have joined : first.toNat / 4 * 4 + (first.toNat % 4 * 16 + second.toNat / 16) / 16 =
      first.toNat := by omega
  rw [firstByte, joined, UInt8.ofNat_toNat]

theorem firstByte_eq_of_last : firstByte (first.toNat / 4) (first.toNat % 4 * 16) = first := by
  have joined : first.toNat / 4 * 4 + first.toNat % 4 * 16 / 16 = first.toNat := by omega
  rw [firstByte, joined, UInt8.ofNat_toNat]

theorem secondByte_eq : secondByte (first.toNat % 4 * 16 + second.toNat / 16)
    (second.toNat % 16 * 4 + third.toNat / 64) = second := by
  have small := second.toNat_lt
  have smallToo := third.toNat_lt
  have joined : (first.toNat % 4 * 16 + second.toNat / 16) % 16 * 16 +
      (second.toNat % 16 * 4 + third.toNat / 64) / 4 = second.toNat := by omega
  rw [secondByte, joined, UInt8.ofNat_toNat]

theorem secondByte_eq_of_last : secondByte (first.toNat % 4 * 16 + second.toNat / 16)
    (second.toNat % 16 * 4) = second := by
  have small := second.toNat_lt
  have joined : (first.toNat % 4 * 16 + second.toNat / 16) % 16 * 16 +
      second.toNat % 16 * 4 / 4 = second.toNat := by omega
  rw [secondByte, joined, UInt8.ofNat_toNat]

theorem thirdByte_eq : thirdByte (second.toNat % 16 * 4 + third.toNat / 64) (third.toNat % 64) =
    third := by
  have small := third.toNat_lt
  have joined : (second.toNat % 16 * 4 + third.toNat / 64) % 4 * 64 + third.toNat % 64 =
      third.toNat := by omega
  rw [thirdByte, joined, UInt8.ofNat_toNat]

theorem decode?_group (rest : List Char) :
    decode? (group first second third ++ rest) =
      (decode? rest).map fun later => first :: second :: third :: later := by
  have small := first.toNat_lt
  have smallToo := second.toNat_lt
  have smallThree := third.toNat_lt
  have notPadded : ¬(symbol (third.toNat % 64) = '=' ∧ rest = []) :=
    fun padded => symbol_ne_padding _ (by omega) padded.1
  simp only [group, List.cons_append, List.nil_append, decode?, if_neg notPadded]
  rw [bits?_symbol _ (by omega), bits?_symbol _ (by omega), bits?_symbol _ (by omega),
    bits?_symbol _ (by omega)]
  simp only [Option.bind_eq_bind, Option.bind_some, firstByte_eq, secondByte_eq, thirdByte_eq]
  cases decode? rest <;> rfl

theorem decode?_lastGroup (carry : Carry) : decode? carry.lastGroup = some carry.bytes := by
  cases carry with
  | empty => rfl
  | one first =>
      have small := first.toNat_lt
      simp only [Carry.lastGroup, padding, decode?, and_self, if_true, decodeLast?]
      rw [bits?_symbol _ (by omega), bits?_symbol _ (by omega)]
      simp [firstByte_eq_of_last, Carry.bytes]
  | two first second =>
      have small := first.toNat_lt
      have smallToo := second.toNat_lt
      have notPadded := symbol_ne_padding (second.toNat % 16 * 4) (by omega)
      simp only [Carry.lastGroup, padding, decode?, and_self, if_true, decodeLast?]
      rw [bits?_symbol _ (by omega), bits?_symbol _ (by omega), bits?_symbol _ (by omega)]
      simp [notPadded, firstByte_eq, secondByte_eq_of_last, Carry.bytes]

end Bytes

theorem decode?_encode (bytes : List UInt8) : decode? (encode bytes) = some bytes := by
  rw [show encode bytes = (groups bytes).1 ++ (groups bytes).2.lastGroup from rfl]
  induction bytes using groups.induct with
  | case1 first second third rest text carry found induction =>
      rw [found] at induction
      simp [groups, found, decode?_group, List.append_assoc, induction]
  | case2 first second => exact decode?_lastGroup (.two first second)
  | case3 first => exact decode?_lastGroup (.one first)
  | case4 => rfl

end Base64

namespace Hexadecimal

theorem of_mem_encode {Holds : Char → Prop} (digits : ∀ bits, Holds (digit bits))
    {bytes : List UInt8} : ∀ character ∈ encode bytes, Holds character := by
  intro character member
  rcases List.mem_flatMap.mp member with ⟨byte, _, member⟩
  simp only [ofByte, List.mem_cons, List.not_mem_nil, or_false] at member
  rcases member with rfl | rfl <;> exact digits _

def decode? : List Char → Option (List UInt8)
  | [] => some []
  | first :: second :: rest => do
    let first ← digitValue? first
    let second ← digitValue? second
    let later ← decode? rest
    return UInt8.ofNat (first * 16 + second) :: later
  | _ => none

theorem digitValue?_digit : ∀ bits < 16, digitValue? (digit bits) = some bits := by decide

theorem decode?_encode (bytes : List UInt8) : decode? (encode bytes) = some bytes := by
  induction bytes with
  | nil => rfl
  | cons byte rest induction =>
      have small := byte.toNat_lt
      have joined : byte.toNat / 16 * 16 + byte.toNat % 16 = byte.toNat := by omega
      have pair : encode (byte :: rest) =
          digit (byte.toNat / 16) :: digit (byte.toNat % 16) :: encode rest := rfl
      rw [pair, decode?, digitValue?_digit _ (by omega), digitValue?_digit _ (by omega), induction]
      simp only [Option.bind_eq_bind, Option.bind_some, joined, UInt8.ofNat_toNat]
      rfl

end Hexadecimal

end XmlStream
