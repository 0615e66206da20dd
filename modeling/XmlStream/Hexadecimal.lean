namespace XmlStream.Hexadecimal

/-! Hexadecimal text of a payload: two upper-case digits for each byte. -/

def digits : Array Char := "0123456789ABCDEF".toList.toArray

def digit (bits : Nat) : Char := digits.getD bits '0'

def ofByte (byte : UInt8) : List Char :=
  [digit (byte.toNat / 16), digit (byte.toNat % 16)]

def encode (bytes : List UInt8) : List Char := bytes.flatMap ofByte

example : encode [0x00, 0x1F, 0xAB] = "001FAB".toList := by decide +kernel

end XmlStream.Hexadecimal
