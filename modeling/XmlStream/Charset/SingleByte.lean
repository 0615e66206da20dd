import XmlStream.Charset

namespace XmlStream.Charset.SingleByte

/-! Character sets of one byte for each character. Bytes below 128 are ASCII; a
table gives the code points of the bytes from 128 on. -/

def codesFrom (first length : Nat) : List Nat := (List.range length).map (first + ·)

def windows1252 : List Nat :=
  [0x20AC, 0x0081, 0x201A, 0x0192, 0x201E, 0x2026, 0x2020, 0x2021,
    0x02C6, 0x2030, 0x0160, 0x2039, 0x0152, 0x008D, 0x017D, 0x008F,
    0x0090, 0x2018, 0x2019, 0x201C, 0x201D, 0x2022, 0x2013, 0x2014,
    0x02DC, 0x2122, 0x0161, 0x203A, 0x0153, 0x009D, 0x017E, 0x0178] ++
  codesFrom 0xA0 96

def iso8859Part15 : List Nat :=
  codesFrom 0x80 36 ++ [0x20AC, 0xA5, 0x0160, 0xA7, 0x0161] ++ codesFrom 0xA9 11 ++
  [0x017D, 0xB5, 0xB6, 0xB7, 0x017E, 0xB9, 0xBA, 0xBB, 0x0152, 0x0153, 0x0178] ++
  codesFrom 0xBF 65

def koi8r : List Nat :=
  [0x2500, 0x2502, 0x250C, 0x2510, 0x2514, 0x2518, 0x251C, 0x2524,
    0x252C, 0x2534, 0x253C, 0x2580, 0x2584, 0x2588, 0x258C, 0x2590,
    0x2591, 0x2592, 0x2593, 0x2320, 0x25A0, 0x2219, 0x221A, 0x2248,
    0x2264, 0x2265, 0x00A0, 0x2321, 0x00B0, 0x00B2, 0x00B7, 0x00F7,
    0x2550, 0x2551, 0x2552, 0x0451, 0x2553, 0x2554, 0x2555, 0x2556,
    0x2557, 0x2558, 0x2559, 0x255A, 0x255B, 0x255C, 0x255D, 0x255E,
    0x255F, 0x2560, 0x2561, 0x0401, 0x2562, 0x2563, 0x2564, 0x2565,
    0x2566, 0x2567, 0x2568, 0x2569, 0x256A, 0x256B, 0x256C, 0x00A9,
    0x044E, 0x0430, 0x0431, 0x0446, 0x0434, 0x0435, 0x0444, 0x0433,
    0x0445, 0x0438, 0x0439, 0x043A, 0x043B, 0x043C, 0x043D, 0x043E,
    0x043F, 0x044F, 0x0440, 0x0441, 0x0442, 0x0443, 0x0436, 0x0432,
    0x044C, 0x044B, 0x0437, 0x0448, 0x044D, 0x0449, 0x0447, 0x044A,
    0x042E, 0x0410, 0x0411, 0x0426, 0x0414, 0x0415, 0x0424, 0x0413,
    0x0425, 0x0418, 0x0419, 0x041A, 0x041B, 0x041C, 0x041D, 0x041E,
    0x041F, 0x042F, 0x0420, 0x0421, 0x0422, 0x0423, 0x0416, 0x0412,
    0x042C, 0x042B, 0x0417, 0x0428, 0x042D, 0x0429, 0x0427, 0x042A]

def windows1251 : List Nat :=
  [0x0402, 0x0403, 0x201A, 0x0453, 0x201E, 0x2026, 0x2020, 0x2021,
    0x20AC, 0x2030, 0x0409, 0x2039, 0x040A, 0x040C, 0x040B, 0x040F,
    0x0452, 0x2018, 0x2019, 0x201C, 0x201D, 0x2022, 0x2013, 0x2014,
    0x0098, 0x2122, 0x0459, 0x203A, 0x045A, 0x045C, 0x045B, 0x045F,
    0x00A0, 0x040E, 0x045E, 0x0408, 0x00A4, 0x0490, 0x00A6, 0x00A7,
    0x0401, 0x00A9, 0x0404, 0x00AB, 0x00AC, 0x00AD, 0x00AE, 0x0407,
    0x00B0, 0x00B1, 0x0406, 0x0456, 0x0491, 0x00B5, 0x00B6, 0x00B7,
    0x0451, 0x2116, 0x0454, 0x00BB, 0x0458, 0x0405, 0x0455, 0x0457] ++
  codesFrom 0x0410 64

def userDefined : List Nat := codesFrom 0xF780 128

example : [windows1252, iso8859Part15, koi8r, windows1251, userDefined].map List.length =
    [128, 128, 128, 128, 128] := by decide +kernel

def byteOf? (upperHalf : List Nat) (character : Char) : Option UInt8 :=
  if character.toNat < 128 then some (UInt8.ofNat character.toNat)
  else
    (upperHalf.idxOf? character.toNat).map fun index => UInt8.ofNat (128 + index)

example : byteOf? iso8859Part15 '€' = some 0xA4 := by decide +kernel

example : byteOf? windows1252 '¥' = some 0xA5 := by decide +kernel

end XmlStream.Charset.SingleByte
