namespace XmlStream

/-! The character sets a document can be written in, their names, and the labels
they are asked for by. -/

inductive Charset
  | utf8
  | windows1252
  | iso8859Part15
  | koi8r
  | windows1251
  | userDefined
  | iso2022jp
deriving DecidableEq, Repr

namespace Charset

def all : List Charset :=
  [.utf8, .windows1252, .iso8859Part15, .koi8r, .windows1251, .userDefined, .iso2022jp]

def name : Charset → String
  | .utf8 => "UTF-8"
  | .windows1252 => "windows-1252"
  | .iso8859Part15 => "ISO-8859-15"
  | .koi8r => "KOI8-R"
  | .windows1251 => "windows-1251"
  | .userDefined => "x-user-defined"
  | .iso2022jp => "ISO-2022-JP"

/-- The labels of a character set, in lower case. Encodings that are only ever
read are written as UTF-8, so their labels stand with those of UTF-8. -/
def labels : Charset → List String
  | .utf8 =>
    ["unicode-1-1-utf-8", "unicode11utf8", "unicode20utf8", "utf-8", "utf8",
      "x-unicode20utf8",
      "utf-16", "utf-16le", "utf-16be", "unicode", "unicodefeff", "unicodefffe",
      "csunicode", "iso-10646-ucs-2", "ucs-2",
      "replacement", "csiso2022kr", "hz-gb-2312", "iso-2022-cn", "iso-2022-cn-ext",
      "iso-2022-kr"]
  | .windows1252 =>
    ["ansi_x3.4-1968", "ascii", "cp1252", "cp819", "csisolatin1", "ibm819",
      "iso-8859-1", "iso-ir-100", "iso8859-1", "iso88591", "iso_8859-1",
      "iso_8859-1:1987", "l1", "latin1", "us-ascii", "windows-1252", "x-cp1252"]
  | .iso8859Part15 =>
    ["csisolatin9", "iso-8859-15", "iso8859-15", "iso885915", "iso_8859-15", "l9"]
  | .koi8r => ["cskoi8r", "koi", "koi8", "koi8-r", "koi8_r"]
  | .windows1251 => ["cp1251", "windows-1251", "x-cp1251"]
  | .userDefined => ["x-user-defined"]
  | .iso2022jp => ["csiso2022jp", "iso-2022-jp"]

/-- White space as Unicode counts it. It is cut off both ends of a label. -/
def isLabelSpace (character : Char) : Bool :=
  let code := character.toNat
  (9 ≤ code && code ≤ 13) || (0x2000 ≤ code && code ≤ 0x200A) ||
    [0x20, 0x85, 0xA0, 0x1680, 0x2028, 0x2029, 0x202F, 0x205F, 0x3000].contains code

/-- A label without surrounding white space and with its ASCII letters in lower
case. Letters outside ASCII are kept, also those whose lower case is in ASCII. -/
def normalizeLabel (label : String) : List Char :=
  let trimmed := (label.toList.dropWhile isLabelSpace).reverse.dropWhile isLabelSpace
  trimmed.reverse.map Char.toLower

def ofLabel? (label : String) : Option Charset :=
  let wanted := normalizeLabel label
  all.find? fun charset => charset.labels.any (·.toList == wanted)

example : ofLabel? " Latin1\n" = some .windows1252 := by decide +kernel

example : ofLabel? "latin-1" = none := by decide +kernel

end Charset

end XmlStream
