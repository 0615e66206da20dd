import XmlStream.Character

namespace XmlStream

/-! Small questions about text. -/

def utf8Length (characters : List Char) : Nat :=
  (characters.map Char.utf8Size).foldl (· + ·) 0

def occursIn (part : List Char) : List Char → Bool
  | [] => part.isEmpty
  | first :: rest => part.isPrefixOf (first :: rest) || occursIn part rest

def equalIgnoringCase (left right : String) : Bool :=
  left.toList.map Char.toLower == right.toList.map Char.toLower

def trimBlanks (text : String) : String :=
  let isBlank := CharacterClass.blank.hasChar
  String.ofList ((text.toList.dropWhile isBlank).reverse.dropWhile isBlank).reverse

def nonEmpty? (text : Option String) : Option String := text.filter (· ≠ "")

example : occursIn "]]>".toList "a]]]>".toList = true := by decide +kernel

example : trimBlanks " preserve\n" = "preserve" := by decide +kernel

end XmlStream
