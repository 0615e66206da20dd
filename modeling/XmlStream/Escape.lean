import XmlStream.Character

namespace XmlStream

/-! Escaping of character data. Characters that mean markup leave as references
to predefined entities; characters that a reader would drop, change or refuse
leave as numeric references. -/

inductive Quote
  | double
  | single
deriving DecidableEq, Repr

namespace Quote

def char : Quote → Char
  | .double => '"'
  | .single => '\''

def ofChar? : Char → Option Quote
  | '"' => some .double
  | '\'' => some .single
  | _ => none

def text (quote : Quote) : String := String.singleton quote.char

def other : Quote → Quote
  | .double => .single
  | .single => .double

end Quote

def upperHex (number : Nat) : List Char :=
  (Nat.toDigits 16 number).map Char.toUpper

def hexReference (character : Char) : String :=
  "&#x" ++ String.ofList (upperHex character.toNat) ++ ";"

def decimalReference (character : Char) : String :=
  "&#" ++ toString character.toNat ++ ";"

def entityReference (name : String) : String := "&" ++ name ++ ";"

inductive TextPosition
  | content
  | attribute (quote : Quote)
deriving DecidableEq, Repr

namespace TextPosition

/-- The entity that has to stand for a character. The quote that delimits an
attribute value cannot occur in it; elsewhere quotes are plain text. -/
def entityFor? (position : TextPosition) (character : Char) : Option String :=
  match character with
  | '<' => some "lt"
  | '>' => some "gt"
  | '&' => some "amp"
  | '"' => if position = .attribute .double then some "quot" else none
  | '\'' => if position = .attribute .single then some "apos" else none
  | _ => none

/-- Whether a character needs a numeric reference. A carriage return would be
read as a line feed, and a tab or line feed in an attribute value as a space. -/
def needsNumber (position : TextPosition) (character : Char) : Bool :=
  match character with
  | '\t' | '\n' => position ≠ .content
  | '\r' => true
  | _ => !CharacterClass.xml.hasChar character

/-- The reference that replaces a character, if it cannot stand for itself. -/
def escape? (position : TextPosition) (character : Char) : Option String :=
  match position.entityFor? character with
  | some entity => some (entityReference entity)
  | none =>
    if position.needsNumber character then some (hexReference character) else none

/-- Escaped text in the pieces it is handed on in: the runs of characters that
stand for themselves, and between them one reference each. `run` holds the
current run, last character first. -/
def piecesFrom (position : TextPosition) (run : List Char) : List Char → List String
  | [] => if run.isEmpty then [] else [String.ofList run.reverse]
  | character :: rest =>
    match position.escape? character with
    | none => position.piecesFrom (character :: run) rest
    | some reference =>
      if run.isEmpty then reference :: position.piecesFrom [] rest
      else String.ofList run.reverse :: reference :: position.piecesFrom [] rest

def pieces (position : TextPosition) (text : String) : List String :=
  position.piecesFrom [] text.toList

example : pieces .content "a<b" = ["a", "&lt;", "b"] := by decide +kernel

example : pieces (.attribute .single) "it's \"so\"" = ["it", "&apos;", "s \"so\""] := by
  decide +kernel

example : pieces .content "\r" = ["&#xD;"] := by decide +kernel

end TextPosition

end XmlStream
