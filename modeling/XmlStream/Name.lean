import XmlStream.Text

namespace XmlStream

/-! Names. A writer is handed names as text; here it is decided which texts are
names, and of which kind. -/

namespace Name

/-- The longest beginning of a text that is a name without a colon. It is empty
when the text does not begin like a name. -/
def ncNameHead : List Char → List Char
  | [] => []
  | first :: rest =>
    if CharacterClass.ncNameStart.hasChar first then
      first :: rest.takeWhile CharacterClass.ncNamePart.hasChar
    else []

def tokenHead (text : List Char) : List Char :=
  text.takeWhile CharacterClass.ncNamePart.hasChar

def ncNameLength (text : String) : Nat :=
  utf8Length (ncNameHead text.toList)

def tokenLength (text : String) : Nat :=
  utf8Length (tokenHead text.toList)

def isName (text : String) : Bool :=
  match text.toList with
  | [] => false
  | first :: rest =>
    CharacterClass.nameStart.hasChar first &&
      rest.all CharacterClass.namePart.hasChar

/-- The production `NCName`: the whole text is one name without a colon. -/
def isNCName (text : String) : Bool :=
  text ≠ "" && ncNameHead text.toList == text.toList

def isToken (text : String) : Bool :=
  text ≠ "" && text.toList.all CharacterClass.namePart.hasChar

inductive Form
  | qualified
  | unqualified
deriving DecidableEq, Repr

/-- Whether a text will do as a name of the given form. Without namespace
support any XML name does. With it the text is a name without a colon, which a
qualified name may extend by one colon and further name characters. What stands
after the colon may begin with any name character, a digit for instance. -/
def isUsable (form : Form) (namespaces : Bool) (text : String) : Bool :=
  if text = "" then false
  else if !namespaces then isName text
  else
    let head := ncNameHead text.toList
    match text.toList.drop head.length with
    | [] => true
    | separator :: tail =>
      form == .qualified && !head.isEmpty && separator == ':' && !tail.isEmpty &&
        tail.all CharacterClass.ncNamePart.hasChar

example : isUsable .qualified true "a:1" = true := by decide +kernel

example : isUsable .unqualified true "a:b" = false := by decide +kernel

example : isUsable .qualified true "a:b:c" = false ∧
    isUsable .qualified false "a:b:c" = true := by decide +kernel

end Name

end XmlStream
