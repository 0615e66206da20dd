import XmlStream.Base64
import XmlStream.Bindings
import XmlStream.Element
import XmlStream.LogEvent
import XmlStream.Output.Buffer
import XmlStream.Settings
import XmlStream.Text

namespace XmlStream

/-! The state of a writer, the actions on it, and how text leaves it. -/

/-- The attributes whose values say something about their element. -/
inductive SpecialKind
  | language
  | space
  | declaration (nsPrefix : Option String)
deriving DecidableEq, Repr

/-- An open attribute of a special kind, with the value it has so far, unescaped. -/
structure SpecialAttribute where
  kind : SpecialKind
  value : String := ""
deriving DecidableEq, Repr

structure Writer where
  output : OutputBuffer
  settings : Settings := {}
  phase : Phase := .start
  mode : Mode := .fragment
  lastToken : Option Token := none
  elements : ElementStack := {}
  bindings : Bindings := .initial
  special : Option SpecialAttribute := none
  /-- The bytes of a base64 payload that wait for the rest of their group. -/
  carry : Base64.Carry := .empty
  /-- Whether the end of a base64 payload has still to be written. -/
  unflushed : Bool := false
  log : Array LogEvent := #[]

namespace Writer

/-- Actions on a writer. What an action has done before it fails remains done. -/
abbrev Action := EStateM WriterError Writer

def top (writer : Writer) : OpenElement := writer.elements.top

def depth (writer : Writer) : Nat := writer.elements.depth

def indents (writer : Writer) : Bool := writer.settings.indents

def textPosition (writer : Writer) : TextPosition :=
  match writer.phase with
  | .attribute | .topAttribute => .attribute writer.settings.quote
  | _ => .content

def report (event : LogEvent) : Action Unit :=
  modify fun writer => { writer with log := writer.log.push event }

def modifyTop (change : OpenElement → OpenElement) : Action Unit :=
  modify fun writer => { writer with elements := writer.elements.modifyTop change }

/-- Do something with the output. Its failures are failures of the writer. -/
def onOutput (action : OutputBuffer.Action Unit) : Action Unit := fun writer =>
  match action writer.output with
  | .ok _ output => .ok () { writer with output }
  | .error cause output => .error (.sink cause) { writer with output }

/-! ## Text -/

def emit (markup : String) : Action Unit := onOutput (OutputBuffer.write markup)

def emitQuote : Action Unit := do emit (← get).settings.quote.text

def emitEscaped (position : TextPosition) (text : String) : Action Unit :=
  (position.pieces text).forM emit

def capture (text : String) : Action Unit :=
  modify fun writer =>
    { writer with
      special := writer.special.map fun special =>
        { special with value := special.value ++ text } }

def emitText (text : String) : Action Unit := do
  capture text
  emitEscaped (← get).textPosition text

/-- Write text as it is, as part of a value or of content. -/
def emitVerbatim (text : String) : Action Unit := do
  capture text
  emit text

def emitEntity (name : String) : Action Unit := do
  capture (entityReference name)
  emit "&"
  emit name
  emit ";"

def emitCharacter (character : Char) : Action Unit := do
  capture (String.singleton character)
  emit (hexReference character)

end Writer

end XmlStream
