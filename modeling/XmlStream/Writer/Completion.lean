import XmlStream.Writer.Scope

namespace XmlStream.Writer

/-! How the constructs that are still open are completed when the next one is
asked for. -/

def finishPayload : Action Unit := do
  let writer ← get
  if writer.unflushed then
    modify fun writer => { writer with carry := .empty }
    emitVerbatim (String.ofList writer.carry.lastGroup)
    modify fun writer => { writer with unflushed := false }

/-- Begin a line for what comes next, indented for the level it stands on. In
mixed content this would change the text, so nothing is written there. -/
def indent (beforeEnd : Bool) : Action Unit := do
  let writer ← get
  let level := if beforeEnd then writer.depth - 1 else writer.depth
  if writer.depth = 0 then emit "\n"
  else if !writer.top.mixed then
    let width := writer.settings.indentation.times level
    emit (String.ofList ('\n' :: List.replicate width writer.settings.indentChar))

/-- Begin a line, if indentation is on and this is not the first construct. -/
def indentNext : Action Unit := do
  let writer ← get
  if writer.indents && writer.phase ≠ .start then indent false

def markMixed : Action Unit := modifyTop fun element => { element with mixed := true }

def emitDeclaration (quote : Quote) (binding : Binding) : Action Unit := do
  emit " xmlns:"
  emitEscaped (.attribute quote) binding.nsPrefix
  emit "="
  emit quote.text
  emitEscaped (.attribute quote) binding.uri
  emit quote.text

/-- Write the declaration of the default namespace, if the innermost element owes
it and the element around does not have the same one. -/
def emitDefaultDeclaration (quote : Quote) : Action Unit := do
  let writer ← get
  let top := writer.top
  if writer.depth > 0 && top.defaultUri ≠ writer.elements.parent.defaultUri &&
      top.defaultNamespace = .owed then
    emit " xmlns="
    emit quote.text
    emitEscaped (.attribute quote) top.defaultUri
    emit quote.text
    modifyTop fun element => { element with defaultNamespace := .written }

/-- End a start tag with the declarations it owes. -/
def closeStartTag (isEmpty : Bool) : Action Unit := do
  let writer ← get
  let quote := writer.settings.quote
  let owed := writer.bindings.owed writer.top.bindingMark
  owed.forM fun (_, binding) => emitDeclaration quote binding
  modify fun writer =>
    { writer with
      bindings := owed.foldl (fun bindings (position, _) => bindings.setDeclared position)
        writer.bindings }
  emitDefaultDeclaration quote
  emit (if isEmpty then " />" else ">")

def spaceHandling? (value : String) : Option SpaceHandling :=
  match trimBlanks value with
  | "default" => some .default
  | "preserve" => some .preserve
  | _ => none

/-- Draw the consequences of a special attribute. Outside elements there is
nothing that a declaration could bind a prefix for. -/
def applySpecial (special : SpecialAttribute) : Action Unit := do
  match special.kind with
  | .language => modifyTop fun element => { element with language := some special.value }
  | .space =>
    match spaceHandling? special.value with
    | some space => modifyTop fun element => { element with space }
    | none => throw (.invalidSpaceValue special.value)
  | .declaration nsPrefix =>
    if let some nsPrefix := nsPrefix then checkSpelling nsPrefix special.value
    if (← get).depth > 0 then bind nsPrefix special.value true

def closeValue : Action Unit := do
  if let some special := (← get).special then
    modify fun writer => { writer with special := none }
    applySpecial special
  emitQuote

def closeOpenTag : Action Unit := do
  match (← get).phase with
  | .attribute =>
    closeValue
    closeStartTag false
  | .element => closeStartTag false
  | _ => return

/-- Write all that has to stand before a token, which leads to the phase `next`.
The token is returned as it turns out to be: the end of an element that has
content is a separate one. -/
def makeRoom (token : Token) (next : Phase) : Action Token := do
  let writer ← get
  match token with
  | .doctype => indentNext
  | .startElement | .comment | .processingInstruction =>
    closeOpenTag
    indentNext
  | .cdata =>
    closeOpenTag
    markMixed
  | .endElement | .separateEnd =>
    if writer.phase = .attribute then closeValue
    if writer.phase = .content then return .separateEnd
    closeStartTag (token = .endElement)
  | .startAttribute =>
    if writer.phase = .attribute then closeValue
    if writer.phase = .attribute || writer.phase = .element then emit " "
  | .endAttribute => closeValue
  | .text | .base64 | .raw | .whitespace =>
    if writer.phase = .element && writer.lastToken ≠ some .text then closeStartTag false
    if next = .content then markMixed
  return token

/-- The phase after a token, if the token can stand here. A document is over with
its root element. -/
def nextPhase? (writer : Writer) (token : Token) : Option Phase := do
  let next ← writer.mode.next? token writer.phase
  let endsElement := token = .endElement || token = .separateEnd
  if endsElement && writer.mode = .document && writer.depth = 1 then some .epilog
  else some next

/-- Go on to a token: complete what must not be open any more, and refuse a token
that cannot stand here. -/
def advance (token : Token) : Action Unit := do
  let writer ← get
  match writer.nextPhase? token with
  | none => throw (.misplaced token writer.phase)
  | some next =>
    if token ≠ .base64 then finishPayload
    let written ← makeRoom token next
    modify fun writer => { writer with phase := next, lastToken := some written }

/-- Run a call. Nothing can be called on a closed writer, and a call that fails
leaves the writer failed. -/
def guarded (call : Action Unit) : Action Unit := fun writer =>
  if writer.phase = .closed then .error .closed writer
  else
    match call writer with
    | .ok _ after => .ok () after
    | .error error after =>
      .error error
        { after with
          phase := .failed
          log := after.log.push (.callFailed after.phase error) }

end XmlStream.Writer
