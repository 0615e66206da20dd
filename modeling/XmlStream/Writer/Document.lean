import XmlStream.Writer.Content

namespace XmlStream.Writer

/-! The beginning and the end of documents, and the end of a writer. -/

/-! ## Beginnings -/

private def declarationPart (quote : Quote) (name value : String) : String :=
  " " ++ name ++ "=" ++ quote.text ++ value ++ quote.text

def xmlDeclaration (writer : Writer) (standalone : Option Bool) : String :=
  let part := declarationPart writer.settings.quote
  let encoding := writer.output.encoding?.map (part "encoding")
  let standing := standalone.map fun alone => part "standalone" (if alone then "yes" else "no")
  "<?xml" ++ part "version" "1.0" ++ encoding.getD "" ++ standing.getD "" ++ "?>"

def beginDocument (standalone : Option Bool) : Action Unit := do
  let writer ← get
  if writer.phase ≠ .start then
    if writer.phase ≠ .failed && writer.mode = .document then
      report (.declarationRequested writer.phase)
      throw .duplicateDeclaration
    throw (.misplaced .processingInstruction writer.phase)
  set { writer with
    mode := .document, phase := .prolog, lastToken := some .processingInstruction }
  emit (writer.xmlDeclaration standalone)

/-- The quote for a literal: the usual one, or the other one if that occurs in
the literal. -/
def literalQuote? (usual : Quote) (literal : String) : Option Quote :=
  let free := fun (quote : Quote) => !literal.toList.contains quote.char
  if free usual then some usual
  else if free usual.other then some usual.other
  else none

def quoted (literal : String) : Action String := do
  match literalQuote? (← get).settings.quote literal with
  | some quote => return quote.text ++ literal ++ quote.text
  | none => throw (.unquotable literal)

/-- The identifiers of a document type. With a public one there always is a
system one. -/
def externalId (publicId systemId : Option String) : Action String := do
  match publicId, systemId with
  | none, none => return ""
  | none, some systemId => return " SYSTEM " ++ (← quoted systemId)
  | some publicId, systemId =>
    let publicLiteral ← quoted publicId
    let systemLiteral ← quoted (systemId.getD "")
    return " PUBLIC " ++ publicLiteral ++ " " ++ systemLiteral

def putDoctype (name : String) (publicId systemId subset : Option String) : Action Unit := do
  checkName .qualified name
  let identifiers ← externalId publicId systemId
  advance .doctype
  let internal := (subset.map fun subset => "[" ++ subset ++ "]").getD ""
  emit ("<!DOCTYPE " ++ name ++ identifiers ++ internal ++ ">")

/-! ## Ends -/

def closeElements : Nat → Action Unit
  | 0 => return
  | count + 1 => do
    closeElement false
    closeElements count

def completeAll : Action Unit := do
  finishPayload
  if (← get).phase = .topAttribute then advance .endAttribute
  closeElements (← get).depth

/-- Complete a document or fragment and begin anew. A document needs a root. -/
def finishDocument : Action Unit := do
  let writer ← get
  if writer.phase = .failed ||
      (writer.mode = .document &&
        (writer.phase = .prolog || writer.phase = .afterDoctype)) then
    throw .incomplete
  completeAll
  modify fun writer =>
    { writer with
      bindings := writer.bindings.popTo 1
      elements := {}
      mode := .fragment
      phase := .start
      lastToken := none }
  onOutput OutputBuffer.flush

/-- Complete everything, pass on all output, and accept no more. What cannot be
completed is left as it is. A closed writer stays closed. -/
def shut : Action Unit := do
  if (← get).phase ≠ .closed then
    tryCatch completeAll fun error => report (.leftIncomplete error)
    modify fun writer => { writer with phase := .closed }
    onOutput OutputBuffer.finish

/-- Give up a writer: it is closed, and what its output still holds is pushed on
if that is possible. -/
def release (writer : Writer) : Writer :=
  let closed := match shut writer with
    | .ok _ closed => closed
    | .error error closed => { closed with log := closed.log.push (.closeFailed error) }
  let (output, failure) := closed.output.release
  match failure with
  | none => { closed with output }
  | some cause => { closed with output, log := closed.log.push (.bufferKept cause) }

end XmlStream.Writer
