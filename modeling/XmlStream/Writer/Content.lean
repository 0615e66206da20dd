import XmlStream.Name
import XmlStream.Hexadecimal
import XmlStream.Writer.Names

namespace XmlStream.Writer

/-! Text, references, payloads, and the constructs that are written as they are. -/

def checkName (form : Name.Form) (name : String) : Action Unit := do
  if !Name.isUsable form (← get).settings.namespaces name then throw (.invalidName name)

/-! ## Text -/

/-- Write text. Empty text is no text, and is fine anywhere. -/
def putText (text : String) : Action Unit := do
  if text ≠ "" then
    advance .text
    emitText text

def putRaw (text : String) : Action Unit := do
  advance .raw
  emitVerbatim text

def putWhitespace (text : String) : Action Unit := do
  if !text.toList.all CharacterClass.blank.hasChar then throw .invalidWhitespace
  advance .whitespace
  emitText text

def putName (name : String) : Action Unit := do
  checkName .qualified name
  advance .text
  emitText name

def putToken (name : String) : Action Unit := do
  if !Name.isToken name then throw (.invalidName name)
  advance .text
  emitText name

/-- The prefix that a name in text has for a namespace. In an attribute value one
can still be made up; elsewhere the start tag is complete. -/
def textPrefixFor (uri : String) : Action String := do
  let writer ← get
  match writer.bindings.findPrefix? uri with
  | some found => return found
  | none =>
    if writer.phase ≠ .attribute then throw (.undeclaredNamespace uri)
    let made ← makePrefix
    bindPrefix made uri false
    return made

def putQualifiedName (localName : String) (uri : Option String) : Action Unit := do
  checkName .unqualified localName
  let uri := nonEmpty? uri
  if !(← get).settings.namespaces && uri.isSome then throw .namespacesDisabled
  advance .text
  if let some uri := uri then
    if uri ≠ (← get).top.defaultUri then
      let nsPrefix ← textPrefixFor uri
      emitText nsPrefix
      emitText ":"
      if (← get).phase = .attribute then notePrefix nsPrefix
  emitText localName

/-! ## References -/

def putEntity (name : String) : Action Unit := do
  checkName .qualified name
  advance .text
  emitEntity name

def xmlCharacter? (code : Nat) : Option Char :=
  if code.isValidChar && CharacterClass.xml.has code then some (Char.ofNat code) else none

def putCharacter (code : Nat) : Action Unit := do
  match xmlCharacter? code with
  | none => throw (.invalidCharacter code)
  | some character =>
    advance .text
    emitCharacter character

def putSurrogates (low high : Nat) : Action Unit := do
  if high < 0xD800 || 0xDBFF < high then throw (.invalidCharacter high)
  if low < 0xDC00 || 0xDFFF < low then throw (.invalidCharacter low)
  advance .text
  emitCharacter (Char.ofNat (0x10000 + (high - 0xD800) * 0x400 + (low - 0xDC00)))

/-! ## Payloads -/

/-- Write bytes in base64. They continue the payload that is being written. What is left over of
them waits even if the rest cannot be written. -/
def putBase64 (chunk : List UInt8) : Action Unit := do
  advance .base64
  let (text, carry) := (← get).carry.feed chunk
  modify fun writer => { writer with carry }
  emitVerbatim (String.ofList text)
  modify fun writer => { writer with unflushed := true }

def putHexadecimal (bytes : List UInt8) : Action Unit := do
  advance .text
  emitVerbatim (String.ofList (Hexadecimal.encode bytes))

/-! ## Verbatim constructs -/

def putCData (text : String) : Action Unit := do
  if occursIn "]]>".toList text.toList then throw (.invalidContent .cdata)
  advance .cdata
  emit "<![CDATA["
  emitVerbatim text
  emit "]]>"

def putComment (text : String) : Action Unit := do
  if occursIn "--".toList text.toList || text.toList.getLast? == some '-' then
    throw (.invalidContent .comment)
  advance .comment
  emit "<!--"
  emitVerbatim text
  emit "-->"

/-- Write a processing instruction. The target `xml` is the declaration, which can
only be the first construct of a fragment. -/
def putInstruction (target text : String) : Action Unit := do
  if occursIn "?>".toList text.toList then throw (.invalidContent .processingInstruction)
  let writer ← get
  if equalIgnoringCase target "xml" && (writer.mode = .document || writer.phase ≠ .start) then
    throw .duplicateDeclaration
  checkName .qualified target
  advance .processingInstruction
  emit "<?"
  emit target
  if text ≠ "" then
    emit " "
    emitVerbatim text
  emit "?>"

end XmlStream.Writer
