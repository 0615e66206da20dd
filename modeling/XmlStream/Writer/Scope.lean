import XmlStream.Writer.Basic

namespace XmlStream.Writer

/-! Namespaces in scope: how prefixes and the default namespace get bound, and
which prefix a namespace has. -/

/-- The prefix that a namespace has here. The empty prefix stands for the default
namespace. -/
def lookupPrefix (writer : Writer) (uri : String) : Option String :=
  if writer.top.defaultUri = uri && writer.top.defaultNamespace ≠ .unset then some ""
  else writer.bindings.findPrefix? uri

/-- Whether a prefix is bound by the open start tag or occurs in it already. Names
that stand in the tag must keep their meaning, so such a prefix cannot be bound
anew. -/
def prefixInUse (writer : Writer) (nsPrefix : String) : Bool :=
  writer.depth > 0 &&
    ((writer.bindings.lookupFrom? writer.top.bindingMark nsPrefix).isSome ||
      writer.top.nsPrefix == some nsPrefix ||
      writer.top.usedPrefixes.contains nsPrefix)

/-- Refuse a prefix that spells `xml`, in whatever case, for another namespace. -/
def checkSpelling (nsPrefix uri : String) : Action Unit := do
  if equalIgnoringCase nsPrefix "xml" && uri ≠ Namespace.xml then
    throw (.reserved nsPrefix uri)

/-- Refuse to bind what is reserved: nothing can be bound to the namespace of
declarations, only `xml` to its own namespace, and `xmlns` to nothing. -/
def checkReserved (nsPrefix : Option String) (uri : String) : Action Unit := do
  if uri = Namespace.declarations || (uri = Namespace.xml && nsPrefix ≠ some "xml") ||
      nsPrefix = some "xmlns" then
    throw (.reserved (nsPrefix.getD "") uri)

def pushBinding (nsPrefix uri : String) (declared : Bool) : Action Unit := do
  let before := (← get).bindings
  let after := before.push nsPrefix uri declared
  modify fun writer => { writer with bindings := after }
  if after.isIndexed && !before.isIndexed then report (.indexBuilt after.size)

/-- Make a namespace the default one of the innermost element. A start tag can
settle its default namespace once. -/
def bindDefault (uri : String) (declared : Bool) : Action Unit := do
  checkReserved none uri
  let top := (← get).top
  let settled := top.defaultNamespace = .owed || top.defaultNamespace = .written
  if settled && top.defaultUri ≠ uri then throw (.conflict "" uri)
  let origin : DefaultNamespace :=
    if declared || top.defaultNamespace = .written then .written else .owed
  modifyTop fun element => { element with defaultUri := uri, defaultNamespace := origin }

/-- Bind a prefix in the innermost element. A prefix that is bound to the
namespace already is left as it is. -/
def bindPrefix (nsPrefix uri : String) (declared : Bool) : Action Unit := do
  checkReserved (some nsPrefix) uri
  if uri = "" then throw (.emptyNamespace nsPrefix)
  let writer ← get
  match writer.bindings.boundTo? nsPrefix uri with
  | some position =>
    if declared then set { writer with bindings := writer.bindings.setDeclared position }
  | none =>
    if writer.prefixInUse nsPrefix then throw (.conflict nsPrefix uri)
    pushBinding nsPrefix uri declared

/-- Bind a prefix, or without one the default namespace. `declared` says that the
declaration stands in the output already. -/
def bind (nsPrefix : Option String) (uri : String) (declared : Bool) : Action Unit :=
  match nsPrefix with
  | none => bindDefault uri declared
  | some nsPrefix => bindPrefix nsPrefix uri declared

def makePrefix : Action String := do
  let writer ← get
  let number := writer.bindings.nextNumber writer.depth writer.top.prefixCount
  modifyTop fun element => { element with prefixCount := number }
  return Bindings.generatedPrefix writer.depth number

def notePrefix (nsPrefix : String) : Action Unit :=
  modifyTop fun element =>
    { element with usedPrefixes := nsPrefix :: element.usedPrefixes }

end XmlStream.Writer
