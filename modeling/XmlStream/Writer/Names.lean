import XmlStream.Writer.Completion

namespace XmlStream

/-! Elements and attributes: the names they are asked for by, and the names they
get. -/

/-- What is asked for when an element or an attribute is started. An absent
namespace leaves the meaning of the prefix as it is, an empty one asks for none. -/
structure NameRequest where
  nsPrefix : Option String := none
  localName : String
  uri : Option String := none
deriving DecidableEq, Repr

def NameRequest.usesNamespaces (request : NameRequest) : Bool :=
  (nonEmpty? request.nsPrefix).isSome || (nonEmpty? request.uri).isSome

def writtenName (nsPrefix : Option String) (localName : String) : String :=
  match nsPrefix with
  | none => localName
  | some nsPrefix => nsPrefix ++ ":" ++ localName

namespace Writer

/-- Refuse a request without a name, and one for a namespace where there are
none. -/
def checkRequest (request : NameRequest) : Action Unit := do
  if request.localName = "" then throw (.invalidName "")
  if !(← get).settings.namespaces && request.usesNamespaces then throw .namespacesDisabled

def checkBound (nsPrefix : String) : Action Unit := do
  if ((← get).bindings.lookup? nsPrefix).isNone then throw (.undeclaredPrefix nsPrefix)

/-! ## Elements -/

/-- The prefix of an element in a namespace. An element without one joins the
default namespace, if no prefix stands for the namespace already. -/
def elementPrefixFor (nsPrefix : Option String) (uri : String) : Action (Option String) := do
  match nsPrefix with
  | none =>
    match (← get).bindings.findPrefix? uri with
    | some found => return some found
    | none =>
      bindDefault uri false
      return none
  | some "" =>
    bindDefault uri false
    return none
  | some nsPrefix =>
    if uri = "" then throw (.emptyNamespace nsPrefix)
    checkSpelling nsPrefix uri
    bindPrefix nsPrefix uri false
    return some nsPrefix

def elementPrefix (request : NameRequest) : Action (Option String) := do
  if !(← get).settings.namespaces then return none
  match request.uri with
  | some uri => elementPrefixFor request.nsPrefix uri
  | none =>
    if let some nsPrefix := nonEmpty? request.nsPrefix then checkBound nsPrefix
    return request.nsPrefix

def openElement (request : NameRequest) : Action Unit := do
  checkRequest request
  if request.nsPrefix = some "xmlns" then
    throw (.reserved "xmlns" (request.uri.getD ""))
  advance .startElement
  modify fun writer =>
    { writer with elements := writer.elements.push writer.bindings.size }
  let nsPrefix := nonEmpty? (← elementPrefix request)
  emit ("<" ++ writtenName nsPrefix request.localName)
  modifyTop fun element => { element with name := request.localName, nsPrefix }

/-- End the innermost element. Without content it becomes an empty-element tag,
unless a separate end tag is asked for. -/
def closeElement (separate : Bool) : Action Unit := do
  let writer ← get
  if writer.depth = 0 && writer.phase ≠ .failed then throw .noOpenElement
  advance (if separate then .separateEnd else .endElement)
  let writer ← get
  if writer.lastToken = some .separateEnd then
    if writer.indents then indent true
    emit ("</" ++ writtenName writer.top.nsPrefix writer.top.name ++ ">")
  modify fun writer =>
    { writer with
      bindings := writer.bindings.popTo writer.top.bindingMark
      elements := writer.elements.pop }

/-! ## Attributes -/

/-- Refuse a reserved prefix for a namespace that is not its own. -/
def checkOwnNamespace (nsPrefix own : String) (uri : Option String) : Action Unit := do
  if let some uri := nonEmpty? uri then
    if uri ≠ own then throw (.reserved nsPrefix uri)

def xmlKind? : String → Option SpecialKind
  | "lang" => some .language
  | "space" => some .space
  | _ => none

def plainKind? : String → Option SpecialKind
  | "xml:lang" => some .language
  | "xml:space" => some .space
  | _ => none

/-- The prefix of an attribute in a namespace. Unlike an element an attribute has
no namespace without a prefix, so one is made up if need be. A prefix that the
start tag uses for something else gives way. -/
def attributePrefixFor (nsPrefix : Option String) (uri : String) : Action String := do
  if let some nsPrefix := nsPrefix then checkSpelling nsPrefix uri
  let writer ← get
  if writer.depth = 0 then throw (.undeclaredNamespace uri)
  let wanted := nsPrefix.filter fun nsPrefix => !writer.prefixInUse nsPrefix
  match wanted, writer.bindings.findPrefix? uri with
  | none, some found => return found
  | none, none =>
    let made ← makePrefix
    bindPrefix made uri false
    return made
  | some wanted, found =>
    if found ≠ some wanted then bindPrefix wanted uri false
    return wanted

def ordinaryPrefix (nsPrefix uri : Option String) : Action (Option String) := do
  match uri with
  | none =>
    if let some nsPrefix := nsPrefix then checkBound nsPrefix
    return nsPrefix
  | some "" => return none
  | some uri => return some (← attributePrefixFor nsPrefix uri)

/-- The prefix that an attribute without one gets for a reserved namespace. -/
def reservedPrefix? (localName : String) (uri : Option String) : Option String :=
  if uri = some Namespace.declarations && localName ≠ "xmlns" then some "xmlns"
  else if uri = some Namespace.xml then some "xml"
  else none

def attributeRole (request : NameRequest) : Action (Option String × Option SpecialKind) := do
  if !(← get).settings.namespaces then return (none, plainKind? request.localName)
  let nsPrefix :=
    (nonEmpty? request.nsPrefix).or (reservedPrefix? request.localName request.uri)
  match nsPrefix with
  | some "xml" =>
    checkOwnNamespace "xml" Namespace.xml request.uri
    return (nsPrefix, xmlKind? request.localName)
  | some "xmlns" =>
    checkOwnNamespace "xmlns" Namespace.declarations request.uri
    return (nsPrefix, some (.declaration (some request.localName)))
  | _ =>
    if nsPrefix = none && request.localName = "xmlns" then
      checkOwnNamespace "xmlns" Namespace.declarations request.uri
      return (none, some (.declaration none))
    else return (← ordinaryPrefix nsPrefix request.uri, none)

def openAttribute (request : NameRequest) : Action Unit := do
  checkRequest request
  advance .startAttribute
  let (nsPrefix, kind) ← attributeRole request
  if let some nsPrefix := nsPrefix then
    if (← get).depth > 0 && nsPrefix ≠ "xml" && nsPrefix ≠ "xmlns" then notePrefix nsPrefix
  emit (writtenName nsPrefix request.localName)
  emit "="
  emitQuote
  modify fun writer => { writer with special := kind.map fun kind => { kind } }

end Writer

end XmlStream
