import XmlStream.Call
import XmlStream.Proofs.Bindings.Scope

namespace XmlStream

/-! The draft of a document: what a writer knows of the document it is writing,
without the place the text goes to, the index over the bindings and the reports. -/

def NameRequest.wantedPrefix (request : NameRequest) : Option String :=
  (nonEmpty? request.nsPrefix).or (Writer.reservedPrefix? request.localName request.uri)

/-- A name that is asked for, and the namespace that the prefix asked for stands for
when the name is written. -/
structure AskedName where
  request : NameRequest
  bound : Option String
deriving DecidableEq, Repr

/-- The state of a document that is being written. -/
structure Draft where
  settings : Settings
  phase : Phase
  mode : Mode
  elements : ElementStack
  scope : Scope
  special : Option SpecialAttribute
  carry : Base64.Carry
  unflushed : Bool

namespace Draft

def payload (draft : Draft) : Option Base64.Carry :=
  if draft.unflushed then some draft.carry else none

variable {draft : Draft}

theorem payload_eq_none : draft.payload = none ↔ draft.unflushed = false := by
  cases pending : draft.unflushed <;> simp [payload, pending]

theorem payload_of_unflushed (pending : draft.unflushed = true) :
    draft.payload = some draft.carry := by
  rw [payload, if_pos pending]

def top (draft : Draft) : OpenElement := draft.elements.top

def depth (draft : Draft) : Nat := draft.elements.depth

def modifyTop (draft : Draft) (change : OpenElement → OpenElement) : Draft :=
  { draft with elements := draft.elements.modifyTop change }

def capture (draft : Draft) (text : String) : Draft :=
  { draft with
    special := draft.special.map fun special =>
      { special with value := special.value ++ text } }

theorem capture_payload (draft : Draft) (text : String) :
    (draft.capture text).payload = draft.payload := rfl

def markMixed (draft : Draft) : Draft :=
  draft.modifyTop fun element => { element with mixed := true }

def notePrefix (draft : Draft) (nsPrefix : String) : Draft :=
  draft.modifyTop fun element =>
    { element with usedPrefixes := nsPrefix :: element.usedPrefixes }

def noteAttribute (draft : Draft) : Option String → Draft
  | none => draft
  | some nsPrefix =>
    if draft.depth > 0 ∧ nsPrefix ≠ "xml" ∧ nsPrefix ≠ "xmlns" then draft.notePrefix nsPrefix
    else draft

def prefixInUse (draft : Draft) (nsPrefix : String) : Bool :=
  draft.depth > 0 &&
    (((draft.scope.position? nsPrefix).filter (draft.top.bindingMark ≤ ·)).isSome ||
      draft.top.nsPrefix == some nsPrefix ||
      draft.top.usedPrefixes.contains nsPrefix)

def asked (draft : Draft) (request : NameRequest) : AskedName :=
  { request, bound := (nonEmpty? request.nsPrefix).bind draft.scope.uri? }

def relies (draft : Draft) (request : NameRequest) : Bool :=
  (nonEmpty? request.nsPrefix).any draft.prefixInUse

def push (draft : Draft) : Draft :=
  { draft with elements := draft.elements.push draft.scope.length }

def pop (draft : Draft) : Draft :=
  { draft with
    scope := draft.scope.take draft.top.bindingMark
    elements := draft.elements.pop }

/-! ## Namespaces -/

/-- What may be bound to what: nothing to the namespace of declarations, only `xml`
to its own namespace and to nothing else, and `xmlns` to nothing. -/
structure Bindable (nsPrefix uri : String) : Prop where
  nonEmpty : uri ≠ ""
  notDeclarations : uri ≠ Namespace.declarations
  xmlOnly : uri = Namespace.xml → nsPrefix = "xml"
  xmlKept : nsPrefix = "xml" → uri = Namespace.xml
  notXmlns : nsPrefix ≠ "xmlns"

/-- Binding a prefix. A prefix that is bound to the namespace already is left as it
is, and one that the open start tag relies on cannot be bound anew. -/
inductive BindsPrefix (draft : Draft) (nsPrefix uri : String) (declared : Bool) :
    Draft → Prop
  | known (position : Nat) (latest : draft.scope.position? nsPrefix = some position)
      (same : draft.scope.uri? nsPrefix = some uri) :
      BindsPrefix draft nsPrefix uri declared
        { draft with
          scope := if declared then draft.scope.declare position else draft.scope }
  | fresh (different : draft.scope.uri? nsPrefix ≠ some uri)
      (unused : draft.prefixInUse nsPrefix = false) :
      BindsPrefix draft nsPrefix uri declared
        { draft with scope := draft.scope ++ [⟨nsPrefix, uri, declared, none⟩] }

def settled (draft : Draft) : Prop :=
  draft.top.defaultNamespace = .owed ∨ draft.top.defaultNamespace = .written

def setDefault (draft : Draft) (uri : String) (declared : Bool) : Draft :=
  draft.modifyTop fun element =>
    { element with
      defaultUri := uri
      defaultNamespace :=
        if declared || draft.top.defaultNamespace = .written then .written else .owed }

/-- Binding the default namespace, which a start tag does once. -/
structure BindsDefault (draft : Draft) (uri : String) (declared : Bool) (after : Draft) :
    Prop where
  notDeclarations : uri ≠ Namespace.declarations
  notXml : uri ≠ Namespace.xml
  agrees : draft.settled → draft.top.defaultUri = uri
  result : after = draft.setDefault uri declared

/-! ## Names -/

/-- The prefix that an element is written with, and the draft after what had to be
bound for it. -/
inductive NamesElement (draft : Draft) (request : NameRequest) : Option String → Draft → Prop
  | withoutNamespaces (disabled : draft.settings.namespaces = false) :
      NamesElement draft request none draft
  | bare (enabled : draft.settings.namespaces = true) (noUri : request.uri = none)
      (noPrefix : nonEmpty? request.nsPrefix = none) :
      NamesElement draft request none draft
  | bound (nsPrefix : String) (enabled : draft.settings.namespaces = true)
      (noUri : request.uri = none) (given : nonEmpty? request.nsPrefix = some nsPrefix)
      (isBound : (draft.scope.position? nsPrefix).isSome) :
      NamesElement draft request (some nsPrefix) draft
  | found (uri nsPrefix : String) (enabled : draft.settings.namespaces = true)
      (wanted : request.uri = some uri) (noPrefix : request.nsPrefix = none)
      (stands : draft.scope.prefixOf? uri = some nsPrefix) :
      NamesElement draft request (nonEmpty? (some nsPrefix)) draft
  | default (uri : String) (after : Draft) (enabled : draft.settings.namespaces = true)
      (wanted : request.uri = some uri) (noPrefix : nonEmpty? request.nsPrefix = none)
      (binds : draft.BindsDefault uri false after) :
      NamesElement draft request none after
  | binding (uri nsPrefix : String) (after : Draft)
      (enabled : draft.settings.namespaces = true) (wanted : request.uri = some uri)
      (given : nonEmpty? request.nsPrefix = some nsPrefix) (allowed : Bindable nsPrefix uri)
      (binds : draft.BindsPrefix nsPrefix uri false after) :
      NamesElement draft request (some nsPrefix) after

/-- The prefix that is made up for a namespace: it is not bound. -/
structure MakesPrefix (draft : Draft) (nsPrefix : String) (after : Draft) : Prop where
  named : ∃ number, nsPrefix = Bindings.generatedPrefix draft.depth number ∧
    after = draft.modifyTop fun element => { element with prefixCount := number }
  unbound : draft.scope.position? nsPrefix = none

/-- The prefix of an attribute in a namespace, and the draft after what had to be
bound for it. -/
inductive FindsPrefix (draft : Draft) (asked : Option String) (uri : String) :
    String → Draft → Prop
  | found (nsPrefix : String) (givesWay : ∀ wanted, asked = some wanted →
        draft.prefixInUse wanted = true)
      (stands : draft.scope.prefixOf? uri = some nsPrefix) :
      FindsPrefix draft asked uri nsPrefix draft
  | made (nsPrefix : String) (middle after : Draft) (givesWay : ∀ wanted, asked = some wanted →
        draft.prefixInUse wanted = true)
      (absent : draft.scope.prefixOf? uri = none)
      (makes : draft.MakesPrefix nsPrefix middle) (allowed : Bindable nsPrefix uri)
      (binds : middle.BindsPrefix nsPrefix uri false after) :
      FindsPrefix draft asked uri nsPrefix after
  | kept (nsPrefix : String) (given : asked = some nsPrefix)
      (free : draft.prefixInUse nsPrefix = false)
      (stands : draft.scope.prefixOf? uri = some nsPrefix) :
      FindsPrefix draft asked uri nsPrefix draft
  | bound (nsPrefix : String) (after : Draft) (given : asked = some nsPrefix)
      (free : draft.prefixInUse nsPrefix = false) (allowed : Bindable nsPrefix uri)
      (binds : draft.BindsPrefix nsPrefix uri false after) :
      FindsPrefix draft asked uri nsPrefix after

/-- The prefix that a namespace has in text, and the draft after what had to be bound
for it. One can be made up in an attribute value only. -/
inductive QualifiesText (draft : Draft) (uri : String) : String → Draft → Prop
  | found (nsPrefix : String) (stands : draft.scope.prefixOf? uri = some nsPrefix) :
      QualifiesText draft uri nsPrefix draft
  | made (nsPrefix : String) (middle after : Draft) (inside : draft.phase = .attribute)
      (absent : draft.scope.prefixOf? uri = none)
      (makes : draft.MakesPrefix nsPrefix middle) (allowed : Bindable nsPrefix uri)
      (binds : middle.BindsPrefix nsPrefix uri false after) :
      QualifiesText draft uri nsPrefix after

/-- The prefix that an attribute is written with, what it says about its element, and
the draft after what had to be bound for it. -/
inductive NamesAttribute (draft : Draft) (request : NameRequest) :
    Option String → Option SpecialKind → Draft → Prop
  | withoutNamespaces (disabled : draft.settings.namespaces = false) :
      NamesAttribute draft request none (Writer.plainKind? request.localName) draft
  | xml (enabled : draft.settings.namespaces = true)
      (wanted : request.wantedPrefix = some "xml")
      (own : ∀ uri, nonEmpty? request.uri = some uri → uri = Namespace.xml) :
      NamesAttribute draft request (some "xml") (Writer.xmlKind? request.localName) draft
  | declaration (enabled : draft.settings.namespaces = true)
      (wanted : request.wantedPrefix = some "xmlns")
      (own : ∀ uri, nonEmpty? request.uri = some uri → uri = Namespace.declarations) :
      NamesAttribute draft request (some "xmlns")
        (some (.declaration (some request.localName))) draft
  | defaultDeclaration (enabled : draft.settings.namespaces = true)
      (wanted : request.wantedPrefix = none) (named : request.localName = "xmlns")
      (own : ∀ uri, nonEmpty? request.uri = some uri → uri = Namespace.declarations) :
      NamesAttribute draft request none (some (.declaration none)) draft
  | bare (enabled : draft.settings.namespaces = true) (wanted : request.wantedPrefix = none)
      (named : request.localName ≠ "xmlns") (noUri : request.uri = none) :
      NamesAttribute draft request none none draft
  | bound (nsPrefix : String) (enabled : draft.settings.namespaces = true)
      (wanted : request.wantedPrefix = some nsPrefix) (notXml : nsPrefix ≠ "xml")
      (notXmlns : nsPrefix ≠ "xmlns") (noUri : request.uri = none)
      (isBound : (draft.scope.position? nsPrefix).isSome) :
      NamesAttribute draft request (some nsPrefix) none draft
  | unprefixed (enabled : draft.settings.namespaces = true)
      (notXml : request.wantedPrefix ≠ some "xml")
      (notXmlns : request.wantedPrefix ≠ some "xmlns")
      (named : request.wantedPrefix = none → request.localName ≠ "xmlns")
      (noUri : request.uri = some "") :
      NamesAttribute draft request none none draft
  | namespaced (uri nsPrefix : String) (after : Draft)
      (enabled : draft.settings.namespaces = true)
      (notXml : request.wantedPrefix ≠ some "xml")
      (notXmlns : request.wantedPrefix ≠ some "xmlns")
      (named : request.wantedPrefix = none → request.localName ≠ "xmlns")
      (wanted : request.uri = some uri) (nonEmpty : uri ≠ "") (inside : 0 < draft.depth)
      (finds : draft.FindsPrefix request.wantedPrefix uri nsPrefix after) :
      NamesAttribute draft request (some nsPrefix) none after

inductive Applies (draft : Draft) : SpecialAttribute → Draft → Prop
  | language (value : String) :
      Applies draft ⟨.language, value⟩
        (draft.modifyTop fun element => { element with language := some value })
  | space (value : String) (space : SpaceHandling)
      (asked : Writer.spaceHandling? value = some space) :
      Applies draft ⟨.space, value⟩ (draft.modifyTop fun element => { element with space })
  | outside (nsPrefix : Option String) (value : String) (outside : draft.depth = 0) :
      Applies draft ⟨.declaration nsPrefix, value⟩ draft
  | prefixed (nsPrefix value : String) (after : Draft) (inside : 0 < draft.depth)
      (allowed : Bindable nsPrefix value)
      (binds : draft.BindsPrefix nsPrefix value true after) :
      Applies draft ⟨.declaration (some nsPrefix), value⟩ after
  | default (value : String) (after : Draft) (inside : 0 < draft.depth)
      (binds : draft.BindsDefault value true after) :
      Applies draft ⟨.declaration none, value⟩ after

/-! ## The end of a start tag -/

/-- The declaration of the default namespace has to be written: the innermost element
owes it, and the one around does not have the same. -/
def owesDefault (draft : Draft) : Bool :=
  draft.depth > 0 && draft.top.defaultUri ≠ draft.elements.parent.defaultUri &&
    draft.top.defaultNamespace = .owed

def settle (draft : Draft) : Draft :=
  { draft with
    scope := (draft.scope.owed draft.top.bindingMark).foldl
      (fun scope entry => scope.declare entry.2) draft.scope
    elements :=
      if draft.owesDefault then
        draft.elements.modifyTop fun element => { element with defaultNamespace := .written }
      else draft.elements }

end Draft

end XmlStream
