namespace XmlStream

/-! The open elements of a document and what has to be remembered of each. -/

inductive DefaultNamespace
  /-- Neither the element nor one around it has set it. -/
  | unset
  /-- It is that of the element around. -/
  | inherited
  /-- It is set on the element, and its declaration has to be written yet. -/
  | owed
  /-- Its declaration stands in the start tag. -/
  | written
deriving DecidableEq, Repr

inductive SpaceHandling
  | unspecified
  | default
  | preserve
deriving DecidableEq, Repr

structure OpenElement where
  name : String := ""
  nsPrefix : Option String := none
  /-- The default namespace in the element. It is empty if there is none. -/
  defaultUri : String := ""
  defaultNamespace : DefaultNamespace := .unset
  space : SpaceHandling := .unspecified
  language : Option String := none
  /-- How many bindings there were when the element was opened. -/
  bindingMark : Nat := 0
  /-- How many prefixes have been made up for the element. -/
  prefixCount : Nat := 0
  /-- The prefixes that occur in the attributes of the start tag. -/
  usedPrefixes : List String := []
  /-- Whether the element has text in it, so that indenting would change it. -/
  mixed : Bool := false
deriving DecidableEq, Repr

/-- The open elements, innermost first. `outside` stands for what surrounds the
outermost one, so that there always is something that encloses. -/
structure ElementStack where
  opened : List OpenElement := []
  outside : OpenElement := {}
deriving DecidableEq, Repr

namespace ElementStack

def depth (elements : ElementStack) : Nat := elements.opened.length

def top (elements : ElementStack) : OpenElement := elements.opened.headD elements.outside

def parent (elements : ElementStack) : OpenElement :=
  elements.opened.tail.headD elements.outside

def modifyTop (elements : ElementStack) (change : OpenElement → OpenElement) :
    ElementStack :=
  match elements.opened with
  | [] => { elements with outside := change elements.outside }
  | innermost :: rest => { elements with opened := change innermost :: rest }

/-- Open an element. It inherits the default namespace, and an element in mixed
content counts as mixed as well. -/
def push (elements : ElementStack) (bindingMark : Nat) : ElementStack :=
  let parent := elements.top
  let innermost : OpenElement :=
    { bindingMark
      defaultUri := parent.defaultUri
      defaultNamespace := if parent.defaultNamespace = .unset then .unset else .inherited
      mixed := parent.mixed }
  { elements with opened := innermost :: elements.opened }

def pop (elements : ElementStack) : ElementStack :=
  { elements with opened := elements.opened.tail }

def outwards (elements : ElementStack) : List OpenElement :=
  elements.opened ++ [elements.outside]

def space (elements : ElementStack) : SpaceHandling :=
  ((elements.outwards.map (·.space)).find? (· ≠ .unspecified)).getD .unspecified

def language (elements : ElementStack) : Option String :=
  elements.outwards.findSome? (·.language)

example :
    let outer : OpenElement := { defaultUri := "urn:a", defaultNamespace := .written }
    let inner := (({ opened := [outer] } : ElementStack).push 1).top
    inner.defaultUri = "urn:a" ∧ inner.defaultNamespace = .inherited := by decide

end ElementStack

end XmlStream
