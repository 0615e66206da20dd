import XmlStream.Bindings
import XmlStream.Proofs.Reading.Reader

namespace XmlStream.Reading

/-! What the names in tags mean to a reader that knows namespaces. An attribute that declares a
prefix, or the default namespace, does so for its tag and for the tags within. Of several
declarations in a tag the last one counts. -/

/-- A part of a value as text. What an entity stands for is not known. -/
def Part.text : Part → List Char
  | .character code => [code]
  | .entity name => '&' :: (name ++ [';'])

def valueText (parts : List Part) : String := String.ofList (parts.flatMap Part.text)

def declarationName : Option String → List Char
  | none => "xmlns".toList
  | some nsPrefix => "xmlns:".toList ++ nsPrefix.toList

/-- The value of the last attribute of a tag that has some name. -/
def StartTag.value? (tag : StartTag) (name : List Char) : Option String :=
  (tag.attributes.reverse.find? fun entry => entry.1 = name).map fun entry => valueText entry.2

/-- The namespace that a tag declares a prefix, or names without one, to stand for. -/
def StartTag.declares? (tag : StartTag) (nsPrefix : Option String) : Option String :=
  (tag.attributes.reverse.find? fun entry => entry.1 = declarationName nsPrefix).map
    fun entry => valueText entry.2

/-- What needs no declaration: names without a prefix are in no namespace, and two prefixes
always stand for their namespaces. -/
def predeclared? : Option String → Option String
  | none => some ""
  | some nsPrefix =>
    if nsPrefix = "xml" then some Namespace.xml
    else if nsPrefix = "xmlns" then some Namespace.declarations
    else none

/-- The namespace of a prefix in the first of some tags, each of which stands within the next. -/
def uriOf? (tags : List StartTag) (nsPrefix : Option String) : Option String :=
  (tags.findSome? (·.declares? nsPrefix)).or (predeclared? nsPrefix)

def prefix? (name : List Char) : Option String :=
  if ':' ∈ name then some (String.ofList (name.takeWhile (· ≠ ':'))) else none

def localPart (name : List Char) : List Char :=
  if ':' ∈ name then (name.dropWhile (· ≠ ':')).tail else name

/-- The start tags of a document that has been read so far: those of the open elements, the
innermost one first, and each one that is complete, with those that it stands within. -/
structure Nesting where
  opened : List StartTag := []
  tags : List (List StartTag) := []
deriving DecidableEq, Repr

def Nesting.add (nesting : Nesting) : Item → Nesting
  | .startTag tag =>
    { opened := tag :: nesting.opened, tags := nesting.tags ++ [tag :: nesting.opened] }
  | .emptyTag tag => { nesting with tags := nesting.tags ++ [tag :: nesting.opened] }
  | .endTag _ => { nesting with opened := nesting.opened.tail }
  | .text _ | .cdata _ | .comment _ | .instruction _ _ | .doctype _ => nesting

def nesting (text : List Char) : Nesting := (read (.text .content) text).2.foldl Nesting.add {}

/-- An inner declaration hides an outer one, and the last one of a tag counts. -/
example :
    let tags := (nesting "<a xmlns:p='u'><b xmlns:p='v' xmlns:p='&#119;'/><p:c>".toList).tags
    tags.map (uriOf? · (some "p")) = [some "u", some "w", some "u"] ∧
      tags.map (fun tags => tags.head?.map (prefix? ·.name)) = [some none, some none, some "p"] := by
  decide +kernel

/-! ## Names -/

theorem declarationName_none : declarationName none = "xmlns".toList := rfl

theorem declarationName_some (nsPrefix : String) :
    declarationName (some nsPrefix) = "xmlns:".toList ++ nsPrefix.toList := rfl

theorem declarationName_injective {nsPrefix other : Option String}
    (same : declarationName nsPrefix = declarationName other) : nsPrefix = other := by
  have longer (given : String) : declarationName none ≠ declarationName (some given) := by
    intro same
    have colon : ':' ∈ declarationName (some given) := List.mem_append_left _ (by decide)
    rw [← same] at colon
    exact absurd colon (by decide)
  cases nsPrefix with
  | none =>
      cases other with
      | none => rfl
      | some other => exact absurd same (longer other)
  | some nsPrefix =>
      cases other with
      | none => exact absurd same.symm (longer nsPrefix)
      | some other =>
          have lists := List.append_cancel_left same
          rw [String.toList_inj.mp lists]

theorem prefix?_of_notMem {name : List Char} (noColon : ':' ∉ name) : prefix? name = none :=
  if_neg noColon

theorem localPart_of_notMem {name : List Char} (noColon : ':' ∉ name) : localPart name = name :=
  if_neg noColon

section Colon

variable {nsPrefix name : List Char}

theorem takeWhile_ne_colon (noColon : ':' ∉ nsPrefix) :
    (nsPrefix ++ ':' :: name).takeWhile (· ≠ ':') = nsPrefix := by
  induction nsPrefix with
  | nil => simp
  | cons first rest induction =>
      rw [List.mem_cons, not_or] at noColon
      simpa [Ne.symm noColon.1] using induction noColon.2

theorem dropWhile_ne_colon (noColon : ':' ∉ nsPrefix) :
    (nsPrefix ++ ':' :: name).dropWhile (· ≠ ':') = ':' :: name := by
  induction nsPrefix with
  | nil => simp
  | cons first rest induction =>
      rw [List.mem_cons, not_or] at noColon
      simpa [Ne.symm noColon.1] using induction noColon.2

theorem prefix?_append (noColon : ':' ∉ nsPrefix) :
    prefix? (nsPrefix ++ ':' :: name) = some (String.ofList nsPrefix) := by
  rw [prefix?, if_pos (by simp), takeWhile_ne_colon noColon]

theorem localPart_append (noColon : ':' ∉ nsPrefix) :
    localPart (nsPrefix ++ ':' :: name) = name := by
  rw [localPart, if_pos (by simp), dropWhile_ne_colon noColon]
  rfl

end Colon

theorem prefix?_declarationName (nsPrefix : String) :
    prefix? (declarationName (some nsPrefix)) = some "xmlns" :=
  @prefix?_append "xmlns".toList nsPrefix.toList (by decide)

/-! ## Declarations -/

variable {tag : StartTag} {name : List Char} {parts : List Part} {nsPrefix : Option String}

theorem value?_add (other : List Char) : (tag.add name parts).value? other =
    if name = other then some (valueText parts) else tag.value? other := by
  rw [StartTag.value?, StartTag.add]
  simp only [List.reverse_append, List.reverse_singleton, List.singleton_append, List.find?_cons]
  by_cases same : name = other <;> simp [same, StartTag.value?]

theorem declares?_add : (tag.add name parts).declares? nsPrefix =
    if name = declarationName nsPrefix then some (valueText parts) else tag.declares? nsPrefix :=
  value?_add _

theorem uriOf?_cons (tags : List StartTag) :
    uriOf? (tag :: tags) nsPrefix = (tag.declares? nsPrefix).or (uriOf? tags nsPrefix) := by
  unfold uriOf?
  rw [List.findSome?_cons]
  cases tag.declares? nsPrefix <;> rfl

def StartTag.addAll (tag : StartTag) (attributes : List (List Char × List Part)) : StartTag :=
  { tag with attributes := tag.attributes ++ attributes }

theorem uriOf?_addAll {attributes : List (List Char × List Part)} (tags : List StartTag)
    {uri : String} (declared : ∃ entry ∈ attributes, entry.1 = declarationName nsPrefix)
    (all : ∀ entry ∈ attributes, entry.1 = declarationName nsPrefix →
      valueText entry.2 = uri) :
    uriOf? (tag.addAll attributes :: tags) nsPrefix = some uri := by
  rw [uriOf?_cons, StartTag.declares?, StartTag.addAll]
  simp only [List.reverse_append, List.find?_append]
  rcases declared with ⟨entry, member, named⟩
  cases found : attributes.reverse.find? fun entry => entry.1 = declarationName nsPrefix with
  | none =>
      have absent := List.find?_eq_none.mp found entry (List.mem_reverse.mpr member)
      exact absurd (decide_eq_true named) absent
  | some last =>
      have there := List.mem_reverse.mp (List.mem_of_find?_eq_some found)
      have isNamed := List.find?_some found
      simp [all last there (by simpa using isNamed)]

theorem value?_addAll_of_notMem {attributes : List (List Char × List Part)} {other : List Char}
    (others : ∀ entry ∈ attributes, entry.1 ≠ other) :
    (tag.addAll attributes).value? other = tag.value? other := by
  have absent : attributes.reverse.find? (fun entry => entry.1 = other) = none := by
    rw [List.find?_eq_none]
    intro entry member
    simpa using others entry (List.mem_reverse.mp member)
  rw [StartTag.value?, StartTag.addAll, StartTag.value?]
  simp only [List.reverse_append, List.find?_append, absent, Option.none_or]

theorem uriOf?_addAll_of_notMem {attributes : List (List Char × List Part)}
    (tags : List StartTag)
    (others : ∀ entry ∈ attributes, entry.1 ≠ declarationName nsPrefix) :
    uriOf? (tag.addAll attributes :: tags) nsPrefix = uriOf? (tag :: tags) nsPrefix := by
  have same : (tag.addAll attributes).declares? nsPrefix = tag.declares? nsPrefix :=
    value?_addAll_of_notMem others
  rw [uriOf?_cons, uriOf?_cons, same]

theorem valueText_map_character (characters : List Char) :
    valueText (characters.map .character) = String.ofList characters := by
  rw [valueText, List.flatMap_map]
  simp [Part.text]

theorem valueText_append (parts more : List Part) :
    valueText (parts ++ more) = valueText parts ++ valueText more := by
  simp [valueText]

end XmlStream.Reading
