import XmlStream.Proofs.Bindings.Latest
import XmlStream.Proofs.Reading.Sight

namespace XmlStream

/-! What prefixes stand for, to a writer and to a reader. For complete start tags both agree. In an open
start tag they agree as soon as the declarations that are owed are added. -/

open Reading

/-- What a prefix stands for in a scope. A name without a prefix is in the default namespace. -/
def Scope.meaning (scope : Scope) (defaultUri : String) : Option String → Option String
  | none => some defaultUri
  | some nsPrefix => (scope.uri? nsPrefix).or (predeclared? (some nsPrefix))

namespace Draft

def means? (draft : Draft) : Option String → Option String :=
  draft.scope.meaning draft.top.defaultUri

/-- Complete start tags, the innermost one first, declare what is bound in the layers of a scope. -/
inductive Agree : Scope → List (Nat × String) → List StartTag → Prop
  | outside : Agree [xmlBinding] [] []
  | within {scope : Scope} {mark : Nat} {uri : String} {layers : List (Nat × String)}
      {tag : StartTag} {around : List StartTag}
      (means : ∀ nsPrefix, uriOf? (tag :: around) nsPrefix = scope.meaning uri nsPrefix)
      (rest : Agree (scope.take mark) layers around) :
      Agree scope ((mark, uri) :: layers) (tag :: around)

/-- The declaration of a prefix, bound by the open start tag, stands in it. -/
def Declared (draft : Draft) (nsPrefix : String) : Prop :=
  ∃ binding index, draft.scope.latest? nsPrefix = some (binding, index) ∧
    draft.top.bindingMark ≤ index ∧ binding.declared = true

/-- The attributes of the open start tag declare what is noted as declared. What else they declare
repeats what the tags around it do. -/
structure Tells (draft : Draft) (tag : StartTag) (around : List StartTag) : Prop where
  inside : 0 < draft.depth
  fits : draft.top.bindingMark ≤ draft.scope.length
  outer : Agree (draft.scope.take draft.top.bindingMark) draft.layers.tail around
  changes : draft.scope.ChangesFrom draft.top.bindingMark
  noted : ∀ nsPrefix binding index, draft.scope.latest? nsPrefix = some (binding, index) →
    draft.top.bindingMark ≤ index → binding.declared = true →
      tag.declares? (some nsPrefix) = some binding.uri
  repeats : ∀ entry ∈ tag.attributes, ∀ nsPrefix, entry.1 = declarationName (some nsPrefix) →
    draft.Declared nsPrefix ∨ uriOf? around (some nsPrefix) = some (valueText entry.2)
  written : draft.top.defaultNamespace = .written →
    tag.declares? none = some draft.top.defaultUri
  settles : ∀ entry ∈ tag.attributes, entry.1 = declarationName none →
    draft.top.defaultNamespace = .written
  inherits : ¬draft.settled → draft.top.defaultUri = draft.elements.parent.defaultUri

end Draft

/-! ## Attributes -/

namespace Reading

variable {tag : StartTag} {nsPrefix : Option String} {uri : String}

theorem declarationName_ne (nsPrefix : String) :
    declarationName (some nsPrefix) ≠ declarationName none := by
  intro same
  cases declarationName_injective same

theorem mem_of_declares? (declares : tag.declares? nsPrefix = some uri) :
    ∃ entry ∈ tag.attributes, entry.1 = declarationName nsPrefix ∧ valueText entry.2 = uri := by
  rcases Option.map_eq_some_iff.mp declares with ⟨entry, found, value⟩
  have member := List.mem_reverse.mp (List.mem_of_find?_eq_some found)
  have named := List.find?_some found
  exact ⟨entry, member, by simpa using named, value⟩

theorem declares?_of_notMem
    (absent : ∀ entry ∈ tag.attributes, entry.1 ≠ declarationName nsPrefix) :
    tag.declares? nsPrefix = none := by
  cases found : tag.declares? nsPrefix with
  | none => rfl
  | some uri =>
      rcases mem_of_declares? found with ⟨entry, member, named, _⟩
      exact absurd named (absent entry member)

theorem mem_add {name : List Char} {parts : List Part} {entry : List Char × List Part} :
    entry ∈ (tag.add name parts).attributes ↔ entry ∈ tag.attributes ∨ entry = (name, parts) := by
  simp [StartTag.add]

theorem declares?_add_self {parts : List Part} :
    (tag.add (declarationName nsPrefix) parts).declares? nsPrefix = some (valueText parts) := by
  rw [declares?_add, if_pos rfl]

theorem declares?_add_of_ne {name : List Char} {parts : List Part}
    (other : name ≠ declarationName nsPrefix) :
    (tag.add name parts).declares? nsPrefix = tag.declares? nsPrefix := by
  rw [declares?_add, if_neg other]

theorem declares?_add_other {other : Option String} {parts : List Part}
    (different : nsPrefix ≠ other) :
    (tag.add (declarationName nsPrefix) parts).declares? other = tag.declares? other :=
  declares?_add_of_ne fun same => different (declarationName_injective same)

end Reading

/-! ## Complete tags -/

namespace Scope

theorem meaning_declare (scope : Scope) (position : Nat) (defaultUri : String) :
    meaning (scope.declare position) defaultUri = scope.meaning defaultUri := by
  funext nsPrefix
  cases nsPrefix with
  | none => rfl
  | some nsPrefix => rw [meaning, uri?_declare, meaning]

theorem declare_xmlBinding (position : Nat) :
    declare [Draft.xmlBinding] position = [Draft.xmlBinding] :=
  declare_of_declared (by simp [Draft.xmlBinding]) position

end Scope

namespace Draft

variable {scope : Scope} {layers : List (Nat × String)} {tags around : List StartTag}
  {tag : StartTag} {draft after : Draft} {nsPrefix uri : String}

def defaultOf (layers : List (Nat × String)) : String := (layers.head?.map Prod.snd).getD ""

theorem Agree.means (agree : Agree scope layers tags) (nsPrefix : Option String) :
    uriOf? tags nsPrefix = scope.meaning (defaultOf layers) nsPrefix := by
  cases agree with
  | outside =>
      cases nsPrefix with
      | none => rfl
      | some nsPrefix =>
          by_cases isXml : nsPrefix = "xml"
          · subst isXml
            decide +kernel
          · have absent : Scope.uri? [xmlBinding] nsPrefix = none := by
              simp [Scope.uri?, Scope.latest?, xmlBinding, Ne.symm isXml]
            rw [Scope.meaning, absent, Option.none_or]
            rfl
  | within means => exact means nsPrefix

theorem Agree.declare (agree : Agree scope layers tags) (position : Nat) :
    Agree (scope.declare position) layers tags := by
  induction agree with
  | outside =>
      rw [Scope.declare_xmlBinding]
      exact .outside
  | within means _ induction =>
      refine .within ?_ ?_
      · rwa [Scope.meaning_declare]
      · rwa [Scope.take_declare]

theorem Agree.take_foldl_declare (owed : List (Binding × Nat)) {mark : Nat}
    (agree : Agree (scope.take mark) layers tags) :
    Agree ((owed.foldl (fun scope entry => scope.declare entry.2) scope).take mark) layers tags := by
  induction owed generalizing scope with
  | nil => exact agree
  | cons entry rest induction =>
      apply induction
      rw [Scope.take_declare]
      exact agree.declare entry.2

theorem top_defaultUri_eq (surroundings : draft.elements.outside.defaultUri = "") :
    draft.top.defaultUri = defaultOf draft.layers := by
  unfold top ElementStack.top layers defaultOf
  cases draft.elements.opened with
  | nil => exact surroundings
  | cons innermost rest => rfl

theorem parent_defaultUri_eq (surroundings : draft.elements.outside.defaultUri = "") :
    draft.elements.parent.defaultUri = defaultOf draft.layers.tail := by
  unfold ElementStack.parent layers defaultOf
  rw [← List.map_tail]
  cases draft.elements.opened.tail with
  | nil => exact surroundings
  | cons innermost rest => rfl

theorem layers_eq_cons (inside : 0 < draft.depth) :
    draft.layers = (draft.top.bindingMark, draft.top.defaultUri) :: draft.layers.tail := by
  unfold layers top ElementStack.top
  cases found : draft.elements.opened with
  | nil => simp [depth, ElementStack.depth, found] at inside
  | cons innermost rest => rfl

theorem means_between (agree : Agree draft.scope draft.layers tags)
    (surroundings : draft.elements.outside.defaultUri = "") (nsPrefix : Option String) :
    uriOf? tags nsPrefix = draft.means? nsPrefix := by
  rw [agree.means, means?, top_defaultUri_eq surroundings]

/-! ## What is owed -/

theorem name_of_mem_owedAttributes {entry : List Char × List Part}
    (member : entry ∈ draft.owedAttributes) :
    (∃ owed ∈ draft.scope.owed draft.top.bindingMark,
        entry = (declarationName (some owed.1.nsPrefix), owed.1.uri.toList.map .character)) ∨
      draft.owesDefault = true ∧
        entry = (declarationName none, draft.top.defaultUri.toList.map .character) := by
  rw [owedAttributes, List.mem_append, List.mem_map] at member
  rcases member with ⟨owed, member, rfl⟩ | member
  · exact .inl ⟨owed, member, rfl⟩
  · split at member
    · rename_i owes
      exact .inr ⟨owes, List.mem_singleton.mp member⟩
    · cases member

theorem owed_of_mem {entry : List Char × List Part} (member : entry ∈ draft.owedAttributes)
    (named : entry.1 = declarationName (some nsPrefix)) :
    ∃ binding index, draft.scope.latest? nsPrefix = some (binding, index) ∧
      draft.top.bindingMark ≤ index ∧ binding.declared = false ∧
      valueText entry.2 = binding.uri := by
  rcases name_of_mem_owedAttributes member with ⟨⟨binding, index⟩, owed, rfl⟩ | ⟨_, rfl⟩
  · have same := Option.some.inj (declarationName_injective named)
    rcases Scope.mem_owed_iff.mp owed with ⟨latest, within, undeclared⟩
    dsimp only at same latest within undeclared
    rw [same] at latest
    refine ⟨binding, index, latest, within, undeclared, ?_⟩
    rw [valueText_map_character, String.ofList_toList]
  · exact absurd named.symm (declarationName_ne nsPrefix)

theorem not_declared_of_mem {entry : List Char × List Part} (member : entry ∈ draft.owedAttributes)
    (named : entry.1 = declarationName (some nsPrefix)) : ¬draft.Declared nsPrefix := by
  rcases owed_of_mem member named with ⟨binding, index, latest, _, undeclared, _⟩
  rintro ⟨other, place, found, _, declared⟩
  rw [latest] at found
  cases found
  rw [undeclared] at declared
  cases declared

theorem mem_owedAttributes {binding : Binding} {index : Nat}
    (latest : draft.scope.latest? nsPrefix = some (binding, index))
    (within : draft.top.bindingMark ≤ index) (undeclared : binding.declared = false) :
    ∃ entry ∈ draft.owedAttributes, entry.1 = declarationName (some nsPrefix) := by
  have named := (Scope.latest?_eq_some latest).2
  subst named
  refine ⟨(declarationName (some binding.nsPrefix), binding.uri.toList.map .character), ?_, rfl⟩
  rw [owedAttributes, List.mem_append, List.mem_map]
  exact .inl ⟨(binding, index), Scope.mem_owed_iff.mpr ⟨latest, within, undeclared⟩, rfl⟩

theorem nodup_owedAttributes (draft : Draft) : (draft.owedAttributes.map Prod.fst).Nodup := by
  have prefixes : ((draft.scope.owed draft.top.bindingMark).map fun entry =>
      declarationName (some entry.1.nsPrefix)).Nodup := by
    have names := draft.scope.nodup_owed draft.top.bindingMark
    refine List.Nodup.of_map (fun entry => entry.1.nsPrefix) ?_ |>.map_on ?_
    · exact names
    · intro entry member other memberToo same
      have equal := Option.some.inj (declarationName_injective same)
      exact List.inj_on_of_nodup_map names member memberToo equal
  rw [owedAttributes, List.map_append, List.map_map]
  split
  · rw [List.map_singleton, List.nodup_append]
    refine ⟨prefixes, List.nodup_singleton _, ?_⟩
    intro name member other last same
    rw [List.mem_singleton] at last
    rcases List.mem_map.mp member with ⟨entry, _, named⟩
    exact declarationName_ne entry.1.nsPrefix (named.trans (same.trans last))
  · rw [List.map_nil, List.append_nil]
    exact prefixes

/-! ## The complete start tag -/

theorem Tells.declares?_none (tells : draft.Tells tag around)
    (unwritten : draft.top.defaultNamespace ≠ .written) : tag.declares? none = none :=
  declares?_of_notMem fun entry member named => unwritten (tells.settles entry member named)

theorem Tells.means_default (tells : draft.Tells tag around)
    (surroundings : draft.elements.outside.defaultUri = "") :
    uriOf? (tag.addAll draft.owedAttributes :: around) none = some draft.top.defaultUri := by
  by_cases owes : draft.owesDefault = true
  · refine uriOf?_addAll around ?_ ?_
    · refine ⟨(declarationName none, draft.top.defaultUri.toList.map .character), ?_, rfl⟩
      rw [owedAttributes, if_pos owes]
      exact List.mem_append_right _ (List.mem_singleton.mpr rfl)
    · intro entry member named
      rcases name_of_mem_owedAttributes member with ⟨owed, _, rfl⟩ | ⟨_, rfl⟩
      · exact absurd named (declarationName_ne owed.1.nsPrefix)
      · rw [valueText_map_character, String.ofList_toList]
  · have others : ∀ entry ∈ draft.owedAttributes, entry.1 ≠ declarationName none := by
      intro entry member named
      rcases name_of_mem_owedAttributes member with ⟨owed, _, rfl⟩ | ⟨owesToo, _⟩
      · exact absurd named (declarationName_ne owed.1.nsPrefix)
      · exact owes owesToo
    rw [uriOf?_addAll_of_notMem around others, uriOf?_cons]
    by_cases written : draft.top.defaultNamespace = .written
    · rw [tells.written written, Option.some_or]
    · have parent : draft.top.defaultUri = draft.elements.parent.defaultUri := by
        by_cases settled : draft.settled
        · by_contra differs
          have owed := settled.resolve_right written
          exact owes (by simp [owesDefault, tells.inside, differs, owed])
        · exact tells.inherits settled
      rw [tells.declares?_none written, Option.none_or, tells.outer.means, parent,
        parent_defaultUri_eq surroundings]
      rfl

theorem Tells.uriOf?_of_unbound (tells : draft.Tells tag around) (undeclared : ¬draft.Declared nsPrefix) :
    uriOf? (tag :: around) (some nsPrefix) = uriOf? around (some nsPrefix) := by
  rw [uriOf?_cons]
  cases declares : tag.declares? (some nsPrefix) with
  | none => rfl
  | some uri =>
      rcases mem_of_declares? declares with ⟨entry, member, named, rfl⟩
      have same := (tells.repeats entry member nsPrefix named).resolve_left undeclared
      rw [Option.some_or, same]

theorem Tells.means_prefix (tells : draft.Tells tag around) (nsPrefix : String) :
    uriOf? (tag.addAll draft.owedAttributes :: around) (some nsPrefix) =
      (draft.scope.uri? nsPrefix).or (predeclared? (some nsPrefix)) := by
  have notOwed (absent : ∀ entry ∈ draft.owedAttributes, entry.1 ≠ declarationName (some nsPrefix)) :
      uriOf? (tag.addAll draft.owedAttributes :: around) (some nsPrefix) =
        uriOf? (tag :: around) (some nsPrefix) := uriOf?_addAll_of_notMem around absent
  have older {binding : Binding} {index : Nat}
      (latest : draft.scope.latest? nsPrefix = some (binding, index))
      (before : ¬draft.top.bindingMark ≤ index) : ¬draft.Declared nsPrefix := by
    rintro ⟨other, place, found, within, _⟩
    rw [latest] at found
    cases found
    exact before within
  cases latest : draft.scope.latest? nsPrefix with
  | none =>
      have absent : ∀ entry ∈ draft.owedAttributes, entry.1 ≠ declarationName (some nsPrefix) := by
        intro entry member named
        rcases owed_of_mem member named with ⟨_, _, found, _⟩
        rw [latest] at found
        cases found
      have undeclared : ¬draft.Declared nsPrefix := by
        rintro ⟨_, _, found, _⟩
        rw [latest] at found
        cases found
      rw [notOwed absent, tells.uriOf?_of_unbound undeclared, tells.outer.means, Scope.meaning,
        Scope.uri?, Scope.uri?, latest, Scope.latest?_take_eq_none latest]
  | some entry =>
      rcases entry with ⟨binding, index⟩
      have bound : draft.scope.uri? nsPrefix = some binding.uri := by
        rw [Scope.uri?, latest, Option.map_some]
      rw [bound, Option.some_or]
      -- The newest binding is of this tag, which declares it now or has done so, or of one around.
      by_cases within : draft.top.bindingMark ≤ index
      · cases declared : binding.declared with
        | false =>
            refine uriOf?_addAll around (mem_owedAttributes latest within declared) ?_
            intro other member named
            rcases owed_of_mem member named with ⟨newest, place, found, _, _, value⟩
            rw [latest] at found
            cases found
            exact value
        | true =>
            have isDeclared : draft.Declared nsPrefix := ⟨binding, index, latest, within, declared⟩
            rw [notOwed fun other member named => not_declared_of_mem member named isDeclared,
              uriOf?_cons, tells.noted nsPrefix binding index latest within declared, Option.some_or]
      · have before : index < draft.top.bindingMark := Nat.lt_of_not_le within
        have absent : ∀ entry ∈ draft.owedAttributes,
            entry.1 ≠ declarationName (some nsPrefix) := by
          intro entry member named
          rcases owed_of_mem member named with ⟨_, _, found, withinToo, _⟩
          rw [latest] at found
          cases found
          exact within withinToo
        rw [notOwed absent, tells.uriOf?_of_unbound (older latest within), tells.outer.means,
          Scope.meaning, Scope.uri?, Scope.latest?_take latest before, Option.map_some,
          Option.some_or]

/-- As soon as the declarations that are owed are added, a draft and a reader agree. -/
theorem Tells.means (tells : draft.Tells tag around)
    (surroundings : draft.elements.outside.defaultUri = "") (nsPrefix : Option String) :
    uriOf? (tag.addAll draft.owedAttributes :: around) nsPrefix = draft.means? nsPrefix := by
  cases nsPrefix with
  | none => exact tells.means_default surroundings
  | some nsPrefix => exact tells.means_prefix nsPrefix

end Draft

end XmlStream
