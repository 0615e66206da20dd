import XmlStream.Proofs.Namespaces.Telling

namespace XmlStream.Draft

/-! What a start tag relies on. A prefix that occurs in an open start tag is not bound anew, and a default
namespace that the tag has settled does not change, so what they stand for is pledged. -/

open Reading

/-- The open start tag relies on a prefix, or on the default namespace. -/
def Relied (draft : Draft) : Option String → Prop
  | none => draft.settled
  | some nsPrefix =>
    nsPrefix = "xml" ∨ nsPrefix = "xmlns" ∨ draft.prefixInUse nsPrefix = true

/-- In the open start tag a prefix, or its absence, stands for a namespace for good. -/
structure Pledges (draft : Draft) (nsPrefix : Option String) (uri : String) : Prop where
  relied : draft.Relied nsPrefix
  means : draft.means? nsPrefix = some uri

def Keeps (before after : Draft) : Prop :=
  ∀ nsPrefix uri, before.Pledges nsPrefix uri → after.Pledges nsPrefix uri

def Lawful (scope : Scope) : Prop :=
  ∀ binding ∈ scope, Bindable binding.nsPrefix binding.uri

variable {draft middle after : Draft} {scope : Scope} {nsPrefix uri : String}

theorem Keeps.refl (draft : Draft) : draft.Keeps draft := fun _ _ => id

theorem Keeps.trans (earlier : draft.Keeps middle) (later : middle.Keeps after) : draft.Keeps after :=
  fun nsPrefix uri pledges => later nsPrefix uri (earlier nsPrefix uri pledges)

theorem Keeps.of_eq (scope : after.scope = draft.scope) (elements : after.elements = draft.elements) :
    draft.Keeps after := by
  intro nsPrefix uri pledges
  have top : after.top = draft.top := congrArg ElementStack.top elements
  have depth : after.depth = draft.depth := congrArg ElementStack.depth elements
  refine ⟨?_, ?_⟩
  · cases nsPrefix with
    | none =>
        simp only [Relied, settled, top]
        exact pledges.relied
    | some nsPrefix =>
        simp only [Relied, prefixInUse, scope, top, depth]
        exact pledges.relied
  · simp only [means?, scope, top]
    exact pledges.means

theorem keeps_modifyTop (draft : Draft) {change : OpenElement → OpenElement}
    (same : SameElement draft.top (change draft.top))
    (uri : (change draft.top).defaultUri = draft.top.defaultUri)
    (origin : (change draft.top).defaultNamespace = draft.top.defaultNamespace)
    (used : ∀ nsPrefix ∈ draft.top.usedPrefixes, nsPrefix ∈ (change draft.top).usedPrefixes) :
    draft.Keeps (draft.modifyTop change) := by
  intro nsPrefix pledged pledges
  refine ⟨?_, ?_⟩
  · cases nsPrefix with
    | none =>
        simp only [Relied, settled, top_modifyTop, origin]
        exact pledges.relied
    | some nsPrefix =>
        rcases pledges.relied with isXml | isXmlns | inUse
        · exact .inl isXml
        · exact .inr (.inl isXmlns)
        · refine .inr (.inr ?_)
          simp only [prefixInUse, depth_modifyTop, top_modifyTop, same.bindingMark, same.nsPrefix,
            Bool.and_eq_true, Bool.or_eq_true] at inUse ⊢
          refine ⟨inUse.1, inUse.2.imp_right fun occurs => ?_⟩
          simpa using used nsPrefix (by simpa using occurs)
  · simp only [means?, top_modifyTop, uri]
    exact pledges.means

/-! ## Reserved prefixes -/

theorem mem_of_uri? (bound : scope.uri? nsPrefix = some uri) :
    ∃ binding ∈ scope, binding.nsPrefix = nsPrefix ∧ binding.uri = uri := by
  rcases Option.map_eq_some_iff.mp bound with ⟨entry, latest, same⟩
  rcases Scope.latest?_eq_some latest with ⟨stands, named⟩
  exact ⟨entry.1, List.mem_of_getElem? stands, named, same⟩

theorem meaning_xml (lawful : Lawful scope) (defaultUri : String) :
    scope.meaning defaultUri (some "xml") = some Namespace.xml := by
  rw [Scope.meaning]
  cases bound : scope.uri? "xml" with
  | none => rfl
  | some uri =>
      rcases mem_of_uri? bound with ⟨binding, member, named, rfl⟩
      rw [Option.some_or, (lawful binding member).xmlKept named]

theorem uri?_xmlns (lawful : Lawful scope) : scope.uri? "xmlns" = none := by
  cases bound : scope.uri? "xmlns" with
  | none => rfl
  | some uri =>
      rcases mem_of_uri? bound with ⟨binding, member, named, _⟩
      exact absurd named (lawful binding member).notXmlns

theorem ne_xmlns_of_uri? (lawful : Lawful scope) (bound : scope.uri? nsPrefix = some uri) :
    nsPrefix ≠ "xmlns" := by
  rintro rfl
  rw [uri?_xmlns lawful] at bound
  cases bound

theorem means?_of_uri? (bound : draft.scope.uri? nsPrefix = some uri) :
    draft.means? (some nsPrefix) = some uri := by
  rw [means?, Scope.meaning, bound, Option.some_or]

/-! ## Binding -/

theorem position?_declare (scope : Scope) (position : Nat) (nsPrefix : String) :
    (scope.declare position).position? nsPrefix = scope.position? nsPrefix := by
  rw [Scope.position?, Scope.latest?_declare, Scope.position?, Option.map_map]
  rfl

theorem BindsPrefix.uri? {declared : Bool} (binds : draft.BindsPrefix nsPrefix uri declared after) :
    after.scope.uri? nsPrefix = some uri := by
  cases binds with
  | known position latest same =>
      cases declared with
      | false => exact same
      | true => exact (Scope.uri?_declare _ _ _).trans same
  | fresh different unused => exact (Scope.uri?_concat _ _ _).trans (if_pos rfl)

theorem BindsPrefix.lawful {declared : Bool} (binds : draft.BindsPrefix nsPrefix uri declared after)
    (allowed : Bindable nsPrefix uri) (lawful : Lawful draft.scope) : Lawful after.scope := by
  intro binding member
  rcases binds.mem member with ⟨older, there, descends⟩ | rfl
  · rw [descends.nsPrefix, descends.uri]
    exact lawful older there
  · exact allowed

/-- A prefix that the tag relies on is not bound anew. -/
theorem BindsPrefix.keeps {declared : Bool} (binds : draft.BindsPrefix nsPrefix uri declared after)
    (allowed : Bindable nsPrefix uri) (lawful : Lawful draft.scope) : draft.Keeps after := by
  have lawfulToo := binds.lawful allowed lawful
  cases binds with
  | known position latest same =>
      cases declared with
      | false => exact .refl draft
      | true =>
          intro pledged other pledges
          refine ⟨?_, ?_⟩
          · cases pledged with
            | none => exact pledges.relied
            | some pledged =>
                have relied := pledges.relied
                simp only [Relied, prefixInUse] at relied ⊢
                simp only [if_true, position?_declare]
                exact relied
          · have kept := Scope.meaning_declare draft.scope position draft.top.defaultUri
            change Scope.meaning (draft.scope.declare position) draft.top.defaultUri pledged = _
            rw [kept]
            exact pledges.means
  | fresh different unused =>
      intro pledged other pledges
      cases pledged with
      | none => exact ⟨pledges.relied, pledges.means⟩
      | some pledged =>
          -- What the tag relies on is in use, unless it is one of the reserved prefixes.
          by_cases same : nsPrefix = pledged
          · subst same
            rcases pledges.relied with rfl | rfl | inUse
            · refine ⟨.inl rfl, ?_⟩
              rw [means?, meaning_xml lawfulToo, ← meaning_xml lawful draft.top.defaultUri]
              exact pledges.means
            · exact absurd rfl allowed.notXmlns
            · rw [unused] at inUse
              cases inUse
          · refine ⟨?_, ?_⟩
            · have relied := pledges.relied
              simp only [Relied, prefixInUse] at relied ⊢
              rw [Scope.position?_concat, if_neg same]
              exact relied
            · have means := pledges.means
              simp only [means?, Scope.meaning] at means ⊢
              rw [Scope.uri?_concat, if_neg same]
              exact means

theorem BindsDefault.keeps {declared : Bool} (binds : draft.BindsDefault uri declared after) :
    draft.Keeps after := by
  rcases binds with ⟨_, _, agrees, rfl⟩
  intro pledged other pledges
  cases pledged with
  | none =>
      have same := agrees pledges.relied
      have means : some draft.top.defaultUri = some other := pledges.means
      refine ⟨?_, ?_⟩
      · simp only [Relied, settled, setDefault, top_modifyTop]
        split <;> simp
      · rw [← means, same]
        simp only [means?, setDefault, top_modifyTop, Scope.meaning]
  | some pledged =>
      have relied := pledges.relied
      refine ⟨?_, pledges.means⟩
      simp only [Relied, prefixInUse, setDefault, depth_modifyTop, top_modifyTop] at relied ⊢
      exact relied

theorem MakesPrefix.keeps (makes : draft.MakesPrefix nsPrefix after) : draft.Keeps after := by
  rcases makes.named with ⟨number, _, rfl⟩
  exact draft.keeps_modifyTop ⟨rfl, rfl, rfl, rfl⟩ rfl rfl fun _ => id

theorem MakesPrefix.scope_eq (makes : draft.MakesPrefix nsPrefix after) :
    after.scope = draft.scope := by
  rcases makes.named with ⟨number, _, rfl⟩
  rfl

/-! ## Names -/

theorem FindsPrefix.keeps {asked : Option String} (finds : draft.FindsPrefix asked uri nsPrefix after)
    (lawful : Lawful draft.scope) :
    draft.Keeps after ∧ Lawful after.scope ∧ after.scope.uri? nsPrefix = some uri := by
  cases finds with
  | found _ stands => exact ⟨.refl draft, lawful, Scope.uri?_of_prefixOf? stands⟩
  | kept _ _ stands => exact ⟨.refl draft, lawful, Scope.uri?_of_prefixOf? stands⟩
  | made middle _ _ _ makes allowed binds =>
      have lawfulToo : Lawful middle.scope := makes.scope_eq ▸ lawful
      exact ⟨makes.keeps.trans (binds.keeps allowed lawfulToo), binds.lawful allowed lawfulToo,
        binds.uri?⟩
  | bound _ _ _ allowed binds =>
      exact ⟨binds.keeps allowed lawful, binds.lawful allowed lawful, binds.uri?⟩

theorem QualifiesText.keeps (finds : draft.QualifiesText uri nsPrefix after)
    (lawful : Lawful draft.scope) :
    draft.Keeps after ∧ Lawful after.scope ∧ after.scope.uri? nsPrefix = some uri := by
  cases finds with
  | found stands => exact ⟨.refl draft, lawful, Scope.uri?_of_prefixOf? stands⟩
  | made middle _ _ _ makes allowed binds =>
      have lawfulToo : Lawful middle.scope := makes.scope_eq ▸ lawful
      exact ⟨makes.keeps.trans (binds.keeps allowed lawfulToo), binds.lawful allowed lawfulToo,
        binds.uri?⟩

theorem NamesAttribute.keeps {request : NameRequest} {written : Option String}
    {kind : Option SpecialKind} (names : draft.NamesAttribute request written kind after)
    (lawful : Lawful draft.scope) : draft.Keeps after ∧ Lawful after.scope := by
  cases names with
  | namespaced _ _ _ _ _ _ _ _ _ _ finds =>
      have kept := finds.keeps lawful
      exact ⟨kept.1, kept.2.1⟩
  | _ => exact ⟨.refl _, lawful⟩

theorem NamesElement.lawful {request : NameRequest} {written : Option String}
    (names : draft.NamesElement request written after) (lawful : Lawful draft.scope) :
    Lawful after.scope := by
  cases names with
  | withoutNamespaces | bare | bound | found => exact lawful
  | default _ _ _ _ _ binds =>
      rcases binds with ⟨_, _, _, rfl⟩
      exact lawful
  | binding _ _ _ _ _ _ allowed binds => exact binds.lawful allowed lawful

theorem Applies.keeps {special : SpecialAttribute} (applies : draft.Applies special after)
    (lawful : Lawful draft.scope) : draft.Keeps after ∧ Lawful after.scope := by
  cases applies with
  | language | space =>
      exact ⟨draft.keeps_modifyTop ⟨rfl, rfl, rfl, rfl⟩ rfl rfl fun _ => id, lawful⟩
  | outside => exact ⟨.refl draft, lawful⟩
  | prefixed _ _ _ _ allowed binds =>
      exact ⟨binds.keeps allowed lawful, binds.lawful allowed lawful⟩
  | default _ _ _ binds =>
      refine ⟨binds.keeps, ?_⟩
      rcases binds with ⟨_, _, _, rfl⟩
      exact lawful

theorem keeps_notePrefix (draft : Draft) (nsPrefix : String) :
    draft.Keeps (draft.notePrefix nsPrefix) :=
  draft.keeps_modifyTop ⟨rfl, rfl, rfl, rfl⟩ rfl rfl fun _ => List.mem_cons_of_mem _

theorem keeps_noteAttribute (draft : Draft) (written : Option String) :
    draft.Keeps (draft.noteAttribute written) := by
  cases written with
  | none => exact .refl draft
  | some nsPrefix =>
      simp only [noteAttribute]
      split
      · exact draft.keeps_notePrefix nsPrefix
      · exact .refl draft

/-! ## What is pledged -/

theorem pledges_notePrefix (inside : 0 < draft.depth) (means : draft.means? (some nsPrefix) = some uri) :
    (draft.notePrefix nsPrefix).Pledges (some nsPrefix) uri where
  relied := by
    refine .inr (.inr ?_)
    simp [prefixInUse, Draft.notePrefix, inside]
  means := by
    have same : (draft.notePrefix nsPrefix).means? = draft.means? := by
      simp [means?, Draft.notePrefix, Draft.modifyTop, Draft.top]
    rw [same]
    exact means

theorem pledges_noteAttribute (inside : 0 < draft.depth)
    (means : draft.means? (some nsPrefix) = some uri) :
    (draft.noteAttribute (some nsPrefix)).Pledges (some nsPrefix) uri := by
  simp only [noteAttribute]
  split
  · exact pledges_notePrefix inside means
  · rename_i unnoted
    refine ⟨?_, means⟩
    by_cases isXml : nsPrefix = "xml"
    · exact .inl isXml
    · by_cases isXmlns : nsPrefix = "xmlns"
      · exact .inr (.inl isXmlns)
      · exact absurd ⟨inside, isXml, isXmlns⟩ unnoted

theorem pledges_element {localName : String} (inside : 0 < draft.depth)
    (means : draft.means? (some nsPrefix) = some uri) :
    (draft.modifyTop fun element =>
      { element with name := localName, nsPrefix := some nsPrefix }).Pledges (some nsPrefix) uri where
  relied := by
    refine .inr (.inr ?_)
    simp [prefixInUse, inside]
  means := by
    simp only [means?, top_modifyTop]
    exact means

theorem pledges_default {localName : String} {written : Option String} {declared : Bool}
    (binds : draft.BindsDefault uri declared after) :
    (after.modifyTop fun element =>
      { element with name := localName, nsPrefix := written }).Pledges none uri := by
  rcases binds with ⟨_, _, _, rfl⟩
  refine ⟨?_, ?_⟩
  · simp only [Relied, settled, setDefault, top_modifyTop]
    split <;> simp
  · simp only [means?, setDefault, top_modifyTop, Scope.meaning]

end XmlStream.Draft
