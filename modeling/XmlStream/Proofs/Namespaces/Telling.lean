import XmlStream.Proofs.Draft.Tiered
import XmlStream.Proofs.Namespaces.Meaning

namespace XmlStream.Draft

/-! Naming and binding keep what a start tag tells. What is bound without being declared is owed, and
what is declared is told by the attribute that declares it. -/

open Reading

variable {draft after : Draft} {tag : StartTag} {around : List StartTag} {nsPrefix uri : String}
  {name : List Char} {parts : List Part}

theorem Frames.layers_tail (frames : draft.Frames after) : after.layers.tail = draft.layers.tail := by
  rw [layers, layers, ← List.map_tail, ← List.map_tail, frames.tail]

theorem Tells.modifyTop (tells : draft.Tells tag around) {change : OpenElement → OpenElement}
    (mark : (change draft.top).bindingMark = draft.top.bindingMark)
    (uri : (change draft.top).defaultUri = draft.top.defaultUri)
    (origin : (change draft.top).defaultNamespace = draft.top.defaultNamespace) :
    (draft.modifyTop change).Tells tag around := by
  have opened : (draft.modifyTop change).elements.opened.tail = draft.elements.opened.tail :=
    ElementStack.tail_opened_modifyTop _ _
  have layers : (draft.modifyTop change).layers.tail = draft.layers.tail := by
    rw [Draft.layers, Draft.layers, ← List.map_tail, ← List.map_tail, opened]
  have parent : (draft.modifyTop change).elements.parent = draft.elements.parent := by
    rw [ElementStack.parent, ElementStack.parent, opened,
      show (draft.modifyTop change).elements.outside = draft.elements.outside from
        ElementStack.outside_modifyTop _ _ tells.inside]
  rw [← draft.top_modifyTop change] at mark uri origin
  constructor
  · rw [depth_modifyTop]
    exact tells.inside
  · rw [mark]
    exact tells.fits
  · rw [mark, layers]
    exact tells.outer
  · rw [mark]
    exact tells.changes
  · rw [mark]
    exact tells.noted
  · simp only [Declared, mark]
    exact tells.repeats
  · rw [uri, origin]
    exact tells.written
  · rw [origin]
    exact tells.settles
  · rw [settled, uri, origin, parent]
    exact tells.inherits

theorem Tells.addOther (tells : draft.Tells tag around)
    (other : ∀ nsPrefix, name ≠ declarationName nsPrefix) :
    draft.Tells (tag.add name parts) around := by
  refine { tells with noted := ?_, repeats := ?_, written := ?_, settles := ?_ }
  · intro nsPrefix binding index latest within declared
    rw [declares?_add_of_ne (other _)]
    exact tells.noted nsPrefix binding index latest within declared
  · intro entry member nsPrefix named
    rcases mem_add.mp member with member | rfl
    · exact tells.repeats entry member nsPrefix named
    · exact absurd named (other _)
  · rw [declares?_add_of_ne (other _)]
    exact tells.written
  · intro entry member named
    rcases mem_add.mp member with member | rfl
    · exact tells.settles entry member named
    · exact absurd named (other _)

/-! ## Binding prefixes -/

theorem not_declared_of_unused (inside : 0 < draft.depth)
    (unused : draft.prefixInUse nsPrefix = false) : ¬draft.Declared nsPrefix := by
  rintro ⟨binding, index, latest, within, _⟩
  have free := position?_filter_of_unused inside unused
  rw [Scope.position?, latest, Option.map_some, Option.filter_some, if_pos (by simpa using within)]
    at free
  cases free

/-- What is bound anew in a start tag changes what a prefix stands for around it. -/
theorem Tells.changes_bound {declared : Bool} (tells : draft.Tells tag around)
    (different : draft.scope.uri? nsPrefix ≠ some uri) (unused : draft.prefixInUse nsPrefix = false) :
    Scope.ChangesFrom (draft.scope ++ [⟨nsPrefix, uri, declared, none⟩]) draft.top.bindingMark := by
  refine tells.changes.concat tells.fits ?_
  rw [Scope.uri?_take_of_free (position?_filter_of_unused tells.inside unused)]
  exact different

theorem Tells.outer_bound {binding : Binding} (tells : draft.Tells tag around) :
    Agree ((draft.scope ++ [binding]).take draft.top.bindingMark) draft.layers.tail around := by
  rw [List.take_append_of_le_length tells.fits]
  exact tells.outer

theorem latest?_bound (scope : Scope) (declared : Bool) (other : String) :
    Scope.latest? (scope ++ [⟨nsPrefix, uri, declared, none⟩]) other =
      if nsPrefix = other then some (⟨nsPrefix, uri, declared, none⟩, scope.length)
      else scope.latest? other :=
  Scope.latest?_concat _ _ _

theorem declared_of_fresh {declared : Bool} {other : String} (different : nsPrefix ≠ other) :
    ({ draft with scope := draft.scope ++ [⟨nsPrefix, uri, declared, none⟩] } : Draft).Declared other ↔
      draft.Declared other := by
  simp only [Declared, latest?_bound, if_neg different]
  rfl

theorem Tells.bindsPrefix (tells : draft.Tells tag around)
    (binds : draft.BindsPrefix nsPrefix uri false after) : after.Tells tag around := by
  cases binds with
  | known => exact tells
  | fresh different unused =>
      have notDeclared := not_declared_of_unused tells.inside unused
      refine { tells with
        fits := ?_, outer := tells.outer_bound, changes := tells.changes_bound different unused,
        noted := ?_, repeats := ?_ }
      · exact Nat.le_trans tells.fits (by simp)
      · intro other binding index latest within declared
        rw [latest?_bound] at latest
        split at latest
        · cases latest
          cases declared
        · exact tells.noted other binding index latest within declared
      · intro entry member other named
        rcases tells.repeats entry member other named with isDeclared | same
        · have differs : nsPrefix ≠ other := by
            rintro rfl
            exact notDeclared isDeclared
          exact .inl ((declared_of_fresh differs).mpr isDeclared)
        · exact .inr same

theorem Tells.bindsDefault (tells : draft.Tells tag around)
    (binds : draft.BindsDefault uri false after) : after.Tells tag around := by
  have frames := binds.frames tells.inside
  rcases binds with ⟨_, _, agrees, rfl⟩
  have top : (draft.setDefault uri false).top.defaultNamespace =
      if draft.top.defaultNamespace = .written then .written else .owed := by
    simp [setDefault]
  have uriThere : (draft.setDefault uri false).top.defaultUri = uri := by simp [setDefault]
  have mark := frames.top.bindingMark
  constructor
  · rw [frames.depth]
    exact tells.inside
  · rw [mark]
    exact tells.fits
  · rw [mark, frames.layers_tail]
    exact tells.outer
  · rw [mark]
    exact tells.changes
  · rw [mark]
    exact tells.noted
  · simp only [Declared, mark]
    exact tells.repeats
  · rw [top, uriThere]
    intro isWritten
    have written : draft.top.defaultNamespace = .written := by
      by_contra other
      rw [if_neg other] at isWritten
      cases isWritten
    rw [tells.written written, agrees (.inr written)]
  · intro entry member named
    rw [top, if_pos (tells.settles entry member named)]
  · intro notSettled
    refine absurd ?_ notSettled
    rw [settled, top]
    split <;> simp

theorem declared_declare {other : String} (isDeclared : draft.Declared other) (position : Nat) :
    ({ draft with scope := draft.scope.declare position } : Draft).Declared other := by
  rcases isDeclared with ⟨binding, index, there, within, declared⟩
  refine ⟨_, index, by rw [Scope.latest?_declare, there]; rfl, within, ?_⟩
  dsimp only
  split
  · rfl
  · exact declared

theorem Tells.settles_add (tells : draft.Tells tag around) :
    ∀ entry ∈ (tag.add (declarationName (some nsPrefix)) parts).attributes,
      entry.1 = declarationName none → draft.top.defaultNamespace = .written := by
  intro entry member named
  rcases mem_add.mp member with member | rfl
  · exact tells.settles entry member named
  · exact absurd named (declarationName_ne nsPrefix)

theorem Tells.declaresKnown {newest : Binding} {here : Nat} (tells : draft.Tells tag around)
    (found : draft.scope.latest? nsPrefix = some (newest, here)) (same : newest.uri = valueText parts) :
    ({ draft with scope := draft.scope.declare here } : Draft).Tells
      (tag.add (declarationName (some nsPrefix)) parts) around := by
  refine { tells with
    fits := ?_, outer := ?_, changes := tells.changes.declare here, noted := ?_, repeats := ?_,
    written := ?_, settles := tells.settles_add }
  · exact Nat.le_trans tells.fits (by simp [Scope.declare])
  · change Agree (List.take draft.top.bindingMark (draft.scope.declare here)) _ _
    rw [Scope.take_declare]
    exact tells.outer.declare here
  · intro other binding index latestThere within declared
    rw [Scope.latest?_declare] at latestThere
    rcases Option.map_eq_some_iff.mp latestThere with ⟨⟨older, place⟩, there, moved⟩
    cases moved
    by_cases different : nsPrefix = other
    · subst different
      rw [found] at there
      cases there
      rw [declares?_add_self, if_pos rfl, same]
    · have elsewhere : here ≠ place := by
        rintro rfl
        have first := Scope.latest?_eq_some found
        have second := Scope.latest?_eq_some there
        rw [first.1] at second
        exact different (first.2.symm.trans (Option.some.inj second.1 ▸ second.2))
      rw [if_neg elsewhere] at declared ⊢
      rw [declares?_add_other (by simpa using different)]
      exact tells.noted other older place there within declared
  · intro entry member other named
    rcases mem_add.mp member with member | rfl
    · exact (tells.repeats entry member other named).imp_left fun isDeclared =>
        declared_declare isDeclared here
    · have itIs : nsPrefix = other := Option.some.inj (declarationName_injective named)
      subst itIs
      -- A declaration of what is bound further out repeats what is declared there.
      by_cases within : draft.top.bindingMark ≤ here
      · refine .inl ⟨{ newest with declared := true }, here, ?_, within, rfl⟩
        simp only [if_true, Scope.latest?_declare, found, Option.map_some]
      · right
        rw [tells.outer.means, Scope.meaning, Scope.uri?,
          Scope.latest?_take found (Nat.lt_of_not_le within), Option.map_some, Option.some_or, same]
  · rw [declares?_add_other (by simp)]
    exact tells.written

theorem Tells.declaresFresh (tells : draft.Tells tag around)
    (different : draft.scope.uri? nsPrefix ≠ some (valueText parts))
    (unused : draft.prefixInUse nsPrefix = false) :
    ({ draft with scope := draft.scope ++ [⟨nsPrefix, valueText parts, true, none⟩] } : Draft).Tells
      (tag.add (declarationName (some nsPrefix)) parts) around := by
  refine { tells with
    fits := ?_, outer := tells.outer_bound, changes := tells.changes_bound different unused,
    noted := ?_, repeats := ?_, written := ?_, settles := tells.settles_add }
  · exact Nat.le_trans tells.fits (by simp)
  · intro other binding index latest within declared
    rw [latest?_bound] at latest
    split at latest
    · rename_i same
      subst same
      cases latest
      exact declares?_add_self
    · rename_i different
      rw [declares?_add_other (by simpa using different)]
      exact tells.noted other binding index latest within declared
  · intro entry member other named
    by_cases same : nsPrefix = other
    · subst same
      refine .inl ⟨⟨nsPrefix, valueText parts, true, none⟩, draft.scope.length, ?_, tells.fits, rfl⟩
      rw [latest?_bound, if_pos rfl]
    · rcases mem_add.mp member with member | rfl
      · exact (tells.repeats entry member other named).imp_left (declared_of_fresh same).mpr
      · exact absurd (Option.some.inj (declarationName_injective named)) same
  · rw [declares?_add_other (by simp)]
    exact tells.written

theorem Tells.declaresPrefix (tells : draft.Tells tag around)
    (binds : draft.BindsPrefix nsPrefix uri true after) (value : valueText parts = uri) :
    after.Tells (tag.add (declarationName (some nsPrefix)) parts) around := by
  subst value
  cases binds with
  | known index latest same =>
      rcases Option.map_eq_some_iff.mp latest with ⟨⟨newest, here⟩, found, rfl⟩
      rw [Scope.uri?, found, Option.map_some] at same
      exact tells.declaresKnown found (Option.some.inj same)
  | fresh different unused => exact tells.declaresFresh different unused

theorem Tells.declaresDefault (tells : draft.Tells tag around)
    (binds : draft.BindsDefault uri true after) (value : valueText parts = uri) :
    after.Tells (tag.add (declarationName none) parts) around := by
  have frames := binds.frames tells.inside
  rcases binds with ⟨_, _, agrees, rfl⟩
  subst value
  have top : (draft.setDefault (valueText parts) true).top.defaultNamespace = .written := by
    simp [setDefault]
  have uriThere : (draft.setDefault (valueText parts) true).top.defaultUri = valueText parts := by
    simp [setDefault]
  have mark := frames.top.bindingMark
  constructor
  · rw [frames.depth]
    exact tells.inside
  · rw [mark]
    exact tells.fits
  · rw [mark, frames.layers_tail]
    exact tells.outer
  · rw [mark]
    exact tells.changes
  · intro other binding index latest within declared
    rw [mark] at within
    rw [declares?_add_other (by simp)]
    exact tells.noted other binding index latest within declared
  · intro entry member other named
    simp only [Declared, mark]
    rcases mem_add.mp member with member | rfl
    · exact tells.repeats entry member other named
    · exact absurd named.symm (declarationName_ne other)
  · intro _
    rw [uriThere, declares?_add_self]
  · intro _ _ _
    exact top
  · intro notSettled
    exact absurd (.inr top) notSettled

/-! ## Names -/

theorem MakesPrefix.tells (makes : draft.MakesPrefix nsPrefix after) (tells : draft.Tells tag around) :
    after.Tells tag around := by
  rcases makes.named with ⟨number, _, rfl⟩
  exact tells.modifyTop rfl rfl rfl

theorem NamesElement.tells {request : NameRequest} {written : Option String}
    (names : draft.NamesElement request written after) (tells : draft.Tells tag around) :
    after.Tells tag around := by
  cases names with
  | withoutNamespaces | bare | bound | found => exact tells
  | default _ _ _ _ _ binds => exact tells.bindsDefault binds
  | binding _ _ _ _ _ _ _ binds => exact tells.bindsPrefix binds

theorem FindsPrefix.tells {asked : Option String} (finds : draft.FindsPrefix asked uri nsPrefix after)
    (tells : draft.Tells tag around) : after.Tells tag around := by
  cases finds with
  | found | kept => exact tells
  | made _ _ _ _ makes _ binds => exact (makes.tells tells).bindsPrefix binds
  | bound _ _ _ _ binds => exact tells.bindsPrefix binds

theorem QualifiesText.tells (finds : draft.QualifiesText uri nsPrefix after)
    (tells : draft.Tells tag around) : after.Tells tag around := by
  cases finds with
  | found => exact tells
  | made _ _ _ _ makes _ binds => exact (makes.tells tells).bindsPrefix binds

theorem NamesAttribute.tells {request : NameRequest} {written : Option String}
    {kind : Option SpecialKind} (names : draft.NamesAttribute request written kind after)
    (tells : draft.Tells tag around) : after.Tells tag around := by
  cases names with
  | namespaced _ _ _ _ _ _ _ _ _ _ finds => exact finds.tells tells
  | _ => exact tells

theorem Tells.notePrefix (tells : draft.Tells tag around) (nsPrefix : String) :
    (draft.notePrefix nsPrefix).Tells tag around :=
  tells.modifyTop rfl rfl rfl

theorem Tells.noteAttribute (tells : draft.Tells tag around) (nsPrefix : Option String) :
    (draft.noteAttribute nsPrefix).Tells tag around := by
  cases nsPrefix with
  | none => exact tells
  | some nsPrefix =>
      simp only [Draft.noteAttribute]
      split
      · exact tells.notePrefix nsPrefix
      · exact tells

/-! ## Tags -/

theorem tells_push (agree : Agree draft.scope draft.layers around) (phase : Phase) :
    (draft.push.enter phase).Tells { name } around := by
  have mark : (draft.push.enter phase).top.bindingMark = draft.scope.length := rfl
  have origin : (draft.push.enter phase).top.defaultNamespace =
      if draft.elements.top.defaultNamespace = .unset then .unset else .inherited := rfl
  have unwritten : (draft.push.enter phase).top.defaultNamespace ≠ .written := by
    rw [origin]
    split <;> simp
  refine ⟨draft.depth_push_pos phase, Nat.le_refl _, ?_, ?_, ?_, ?_, ?_, ?_, fun _ => rfl⟩
  · rw [mark, enter_scope]
    change Agree (draft.scope.take draft.scope.length) draft.layers around
    rwa [List.take_length]
  · exact draft.scope.changesFrom_length
  · intro nsPrefix binding index latest within
    have inside : index < draft.scope.length := by
      have stands := (Scope.latest?_eq_some latest).1
      exact (List.getElem?_eq_some_iff.mp stands).1
    rw [mark] at within
    omega
  · simp
  · exact fun written => absurd written unwritten
  · simp

theorem Tells.agree (tells : draft.Tells tag around)
    (surroundings : draft.elements.outside.defaultUri = "") :
    Agree draft.settle.scope draft.settle.layers (tag.addAll draft.owedAttributes :: around) := by
  have frames := draft.frames_settle
  have uri : draft.settle.top.defaultUri = draft.top.defaultUri := by
    simp only [Draft.settle, Draft.top]
    split
    · rw [ElementStack.top_modifyTop]
    · rfl
  have inside : 0 < draft.settle.depth := by
    rw [frames.depth]
    exact tells.inside
  rw [layers_eq_cons inside, frames.layers_tail, frames.top.bindingMark, uri]
  refine .within (fun nsPrefix => ?_) (tells.outer.take_foldl_declare _)
  rw [tells.means surroundings, means?]
  cases nsPrefix with
  | none => rfl
  | some nsPrefix =>
      change _ = (Scope.uri? (List.foldl _ _ _) nsPrefix).or _
      rw [Scope.uri?_foldl_declare]
      rfl

theorem Agree.of_nil {scope : Scope} {tags : List StartTag} (agree : Agree scope [] tags) :
    scope = [xmlBinding] ∧ tags = [] := by
  cases agree with
  | outside => exact ⟨rfl, rfl⟩

theorem Agree.tail {scope : Scope} {mark : Nat} {uri : String} {layers : List (Nat × String)}
    {tags : List StartTag} (agree : Agree scope ((mark, uri) :: layers) tags) :
    Agree (scope.take mark) layers tags.tail := by
  cases agree with
  | within _ rest => exact rest

theorem Agree.pop {tags : List StartTag} (agree : Agree draft.scope draft.layers tags)
    (inside : 0 < draft.depth) : Agree draft.pop.scope draft.pop.layers tags.tail := by
  have layers : draft.pop.layers = draft.layers.tail := by
    rw [Draft.layers, Draft.layers, ← List.map_tail]
    rfl
  rw [layers_eq_cons inside] at agree
  rw [layers]
  exact agree.tail

end XmlStream.Draft
