import XmlStream.Proofs.Draft.Basic

namespace XmlStream

/-! What naming and binding leave alone: everything but the scope, and what is known of
the default namespace, the language, the space and the prefixes of the innermost
element. -/

namespace ElementStack

@[simp] theorem depth_modifyTop (elements : ElementStack) (change : OpenElement → OpenElement) :
    (elements.modifyTop change).depth = elements.depth := by
  unfold modifyTop depth
  cases elements.opened <;> simp

@[simp] theorem top_modifyTop (elements : ElementStack) (change : OpenElement → OpenElement) :
    (elements.modifyTop change).top = change elements.top := by
  unfold modifyTop top
  cases elements.opened <;> simp

@[simp] theorem tail_opened_modifyTop (elements : ElementStack)
    (change : OpenElement → OpenElement) :
    (elements.modifyTop change).opened.tail = elements.opened.tail := by
  unfold modifyTop
  cases found : elements.opened <;> simp

theorem outside_modifyTop (elements : ElementStack) (change : OpenElement → OpenElement)
    (inside : 0 < elements.depth) : (elements.modifyTop change).outside = elements.outside := by
  unfold modifyTop
  cases found : elements.opened with
  | nil => simp [depth, found] at inside
  | cons innermost rest => rfl

theorem outside_defaultUri_modifyTop (elements : ElementStack)
    {change : OpenElement → OpenElement}
    (kept : (change elements.top).defaultUri = elements.top.defaultUri) :
    (elements.modifyTop change).outside.defaultUri = elements.outside.defaultUri := by
  unfold modifyTop
  cases found : elements.opened with
  | nil => simpa [top, found] using kept
  | cons innermost rest => rfl

theorem modifyTop_eq_self {elements : ElementStack} {change : OpenElement → OpenElement}
    (same : change elements.top = elements.top) : elements.modifyTop change = elements := by
  obtain ⟨opened, outside⟩ := elements
  cases opened with
  | nil => simpa [modifyTop, top] using same
  | cons innermost rest => simpa [modifyTop, top] using same

theorem modifyTop_modifyTop (elements : ElementStack) (first second : OpenElement → OpenElement) :
    (elements.modifyTop first).modifyTop second = elements.modifyTop (second ∘ first) := by
  cases found : elements.opened <;> simp [modifyTop, found]

end ElementStack

namespace Draft

@[simp] theorem top_modifyTop (draft : Draft) (change : OpenElement → OpenElement) :
    (draft.modifyTop change).top = change draft.top :=
  ElementStack.top_modifyTop _ _

@[simp] theorem depth_modifyTop (draft : Draft) (change : OpenElement → OpenElement) :
    (draft.modifyTop change).depth = draft.depth :=
  ElementStack.depth_modifyTop _ _

def xmlBinding : Binding := { nsPrefix := "xml", uri := Namespace.xml, declared := true }

theorem take_one_declare {scope : Scope} (first : scope.take 1 = [xmlBinding]) (position : Nat) :
    (scope.declare position).take 1 = [xmlBinding] := by
  cases scope with
  | nil => simp at first
  | cons binding rest =>
      cases position <;> simp_all [Scope.declare, xmlBinding]

/-- A binding that comes from an older one, by noting its declaration at most. -/
structure Descends (older newer : Binding) : Prop where
  nsPrefix : newer.nsPrefix = older.nsPrefix
  uri : newer.uri = older.uri
  declared : newer.declared = false → older.declared = false

theorem Descends.refl (binding : Binding) : Descends binding binding := ⟨rfl, rfl, id⟩

theorem Descends.trans {first second third : Binding} (earlier : Descends first second)
    (later : Descends second third) : Descends first third where
  nsPrefix := later.nsPrefix.trans earlier.nsPrefix
  uri := later.uri.trans earlier.uri
  declared := earlier.declared ∘ later.declared

theorem descends_of_mem_declare {scope : Scope} {position : Nat} {binding : Binding}
    (member : binding ∈ scope.declare position) : ∃ older ∈ scope, Descends older binding := by
  obtain ⟨index, found⟩ := List.mem_iff_getElem?.mp member
  rw [Scope.declare, List.getElem?_modify] at found
  obtain ⟨older, stands, rfl⟩ := Option.map_eq_some_iff.mp found
  refine ⟨older, List.mem_of_getElem? stands, ?_⟩
  split
  · exact ⟨rfl, rfl, by simp⟩
  · exact .refl older

/-- What is known of an element, apart from what its attributes say. -/
structure SameElement (before after : OpenElement) : Prop where
  name : after.name = before.name
  nsPrefix : after.nsPrefix = before.nsPrefix
  bindingMark : after.bindingMark = before.bindingMark
  mixed : after.mixed = before.mixed

structure Frames (before after : Draft) : Prop where
  settings : after.settings = before.settings
  phase : after.phase = before.phase
  mode : after.mode = before.mode
  special : after.special = before.special
  carry : after.carry = before.carry
  unflushed : after.unflushed = before.unflushed
  depth : after.depth = before.depth
  top : SameElement before.top after.top
  tail : after.elements.opened.tail = before.elements.opened.tail
  outside : 0 < before.depth → after.elements.outside = before.elements.outside
  outsideUri : after.elements.outside.defaultUri = before.elements.outside.defaultUri
  scope : before.scope.length ≤ after.scope.length
  first : before.scope.take 1 = [xmlBinding] → after.scope.take 1 = [xmlBinding]

theorem Frames.payload {before after : Draft} (frames : before.Frames after) :
    after.payload = before.payload := by
  rw [Draft.payload, Draft.payload, frames.carry, frames.unflushed]

theorem Frames.refl (draft : Draft) : draft.Frames draft :=
  ⟨rfl, rfl, rfl, rfl, rfl, rfl, rfl, ⟨rfl, rfl, rfl, rfl⟩, rfl, fun _ => rfl, rfl,
    Nat.le_refl _, id⟩

theorem Frames.trans {first second third : Draft} (earlier : first.Frames second)
    (later : second.Frames third) : first.Frames third where
  settings := later.settings.trans earlier.settings
  phase := later.phase.trans earlier.phase
  mode := later.mode.trans earlier.mode
  special := later.special.trans earlier.special
  carry := later.carry.trans earlier.carry
  unflushed := later.unflushed.trans earlier.unflushed
  depth := later.depth.trans earlier.depth
  top :=
    { name := later.top.name.trans earlier.top.name
      nsPrefix := later.top.nsPrefix.trans earlier.top.nsPrefix
      bindingMark := later.top.bindingMark.trans earlier.top.bindingMark
      mixed := later.top.mixed.trans earlier.top.mixed }
  tail := later.tail.trans earlier.tail
  outside inside :=
    (later.outside (by rw [earlier.depth]; exact inside)).trans (earlier.outside inside)
  outsideUri := later.outsideUri.trans earlier.outsideUri
  scope := Nat.le_trans earlier.scope later.scope
  first := later.first ∘ earlier.first

theorem frames_modifyTop (draft : Draft) {change : OpenElement → OpenElement}
    (same : SameElement draft.top (change draft.top))
    (default : 0 < draft.depth ∨ (change draft.top).defaultUri = draft.top.defaultUri) :
    draft.Frames (draft.modifyTop change) where
  settings := rfl
  phase := rfl
  mode := rfl
  special := rfl
  carry := rfl
  unflushed := rfl
  depth := draft.depth_modifyTop change
  top := by rwa [top_modifyTop]
  tail := ElementStack.tail_opened_modifyTop _ _
  outside := ElementStack.outside_modifyTop _ _
  outsideUri := by
    obtain inside | kept := default
    · exact congrArg _ (ElementStack.outside_modifyTop _ _ inside)
    · exact ElementStack.outside_defaultUri_modifyTop _ kept
  scope := Nat.le_refl _
  first := id

variable {draft after : Draft} {nsPrefix uri : String}

theorem BindsPrefix.frames {declared : Bool}
    (binds : draft.BindsPrefix nsPrefix uri declared after) : draft.Frames after := by
  cases binds with
  | known position latest same =>
      have kept := Frames.refl draft
      refine { kept with scope := ?_, first := ?_ }
      · cases declared <;> simp [Scope.declare]
      · intro first
        cases declared
        · exact first
        · exact take_one_declare first position
  | fresh different unused =>
      have kept := Frames.refl draft
      refine { kept with scope := by simp, first := ?_ }
      intro first
      cases found : draft.scope with
      | nil => simp [found] at first
      | cons binding rest => simpa [found] using first

theorem BindsPrefix.mem {declared : Bool} {binding : Binding}
    (binds : draft.BindsPrefix nsPrefix uri declared after) (member : binding ∈ after.scope) :
    (∃ older ∈ draft.scope, Descends older binding) ∨
      binding = ⟨nsPrefix, uri, declared, none⟩ := by
  cases binds with
  | known position latest same =>
      left
      cases declared with
      | false => exact ⟨binding, member, .refl binding⟩
      | true => exact descends_of_mem_declare member
  | fresh different unused =>
      obtain member | member := List.mem_append.mp member
      · exact .inl ⟨binding, member, .refl binding⟩
      · exact .inr (List.mem_singleton.mp member)

theorem BindsDefault.frames {declared : Bool} (inside : 0 < draft.depth)
    (binds : draft.BindsDefault uri declared after) : draft.Frames after := by
  rw [binds.result]
  exact draft.frames_modifyTop ⟨rfl, rfl, rfl, rfl⟩ (.inl inside)

theorem MakesPrefix.frames (makes : draft.MakesPrefix nsPrefix after) : draft.Frames after := by
  obtain ⟨number, _, rfl⟩ := makes.named
  exact draft.frames_modifyTop ⟨rfl, rfl, rfl, rfl⟩ (.inr rfl)

theorem frames_notePrefix (draft : Draft) (nsPrefix : String) :
    draft.Frames (draft.notePrefix nsPrefix) :=
  draft.frames_modifyTop ⟨rfl, rfl, rfl, rfl⟩ (.inr rfl)

theorem frames_noteAttribute (draft : Draft) (nsPrefix : Option String) :
    draft.Frames (draft.noteAttribute nsPrefix) := by
  cases nsPrefix with
  | none => exact .refl draft
  | some nsPrefix =>
      simp only [noteAttribute]
      split
      · exact draft.frames_notePrefix nsPrefix
      · exact .refl draft

theorem NamesElement.frames {request : NameRequest} {written : Option String}
    (inside : 0 < draft.depth) (names : draft.NamesElement request written after) : draft.Frames after := by
  cases names with
  | withoutNamespaces | bare | bound | found => exact .refl draft
  | default _ _ _ _ _ binds => exact binds.frames inside
  | binding _ _ _ _ _ _ _ binds => exact binds.frames

theorem FindsPrefix.frames {asked : Option String}
    (finds : draft.FindsPrefix asked uri nsPrefix after) : draft.Frames after := by
  cases finds with
  | found | kept => exact .refl draft
  | made _ _ _ _ makes _ binds => exact makes.frames.trans binds.frames
  | bound _ _ _ _ binds => exact binds.frames

theorem QualifiesText.frames (qualifies : draft.QualifiesText uri nsPrefix after) :
    draft.Frames after := by
  cases qualifies with
  | found => exact .refl draft
  | made _ _ _ _ makes _ binds => exact makes.frames.trans binds.frames

theorem QualifiesText.frames_noted (qualifies : draft.QualifiesText uri nsPrefix after)
    (next : Phase) :
    draft.Frames (if next = .attribute then after.notePrefix nsPrefix else after) := by
  split
  · exact qualifies.frames.trans (after.frames_notePrefix nsPrefix)
  · exact qualifies.frames

theorem NamesAttribute.frames {request : NameRequest} {written : Option String}
    {kind : Option SpecialKind} (names : draft.NamesAttribute request written kind after) :
    draft.Frames after := by
  cases names with
  | namespaced _ _ _ _ _ _ _ _ _ _ finds => exact finds.frames
  | _ => exact .refl _

theorem Applies.frames {special : SpecialAttribute} (applies : draft.Applies special after) :
    draft.Frames after := by
  cases applies with
  | language => exact draft.frames_modifyTop ⟨rfl, rfl, rfl, rfl⟩ (.inr rfl)
  | space => exact draft.frames_modifyTop ⟨rfl, rfl, rfl, rfl⟩ (.inr rfl)
  | outside => exact .refl draft
  | prefixed _ _ _ _ _ binds => exact binds.frames
  | default _ _ inside binds => exact binds.frames inside

end Draft

end XmlStream
