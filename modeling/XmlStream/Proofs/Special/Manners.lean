import XmlStream.Proofs.Draft.Sound

namespace XmlStream

/-! What the elements of a draft say about the language and the white space in them, and which steps
change it: those that begin and end elements, and the ends of special attributes. -/

def OpenElement.manner (element : OpenElement) : Option String × SpaceHandling :=
  (element.language, element.space)

namespace ElementStack

variable {elements other : ElementStack} {change : OpenElement → OpenElement}

def manners (elements : ElementStack) : List (Option String × SpaceHandling) :=
  elements.outwards.map OpenElement.manner

theorem manners_eq (elements : ElementStack) :
    elements.manners = elements.opened.map OpenElement.manner ++ [elements.outside.manner] := by
  simp [manners, outwards]

theorem language_eq (elements : ElementStack) :
    elements.language = elements.manners.findSome? (·.1) := by
  rw [language, manners, List.findSome?_map]
  rfl

theorem space_eq (elements : ElementStack) : elements.space =
    ((elements.manners.map (·.2)).find? (· ≠ .unspecified)).getD .unspecified := by
  rw [space, manners, List.map_map]
  rfl

theorem opened_of_manners (same : elements.manners = other.manners) :
    elements.opened.map OpenElement.manner = other.opened.map OpenElement.manner := by
  rw [manners_eq, manners_eq] at same
  exact (List.append_inj' same rfl).1

theorem outside_of_manners (same : elements.manners = other.manners) :
    elements.outside.manner = other.outside.manner := by
  rw [manners_eq, manners_eq] at same
  exact List.singleton_inj.mp (List.append_inj' same rfl).2

theorem manners_modifyTop (elements : ElementStack)
    (kept : (change elements.top).manner = elements.top.manner) :
    (elements.modifyTop change).manners = elements.manners := by
  rw [manners_eq, manners_eq, modifyTop]
  cases found : elements.opened with
  | nil => simpa [top, found] using kept
  | cons innermost rest => simpa [top, found] using kept

theorem top_of_manners (same : elements.manners = other.manners) :
    elements.top.manner = other.top.manner := by
  have heads := congrArg List.head? same
  have head? (elements : ElementStack) : elements.manners.head? = some elements.top.manner := by
    rw [manners_eq, top]
    cases elements.opened <;> rfl
  rw [head?, head?] at heads
  exact Option.some.inj heads

end ElementStack

namespace Draft

variable {draft middle after : Draft} {nsPrefix uri text : String} {event : Event}

theorem BindsPrefix.elements_eq {declared : Bool}
    (binds : draft.BindsPrefix nsPrefix uri declared after) : after.elements = draft.elements := by
  cases binds with
  | known | fresh => rfl

theorem MakesPrefix.manners (makes : draft.MakesPrefix nsPrefix after) :
    after.elements.manners = draft.elements.manners := by
  rcases makes.named with ⟨number, _, rfl⟩
  exact ElementStack.manners_modifyTop _ rfl

theorem BindsDefault.manners {declared : Bool} (binds : draft.BindsDefault uri declared after) :
    after.elements.manners = draft.elements.manners := by
  rw [binds.result]
  exact ElementStack.manners_modifyTop _ rfl

theorem manners_made (makes : draft.MakesPrefix nsPrefix middle) {declared : Bool}
    (binds : middle.BindsPrefix nsPrefix uri declared after) :
    after.elements.manners = draft.elements.manners := by
  rw [binds.elements_eq, makes.manners]

theorem NamesElement.manners {request : NameRequest} {written : Option String}
    (names : draft.NamesElement request written after) :
    after.elements.manners = draft.elements.manners := by
  cases names with
  | withoutNamespaces | bare | bound | found => rfl
  | default _ _ _ _ _ binds => exact binds.manners
  | binding _ _ _ _ _ _ _ binds => rw [binds.elements_eq]

theorem NamesAttribute.manners {request : NameRequest} {written : Option String}
    {kind : Option SpecialKind} (names : draft.NamesAttribute request written kind after) :
    after.elements.manners = draft.elements.manners := by
  cases names with
  | namespaced uri nsPrefix _ _ _ _ _ _ _ _ finds =>
      cases finds with
      | found | kept => rfl
      | made _ _ _ _ makes _ binds => exact manners_made makes binds
      | bound _ _ _ _ binds => rw [binds.elements_eq]
  | _ => rfl

theorem manners_noteAttribute (draft : Draft) (nsPrefix : Option String) :
    (draft.noteAttribute nsPrefix).elements.manners = draft.elements.manners := by
  cases nsPrefix with
  | none => rfl
  | some nsPrefix =>
      simp only [noteAttribute]
      split
      · exact ElementStack.manners_modifyTop _ rfl
      · rfl

theorem QualifiesText.manners (finds : draft.QualifiesText uri nsPrefix after) (next : Phase) :
    (if next = .attribute then after.notePrefix nsPrefix else after).elements.manners =
      draft.elements.manners := by
  have found : after.elements.manners = draft.elements.manners := by
    cases finds with
    | found => rfl
    | made _ _ _ _ makes _ binds => exact manners_made makes binds
  split
  · exact (ElementStack.manners_modifyTop _ rfl).trans found
  · exact found

theorem manners_markMixed (draft : Draft) : draft.markMixed.elements.manners = draft.elements.manners :=
  ElementStack.manners_modifyTop _ rfl

theorem manners_enterText (draft : Draft) (next : Phase) :
    (draft.enterText next).elements.manners = draft.elements.manners := by
  unfold enterText
  split
  · exact draft.manners_markMixed
  · rfl

theorem manners_settle (draft : Draft) : draft.settle.elements.manners = draft.elements.manners := by
  simp only [settle]
  split
  · exact ElementStack.manners_modifyTop _ rfl
  · rfl

theorem Applies.manners_of_declaration {special : SpecialAttribute} {declared : Option String}
    (declares : special.kind = .declaration declared) (applies : draft.Applies special after) :
    after.elements.manners = draft.elements.manners := by
  cases applies with
  | language | space => cases declares
  | outside => rfl
  | prefixed _ _ _ _ _ binds => rw [binds.elements_eq]
  | default _ _ _ binds => exact binds.manners

/-! ## Outside of elements -/

theorem special_capture (none : draft.special = none) (text : String) :
    (draft.capture text).special = .none := by
  simp [capture, none]

theorem outside_step (noSpecial : draft.special = none)
    (notStarted : ∀ asked relied, event ≠ .startAttribute asked relied) (notFinish : event ≠ .finish)
    (step : draft.Step event text after) :
    after.special = none ∧ after.elements.outside.manner = draft.elements.outside.manner := by
  cases step with
  | startAttribute => exact absurd rfl (notStarted _ _)
  | finish => exact absurd rfl notFinish
  | startElement request nsPrefix found between named notXmlns disabled leads noPayload names =>
      have frames := names.frames (draft.depth_push_pos .element)
      refine ⟨frames.special.trans noSpecial, ?_⟩
      have named : (found.modifyTop fun element =>
          { element with name := request.localName, nsPrefix }).elements.manners = found.elements.manners :=
        ElementStack.manners_modifyTop _ rfl
      exact (ElementStack.outside_of_manners (named.trans names.manners)).trans rfl
  | endAttribute next found leads noPayload applies =>
      rw [noSpecial] at applies
      subst applies
      exact ⟨noSpecial, rfl⟩
  | cdata => exact ⟨noSpecial, ElementStack.outside_of_manners draft.manners_markMixed⟩
  | endStartTag => exact ⟨noSpecial, ElementStack.outside_of_manners draft.manners_settle⟩
  | endEmptyTag => exact ⟨noSpecial, (ElementStack.outside_of_manners draft.manners_settle).trans rfl⟩
  | write piece next =>
      have entered : (draft.enterText next).special = none := by rwa [enterText_special]
      exact ⟨special_capture entered _, ElementStack.outside_of_manners (draft.manners_enterText next)⟩
  | feed chunk next =>
      have entered : (draft.enterText next).special = none := by rwa [enterText_special]
      exact ⟨special_capture entered _, ElementStack.outside_of_manners (draft.manners_enterText next)⟩
  | qualify uri nsPrefix next found closed enabled nonEmpty notDefault leads finds =>
      have frames := finds.frames_noted next
      have kept := frames.special.trans ((draft.enterText_special next).trans noSpecial)
      refine ⟨special_capture kept _, ElementStack.outside_of_manners ?_⟩
      exact (finds.manners next).trans (draft.manners_enterText next)
  | endPayload => exact ⟨special_capture noSpecial _, rfl⟩
  | _ => exact ⟨noSpecial, rfl⟩

theorem outside_path {events : List Event} (noSpecial : draft.special = none)
    (notStarted : ∀ asked relied, .startAttribute asked relied ∉ events) (notFinish : .finish ∉ events)
    (path : draft.Path events text after) :
    after.special = none ∧ after.elements.outside.manner = draft.elements.outside.manner := by
  induction path with
  | nil => exact ⟨noSpecial, rfl⟩
  | cons step rest induction =>
      simp only [List.mem_cons, not_or, forall_and] at notStarted notFinish
      rcases outside_step noSpecial (fun asked relied => Ne.symm (notStarted.1 asked relied))
        (Ne.symm notFinish.1) step with ⟨stillNone, same⟩
      rcases induction stillNone notStarted.2 notFinish.2 with ⟨noneLast, sameToo⟩
      exact ⟨noneLast, sameToo.trans same⟩

end Draft

end XmlStream
