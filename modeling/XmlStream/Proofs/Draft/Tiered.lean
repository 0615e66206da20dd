import XmlStream.Proofs.Bindings.Tiers
import XmlStream.Proofs.Draft.Layered

namespace XmlStream.Draft

/-! The bindings of a draft in tiers: every open element binds a prefix once, and outside of
a start tag all bindings are declared. -/

def marks (draft : Draft) : List Nat := draft.elements.opened.map (·.bindingMark)

structure Tiered (draft : Draft) : Prop where
  tiers : draft.scope.Tiered draft.marks
  declared : draft.phase ≠ .element → draft.phase ≠ .attribute →
    ∀ binding ∈ draft.scope, binding.declared = true
  outside : draft.elements.outside.defaultNamespace = .unset

theorem marks_eq_cons {draft : Draft} (inside : 0 < draft.depth) :
    ∃ outer, draft.marks = draft.top.bindingMark :: outer := by
  unfold marks top ElementStack.top
  cases found : draft.elements.opened with
  | nil => simp [depth, ElementStack.depth, found] at inside
  | cons innermost rest => exact ⟨rest.map (·.bindingMark), rfl⟩

variable {draft after : Draft} {nsPrefix uri : String}

/-! ## Naming and binding -/

theorem position?_filter_of_unused (inside : 0 < draft.depth)
    (unused : draft.prefixInUse nsPrefix = false) :
    (draft.scope.position? nsPrefix).filter (draft.top.bindingMark ≤ ·) = none := by
  rw [prefixInUse, decide_eq_true inside, Bool.true_and] at unused
  simp only [Bool.or_eq_false_iff] at unused
  exact Option.not_isSome_iff_eq_none.mp (Bool.eq_false_iff.mp unused.1.1)

theorem BindsPrefix.tiers {declared : Bool} (inside : 0 < draft.depth)
    (binds : draft.BindsPrefix nsPrefix uri declared after)
    (tiers : draft.scope.Tiered draft.marks) : after.scope.Tiered after.marks := by
  cases binds with
  | known position latest same =>
      cases declared with
      | false => exact tiers
      | true => exact tiers.declare position
  | fresh different unused =>
      rcases marks_eq_cons inside with ⟨outer, marks⟩
      have free := position?_filter_of_unused inside unused
      change (draft.scope ++ [_]).Tiered draft.marks
      rw [marks] at tiers ⊢
      exact tiers.concat free

theorem MakesPrefix.tiers (makes : draft.MakesPrefix nsPrefix after)
    (tiers : draft.scope.Tiered draft.marks) : after.scope.Tiered after.marks := by
  have kept := makes.frames.marks
  rcases makes.named with ⟨number, _, rfl⟩
  change draft.scope.Tiered (marks _)
  rwa [show marks _ = draft.marks from kept]

theorem BindsDefault.tiers {declared : Bool} (inside : 0 < draft.depth)
    (binds : draft.BindsDefault uri declared after)
    (tiers : draft.scope.Tiered draft.marks) : after.scope.Tiered after.marks := by
  have kept := (binds.frames inside).marks
  have scope : after.scope = draft.scope := by
    rw [binds.result]
    rfl
  rwa [scope, show after.marks = draft.marks from kept]

theorem NamesElement.tiers {request : NameRequest} {written : Option String}
    (inside : 0 < draft.depth) (names : draft.NamesElement request written after)
    (tiers : draft.scope.Tiered draft.marks) : after.scope.Tiered after.marks := by
  cases names with
  | withoutNamespaces | bare | bound | found => exact tiers
  | default _ _ _ _ _ binds => exact binds.tiers inside tiers
  | binding _ _ _ _ _ _ _ binds => exact binds.tiers inside tiers

theorem FindsPrefix.tiers {asked : Option String} (inside : 0 < draft.depth)
    (finds : draft.FindsPrefix asked uri nsPrefix after)
    (tiers : draft.scope.Tiered draft.marks) : after.scope.Tiered after.marks := by
  cases finds with
  | found | kept => exact tiers
  | made _ _ _ _ makes _ binds =>
      exact binds.tiers (by rwa [makes.frames.depth]) (makes.tiers tiers)
  | bound _ _ _ _ binds => exact binds.tiers inside tiers

theorem QualifiesText.tiers (inside : draft.phase = .attribute → 0 < draft.depth)
    (qualifies : draft.QualifiesText uri nsPrefix after)
    (tiers : draft.scope.Tiered draft.marks) : after.scope.Tiered after.marks := by
  cases qualifies with
  | found => exact tiers
  | made middle _ inValue _ makes _ binds =>
      exact binds.tiers (by rw [makes.frames.depth]; exact inside inValue) (makes.tiers tiers)

theorem NamesAttribute.tiers {request : NameRequest} {written : Option String}
    {kind : Option SpecialKind} (names : draft.NamesAttribute request written kind after)
    (tiers : draft.scope.Tiered draft.marks) : after.scope.Tiered after.marks := by
  cases names with
  | namespaced _ _ _ _ _ _ _ _ _ inside finds => exact finds.tiers inside tiers
  | _ => exact tiers

theorem Applies.tiers {special : SpecialAttribute} (applies : draft.Applies special after)
    (tiers : draft.scope.Tiered draft.marks) : after.scope.Tiered after.marks := by
  have kept := applies.frames.marks
  cases applies with
  | language | space =>
      change draft.scope.Tiered (marks _)
      rwa [show marks _ = draft.marks from kept]
  | outside => exact tiers
  | prefixed _ _ _ inside _ binds => exact binds.tiers inside tiers
  | default _ _ inside binds => exact binds.tiers inside tiers

/-! ## Outside of all elements -/

theorem outside_view_modifyTop {α : Type} (elements : ElementStack)
    {change : OpenElement → OpenElement} (view : OpenElement → α)
    (kept : view (change elements.top) = view elements.top) :
    view (elements.modifyTop change).outside = view elements.outside := by
  unfold ElementStack.modifyTop
  cases found : elements.opened with
  | nil => simpa [ElementStack.top, found] using kept
  | cons innermost rest => rfl

theorem Applies.outside_defaultNamespace {special : SpecialAttribute}
    (applies : draft.Applies special after) :
    after.elements.outside.defaultNamespace = draft.elements.outside.defaultNamespace := by
  have frames := applies.frames
  cases applies with
  | language | space => exact outside_view_modifyTop _ (·.defaultNamespace) rfl
  | outside => rfl
  | prefixed _ _ _ inside => rw [frames.outside inside]
  | default _ _ inside => rw [frames.outside inside]

theorem Applies.scope_eq {special : SpecialAttribute} (applies : draft.Applies special after)
    (outside : draft.depth = 0) : after.scope = draft.scope := by
  cases applies with
  | language | space | outside => rfl
  | prefixed _ _ _ inside => omega
  | default _ _ inside => omega

theorem NamesAttribute.elements_outside {request : NameRequest} {written : Option String}
    {kind : Option SpecialKind} (names : draft.NamesAttribute request written kind after) :
    after.elements.outside = draft.elements.outside := by
  have frames := names.frames
  cases names with
  | namespaced _ _ _ _ _ _ _ _ _ inside => exact frames.outside inside
  | _ => rfl

@[simp] theorem noteAttribute_scope (draft : Draft) (nsPrefix : Option String) :
    (draft.noteAttribute nsPrefix).scope = draft.scope := by
  cases nsPrefix with
  | none => rfl
  | some nsPrefix =>
      simp only [noteAttribute]
      split <;> rfl

theorem NamesAttribute.scope_eq {request : NameRequest} {written : Option String}
    {kind : Option SpecialKind} (names : draft.NamesAttribute request written kind after)
    (outside : draft.depth = 0) : after.scope = draft.scope := by
  cases names with
  | namespaced _ _ _ _ _ _ _ _ _ inside => omega
  | _ => rfl

theorem QualifiesText.eq_of_outside {uri nsPrefix : String}
    (finds : draft.QualifiesText uri nsPrefix after) (outside : draft.phase ≠ .attribute) :
    after = draft := by
  cases finds with
  | found => rfl
  | made _ _ inside => exact absurd inside outside

theorem elements_outside_noteAttribute (draft : Draft) (nsPrefix : Option String) :
    (draft.noteAttribute nsPrefix).elements.outside = draft.elements.outside := by
  cases nsPrefix with
  | none => rfl
  | some nsPrefix =>
      simp only [noteAttribute]
      split
      · rename_i noted
        exact (draft.frames_notePrefix nsPrefix).outside noted.1
      · rfl

/-! ## Steps -/

theorem Tiered.keep {before after : Draft} (tiered : before.Tiered)
    (scope : after.scope = before.scope) (marks : after.marks = before.marks)
    (outside : after.elements.outside.defaultNamespace =
      before.elements.outside.defaultNamespace)
    (phase : after.phase ≠ .element → after.phase ≠ .attribute →
      before.phase ≠ .element ∧ before.phase ≠ .attribute) : after.Tiered where
  tiers := by
    rw [scope, marks]
    exact tiered.tiers
  declared notElement notAttribute := by
    rw [scope]
    exact tiered.declared (phase notElement notAttribute).1 (phase notElement notAttribute).2
  outside := outside.trans tiered.outside

theorem marks_modifyTop (draft : Draft) {change : OpenElement → OpenElement}
    (mark : (change draft.top).bindingMark = draft.top.bindingMark) :
    (draft.modifyTop change).marks = draft.marks := by
  simp only [Draft.top, ElementStack.top] at mark
  cases found : draft.elements.opened <;>
    simp_all [marks, Draft.modifyTop, ElementStack.modifyTop]

theorem marks_enterText (draft : Draft) (next : Phase) :
    (draft.enterText next).marks = draft.marks := by
  unfold enterText
  split
  · exact draft.marks_modifyTop rfl
  · rfl

theorem outside_enterText (draft : Draft) (next : Phase) :
    (draft.enterText next).elements.outside.defaultNamespace =
      draft.elements.outside.defaultNamespace := by
  unfold enterText
  split
  · exact outside_view_modifyTop _ (·.defaultNamespace) rfl
  · rfl

theorem marks_eq_nil {draft : Draft} (outside : draft.depth = 0) : draft.marks = [] := by
  rw [marks, List.length_eq_zero_iff.mp outside, List.map_nil]

theorem Tiered.scope_eq {draft : Draft} (tiered : draft.Tiered) (outside : draft.depth = 0) :
    draft.scope = [xmlBinding] := by
  have tiers := tiered.tiers
  rwa [marks_eq_nil outside] at tiers

theorem Tiered.pop {draft : Draft} (tiers : draft.scope.Tiered draft.marks)
    (outside : draft.elements.outside.defaultNamespace = .unset) (inside : 0 < draft.depth)
    (next : Phase) : (draft.pop.enter next).Tiered := by
  rcases marks_eq_cons inside with ⟨outer, marks⟩
  have rest : draft.pop.marks = outer := by
    have tails := congrArg List.tail marks
    rwa [List.tail_cons, Draft.marks, ← List.map_tail] at tails
  rw [marks] at tiers
  exact
    { tiers := by
        have left : draft.pop.scope.Tiered draft.pop.marks := by
          rw [rest]
          exact tiers.2.2.2
        exact left
      declared := fun _ _ => tiers.2.2.1
      outside := outside }

theorem tiers_settle {draft : Draft} (tiers : draft.scope.Tiered draft.marks) :
    draft.settle.scope.Tiered draft.settle.marks := by
  have kept : draft.settle.marks = draft.marks := draft.frames_settle.marks
  rw [kept]
  exact tiers.foldl_declare _

theorem next?_doctype {mode : Mode} {phase next : Phase}
    (leads : mode.next? .doctype phase = some next) : phase = .start ∨ phase = .prolog := by
  have all : (mode.next? .doctype phase).all (fun _ => phase = .start ∨ phase = .prolog) = true := by
    cases mode <;> cases phase <;> rfl
  rw [leads] at all
  exact of_decide_eq_true all

theorem outside_of_doctype {mode : Mode} {phase next : Phase}
    (leads : mode.next? .doctype phase = some next) : phase ≠ .element ∧ phase ≠ .attribute := by
  rcases next?_doctype leads with start | prolog
  · simp [start]
  · simp [prolog]

theorem notInside_of_moves {mode : Mode} {phase next : Phase} (moves : Moves mode phase next)
    (notElement : next ≠ .element) (notAttribute : next ≠ .attribute) :
    phase ≠ .element ∧ phase ≠ .attribute := by
  rcases moves with rfl | ⟨rfl | rfl, _⟩
  · exact ⟨notElement, notAttribute⟩
  · simp
  · simp

theorem Tiered.notePrefix {draft : Draft} (tiered : draft.Tiered) (nsPrefix : String) :
    (draft.notePrefix nsPrefix).Tiered :=
  tiered.keep rfl (draft.marks_modifyTop rfl) (outside_view_modifyTop _ (·.defaultNamespace) rfl)
    fun first second => ⟨first, second⟩

theorem QualifiesText.tiered (next : Phase)
    (inside : draft.phase = .attribute → 0 < draft.depth)
    (qualifies : draft.QualifiesText uri nsPrefix after) (tiered : draft.Tiered) :
    (if next = .attribute then after.notePrefix nsPrefix else after).Tiered := by
  have frames := qualifies.frames
  have found : after.Tiered := by
    refine ⟨qualifies.tiers inside tiered.tiers, ?_, ?_⟩
    · rw [frames.phase]
      intro notElement notAttribute
      cases qualifies with
      | found => exact tiered.declared notElement notAttribute
      | made _ _ inValue => exact absurd inValue notAttribute
    · cases qualifies with
      | found => exact tiered.outside
      | made _ _ inValue =>
          rw [frames.outside (inside inValue)]
          exact tiered.outside
  split
  · exact found.notePrefix nsPrefix
  · exact found

theorem Tiered.step {before after : Draft} {event : Event} {text : String}
    (tiered : before.Tiered) (placed : before.Placed) (step : before.Step event text after) :
    after.Tiered := by
  cases step with
  | xmlDeclaration encoding standalone start =>
      exact tiered.keep rfl rfl rfl fun _ _ => by simp [start]
  | doctype name publicId systemId subset ids next usable identified leads =>
      exact tiered.keep rfl rfl rfl fun _ _ => outside_of_doctype leads
  | line => exact tiered
  | comment content next between noDashes noDash leads =>
      exact tiered.keep rfl rfl rfl fun _ _ => ⟨between.1, between.2.1⟩
  | instruction target content next between noEnd notXml usable leads =>
      exact tiered.keep rfl rfl rfl fun _ _ => ⟨between.1, between.2.1⟩
  | cdata content next between noEnd leads =>
      exact tiered.keep rfl (before.marks_modifyTop rfl)
        (outside_view_modifyTop _ (·.defaultNamespace) rfl) fun _ _ => ⟨between.1, between.2.1⟩
  | startElement request nsPrefix found between named notXmlns disabled leads noPayload names =>
      have inside := before.depth_push_pos .element
      have frames := names.frames inside
      have pushed : (before.push.enter .element).scope.Tiered (before.push.enter .element).marks :=
        tiered.tiers.push (tiered.declared between.1 between.2.1)
      have phase : found.phase = .element := frames.phase
      refine ⟨?_, fun notElement => absurd phase notElement, ?_⟩
      · rw [found.marks_modifyTop rfl]
        exact names.tiers inside pushed
      · have depth : 0 < found.depth := by
          rw [frames.depth]
          exact inside
        have outside := ElementStack.outside_modifyTop found.elements
          (fun element => { element with name := request.localName, nsPrefix }) depth
        change (found.elements.modifyTop _).outside.defaultNamespace = _
        rw [outside, frames.outside inside]
        exact tiered.outside
  | startAttribute request nsPrefix kind next found notInside named disabled leads names =>
      have frames := names.frames.trans (found.frames_noteAttribute nsPrefix)
      refine ⟨?_, fun notElement notAttribute => ?_, ?_⟩
      · have marks : (found.noteAttribute nsPrefix).marks = found.marks :=
          (found.frames_noteAttribute nsPrefix).marks
        have noted : (found.noteAttribute nsPrefix).scope.Tiered (found.noteAttribute nsPrefix).marks := by
          rw [noteAttribute_scope, marks]
          exact names.tiers tiered.tiers
        exact noted
      · have phase : (found.noteAttribute nsPrefix).phase = next := frames.phase
        rcases next?_startAttribute notInside leads with ⟨_, rfl⟩ | ⟨_, start, rfl⟩
        · exact absurd phase notAttribute
        -- An attribute that belongs to no element binds nothing.
        · have outside : before.depth = 0 := placed.outside (.inl start)
          have same : found.scope = before.scope := names.scope_eq outside
          change ∀ binding ∈ (found.noteAttribute nsPrefix).scope, _
          rw [noteAttribute_scope, same]
          exact tiered.declared (by simp [start]) (by simp [start])
      · change (found.noteAttribute nsPrefix).elements.outside.defaultNamespace = _
        rw [elements_outside_noteAttribute, names.elements_outside]
        exact tiered.outside
  | endAttribute next found leads noPayload applies =>
      have ends : found.scope.Tiered found.marks ∧
          found.elements.outside.defaultNamespace = .unset ∧
          (before.depth = 0 → found.scope = before.scope) := by
        split at applies
        · exact ⟨applies.tiers tiered.tiers,
            applies.outside_defaultNamespace.trans tiered.outside, applies.scope_eq⟩
        · subst applies
          exact ⟨tiered.tiers, tiered.outside, fun _ => rfl⟩
      refine ⟨ends.1, fun notElement _ => ?_, ends.2.1⟩
      rcases next?_endAttribute leads with ⟨_, rfl⟩ | ⟨_, onTop, rfl⟩
      · exact absurd rfl notElement
      · have outside : before.depth = 0 := placed.outside (by simp [onTop])
        rw [enter_scope, ends.2.2 outside]
        exact tiered.declared (by simp [onTop]) (by simp [onTop])
  -- What the tag owed is written by now, so all of the scope is declared.
  | endStartTag inTag =>
      rcases marks_eq_cons (placed.inside (.inl inTag)) with ⟨outer, marks⟩
      have tiers := tiered.tiers
      refine ⟨tiers_settle tiers, fun _ _ => ?_, ?_⟩
      · rw [marks] at tiers
        exact fun binding => Scope.declared_of_settled tiers
      · have outside := before.frames_settle.outside (placed.inside (.inl inTag))
        change before.settle.elements.outside.defaultNamespace = _
        rw [outside]
        exact tiered.outside
  | endEmptyTag inTag inside =>
      have outside := before.frames_settle.outside inside
      refine Tiered.pop (tiers_settle tiered.tiers) ?_ (by rwa [depth_settle]) _
      rw [outside]
      exact tiered.outside
  | endTag inContent inside noPayload =>
      exact Tiered.pop tiered.tiers tiered.outside inside _
  | write piece next closed leads =>
      refine tiered.keep (before.enterText_scope next) (before.marks_enterText next)
        (before.outside_enterText next) fun notElement notAttribute => ?_
      have phase : (before.enterText next).phase = next := before.enterText_phase next
      exact notInside_of_moves (moves_of_text (by cases piece <;> simp [Piece.token]) closed leads)
        (phase ▸ notElement) (phase ▸ notAttribute)
  | qualify uri nsPrefix next found closed enabled nonEmpty notDefault leads finds =>
      have moves := moves_of_text (.inl rfl) closed leads
      have entered : (before.enterText next).Tiered :=
        tiered.keep (before.enterText_scope next) (before.marks_enterText next)
          (before.outside_enterText next) fun notElement notAttribute => by
            rw [enterText_phase] at notElement notAttribute
            exact notInside_of_moves moves notElement notAttribute
      have inside : (before.enterText next).phase = .attribute → 0 < (before.enterText next).depth := by
        intro inValue
        rw [enterText_phase] at inValue
        rw [enterText_depth]
        apply placed.inside
        rcases moves with same | ⟨_, other⟩
        · exact .inr (same ▸ inValue)
        · simp [inValue] at other
      have noted := finds.tiered next inside entered
      exact noted.keep rfl rfl rfl fun first second => ⟨first, second⟩
  | feed chunk next closed leads =>
      refine tiered.keep (before.enterText_scope next) (before.marks_enterText next)
        (before.outside_enterText next) fun notElement notAttribute => ?_
      have phase : (before.enterText next).phase = next := before.enterText_phase next
      exact notInside_of_moves (moves_of_text (by simp) closed leads)
        (phase ▸ notElement) (phase ▸ notAttribute)
  | endPayload pending => exact tiered.keep rfl rfl rfl fun first second => ⟨first, second⟩
  | configure => exact tiered.keep rfl rfl rfl fun first second => ⟨first, second⟩
  | finish between outside complete noPayload =>
      have only : before.reset.scope = [xmlBinding] := by
        change before.scope.take 1 = _
        rw [tiered.scope_eq outside]
        rfl
      refine ⟨only, fun _ _ => ?_, rfl⟩
      rw [only]
      simp [xmlBinding]

theorem Tiered.path {before after : Draft} {events : List Event} {text : String}
    (tiered : before.Tiered) (placed : before.Placed) (path : before.Path events text after) :
    after.Tiered := by
  induction path with
  | nil => exact tiered
  | cons step _ induction => exact induction (tiered.step placed step) (placed.step step)

end XmlStream.Draft
