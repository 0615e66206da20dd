import XmlStream.Proofs.Draft.Sound

namespace XmlStream.Draft

/-! How the scope of a draft goes with its open elements: it begins with the binding of
`xml`, and every element remembers how many bindings were there before it. -/

/-- The marks of the open elements do not exceed the scope, nor each other outwards. -/
def Marked (scope : Scope) (opened : List OpenElement) : Prop :=
  (scope.length :: opened.map (·.bindingMark)).Pairwise (· ≥ ·)

structure Layered (draft : Draft) : Prop where
  first : draft.scope.take 1 = [xmlBinding]
  marked : Marked draft.scope draft.elements.opened
  positive : ∀ element ∈ draft.elements.opened, 0 < element.bindingMark
  outside : draft.elements.outside.defaultUri = ""
  start : draft.phase = .start → draft.elements = {} ∧ draft.scope = [xmlBinding]

theorem Layered.length_pos {draft : Draft} (layered : draft.Layered) : 0 < draft.scope.length := by
  have first := layered.first
  cases found : draft.scope with
  | nil => simp [found] at first
  | cons binding rest => simp

theorem Frames.map_opened {α : Type} {before after : Draft} (frames : before.Frames after)
    (view : OpenElement → α)
    (same : ∀ {older newer}, SameElement older newer → view newer = view older) :
    after.elements.opened.map view = before.elements.opened.map view := by
  have tail := frames.tail
  have depth := frames.depth
  have top := same frames.top
  simp only [Draft.depth, Draft.top, ElementStack.depth, ElementStack.top] at depth top
  cases older : before.elements.opened with
  | nil =>
      rw [older] at depth
      rw [List.length_eq_zero_iff.mp depth]
  | cons innermost rest =>
      cases newer : after.elements.opened with
      | nil => simp [older, newer] at depth
      | cons _ _ => simp_all

theorem Frames.marks {before after : Draft} (frames : before.Frames after) :
    after.elements.opened.map (·.bindingMark) = before.elements.opened.map (·.bindingMark) :=
  frames.map_opened _ SameElement.bindingMark

theorem Layered.keep {before after : Draft} (layered : before.Layered)
    (marks : after.elements.opened.map (·.bindingMark) =
      before.elements.opened.map (·.bindingMark))
    (outside : after.elements.outside.defaultUri = before.elements.outside.defaultUri)
    (scope : before.scope.length ≤ after.scope.length)
    (first : before.scope.take 1 = [xmlBinding] → after.scope.take 1 = [xmlBinding])
    (started : after.phase ≠ .start) : after.Layered where
  first := first layered.first
  marked := by
    have marked := layered.marked
    rw [Marked, List.pairwise_cons] at marked ⊢
    rw [marks]
    exact ⟨fun mark member => Nat.le_trans (marked.1 mark member) scope, marked.2⟩
  positive := by
    have positive : ∀ mark ∈ before.elements.opened.map (·.bindingMark), 0 < mark := by
      simpa using layered.positive
    rw [← marks] at positive
    simpa using positive
  outside := outside.trans layered.outside
  start start := absurd start started

theorem Layered.frames {before after : Draft} (layered : before.Layered)
    (frames : before.Frames after) (started : after.phase ≠ .start) : after.Layered :=
  layered.keep frames.marks frames.outsideUri frames.scope frames.first started

theorem next?_ne_start {mode : Mode} {token : Token} {phase next : Phase}
    (leads : mode.next? token phase = some next) : next ≠ .start := by
  have all : (mode.next? token phase).all (· ≠ .start) = true := by
    cases mode <;> cases token <;> cases phase <;> rfl
  rw [leads] at all
  exact of_decide_eq_true all

theorem Layered.modifyTop {draft : Draft} (layered : draft.Layered)
    {change : OpenElement → OpenElement}
    (mark : (change draft.top).bindingMark = draft.top.bindingMark)
    (uri : (change draft.top).defaultUri = draft.top.defaultUri)
    (started : draft.phase ≠ .start) : (draft.modifyTop change).Layered := by
  refine layered.keep ?_ (ElementStack.outside_defaultUri_modifyTop _ uri) (Nat.le_refl _) id
    started
  simp only [Draft.top, ElementStack.top] at mark
  cases found : draft.elements.opened <;>
    simp_all [Draft.modifyTop, ElementStack.modifyTop]

theorem Layered.congr {before after : Draft} (layered : before.Layered)
    (scope : after.scope = before.scope) (elements : after.elements = before.elements)
    (start : after.phase = .start → before.phase = .start) : after.Layered where
  first := by rw [scope]; exact layered.first
  marked := by rw [scope, elements]; exact layered.marked
  positive := by rw [elements]; exact layered.positive
  outside := by rw [elements]; exact layered.outside
  start isStart := by rw [elements, scope]; exact layered.start (start isStart)

theorem Layered.push {draft : Draft} (layered : draft.Layered) (next : Phase)
    (started : next ≠ .start) : (draft.push.enter next).Layered where
  first := layered.first
  marked := by
    have marked := layered.marked
    rw [Marked, List.pairwise_cons] at marked
    simp only [Marked, Draft.push, enter_elements, enter_scope, ElementStack.push,
      List.map_cons, List.pairwise_cons, List.mem_cons, forall_eq_or_imp]
    exact ⟨⟨Nat.le_refl _, marked.1⟩, marked.1, marked.2⟩
  positive := by
    simp only [Draft.push, enter_elements, ElementStack.push, List.mem_cons, forall_eq_or_imp]
    exact ⟨layered.length_pos, layered.positive⟩
  outside := layered.outside
  start isStart := absurd isStart started

theorem Layered.pop {draft : Draft} (layered : draft.Layered) (inside : 0 < draft.depth)
    (next : Phase) (started : next ≠ .start) : (draft.pop.enter next).Layered := by
  have marked := layered.marked
  have positive := layered.positive
  cases found : draft.elements.opened with
  | nil => simp [depth, ElementStack.depth, found] at inside
  | cons innermost rest =>
      have mark : draft.top.bindingMark = innermost.bindingMark := by
        simp [top, ElementStack.top, found]
      simp only [Marked, found, List.map_cons, List.pairwise_cons, List.mem_cons,
        forall_eq_or_imp] at marked positive
      obtain ⟨⟨fits, _⟩, ordered, rest_⟩ := marked
      refine ⟨?_, ?_, ?_, layered.outside, fun isStart => absurd isStart started⟩
      · simp only [Draft.pop, enter_scope, mark, List.take_take]
        rw [Nat.min_eq_left positive.1]
        exact layered.first
      · simp only [Marked, Draft.pop, enter_elements, enter_scope, ElementStack.pop, found,
          List.tail_cons, List.pairwise_cons, mark, List.length_take]
        refine ⟨fun other member => ?_, rest_⟩
        rw [Nat.min_eq_left fits]
        exact ordered other member
      · simpa [Draft.pop, ElementStack.pop, found] using positive.2

theorem length_foldl_declare (owed : List (Binding × Nat)) (scope : Scope) :
    (owed.foldl (fun scope entry => scope.declare entry.2) scope).length = scope.length := by
  induction owed generalizing scope with
  | nil => rfl
  | cons entry rest induction =>
      rw [List.foldl_cons, induction]
      simp [Scope.declare]

theorem take_one_foldl_declare {scope : Scope} (owed : List (Binding × Nat))
    (first : scope.take 1 = [xmlBinding]) :
    (owed.foldl (fun scope entry => scope.declare entry.2) scope).take 1 = [xmlBinding] := by
  induction owed generalizing scope with
  | nil => exact first
  | cons entry rest induction => exact induction (take_one_declare first entry.2)

theorem frames_settle (draft : Draft) : draft.Frames draft.settle := by
  have top : SameElement draft.top draft.settle.top ∧
      draft.settle.elements.opened.tail = draft.elements.opened.tail ∧
      (0 < draft.depth → draft.settle.elements.outside = draft.elements.outside) ∧
      draft.settle.elements.outside.defaultUri = draft.elements.outside.defaultUri := by
    simp only [settle, Draft.top]
    split
    · have kept : draft.Frames (draft.modifyTop fun element =>
          { element with defaultNamespace := .written }) :=
        draft.frames_modifyTop ⟨rfl, rfl, rfl, rfl⟩ (.inr rfl)
      exact ⟨kept.top, kept.tail, kept.outside, kept.outsideUri⟩
    · exact ⟨⟨rfl, rfl, rfl, rfl⟩, rfl, fun _ => rfl, rfl⟩
  exact ⟨rfl, rfl, rfl, rfl, rfl, rfl, draft.depth_settle, top.1, top.2.1, top.2.2.1, top.2.2.2,
    Nat.le_of_eq (length_foldl_declare _ _).symm, take_one_foldl_declare _⟩

theorem Layered.enterText {draft : Draft} (layered : draft.Layered) {next : Phase}
    (started : next ≠ .start) : (draft.enterText next).Layered := by
  have entered : (draft.enter next).Layered :=
    layered.congr rfl rfl fun start => absurd start started
  unfold Draft.enterText
  split
  · have marked : (draft.enter next).markMixed.Layered := entered.modifyTop rfl rfl started
    exact marked
  · exact entered

theorem phaseAfterElement_between (draft : Draft) :
    draft.phaseAfterElement ≠ .element ∧ draft.phaseAfterElement ≠ .attribute := by
  unfold phaseAfterElement
  split <;> simp

theorem phaseAfterElement_ne_start (draft : Draft) : draft.phaseAfterElement ≠ .start := by
  unfold phaseAfterElement
  split <;> simp

theorem Layered.step {before after : Draft} {event : Event} {text : String}
    (layered : before.Layered) (step : before.Step event text after) : after.Layered := by
  cases step with
  | xmlDeclaration => exact layered.congr rfl rfl (by simp)
  | doctype _ _ _ _ _ _ _ _ leads =>
      exact layered.congr rfl rfl fun start => absurd start (next?_ne_start leads)
  | line => exact layered
  | comment _ _ _ _ _ leads =>
      exact layered.congr rfl rfl fun start => absurd start (next?_ne_start leads)
  | instruction _ _ _ _ _ _ _ leads =>
      exact layered.congr rfl rfl fun start => absurd start (next?_ne_start leads)
  | cdata _ next _ _ leads =>
      have started := next?_ne_start leads
      have entered : (before.enter next).Layered :=
        layered.congr rfl rfl fun start => absurd start started
      have mixed : (before.enter next).markMixed.Layered := entered.modifyTop rfl rfl started
      exact mixed
  | startElement request nsPrefix found between named notXmlns disabled leads noPayload names =>
      have pushed : (before.push.enter .element).Layered := layered.push .element (by simp)
      have frames := names.frames (before.depth_push_pos .element)
      have phase : found.phase = .element := frames.phase
      have started : found.phase ≠ .start := by simp [phase]
      exact (pushed.frames frames started).modifyTop rfl rfl started
  | startAttribute request nsPrefix kind next found notInside named disabled leads names =>
      have started := next?_ne_start leads
      have entered : (before.enter next).Layered :=
        layered.congr rfl rfl fun start => absurd start started
      have frames := names.frames.trans (found.frames_noteAttribute nsPrefix)
      have phase : (found.noteAttribute nsPrefix).phase = next := frames.phase
      have framed := entered.frames frames (by rwa [phase])
      exact framed.congr rfl rfl id
  | endAttribute next found leads noPayload applies =>
      have started := next?_ne_start leads
      have plain : ({ before with special := none }.enter next : Draft).Layered :=
        layered.congr rfl rfl fun start => absurd start started
      split at applies
      · have frames := applies.frames
        exact plain.keep frames.marks frames.outsideUri frames.scope frames.first started
      · subst applies
        exact layered.congr rfl rfl fun start => absurd start started
  | endStartTag inTag =>
      have settled := before.frames_settle
      exact layered.keep settled.marks settled.outsideUri settled.scope settled.first (by simp)
  -- What is owed is settled first, and then the element goes with its layer.
  | endEmptyTag inTag inside =>
      have started := before.phaseAfterElement_ne_start
      have settled := layered.frames before.frames_settle (by
        have phase : before.settle.phase = before.phase := rfl
        simp [phase, inTag])
      exact settled.pop (by rwa [depth_settle]) _ started
  | endTag inContent inside =>
      exact layered.pop inside _ before.phaseAfterElement_ne_start
  | write piece next closed leads =>
      have entered := layered.enterText (next?_ne_start leads)
      exact entered.congr rfl rfl id
  | qualify uri nsPrefix next found closed enabled nonEmpty notDefault leads finds =>
      have started := next?_ne_start leads
      have entered := layered.enterText started
      have frames := finds.frames_noted next
      have framed := entered.frames frames (by
        rw [frames.phase, enterText_phase]
        exact started)
      exact framed.congr rfl rfl id
  | feed chunk next closed leads =>
      have entered := layered.enterText (next?_ne_start leads)
      exact entered.congr rfl rfl id
  | endPayload pending => exact layered.congr rfl rfl id
  | configure => exact layered.congr rfl rfl id
  | finish between outside complete noPayload =>
      have only : (before.scope.take 1) = [xmlBinding] := layered.first
      refine ⟨?_, ?_, by simp [reset], rfl, fun _ => ⟨rfl, only⟩⟩
      · simp [reset, only]
      · simp [reset, Marked]

theorem Layered.path {before after : Draft} {events : List Event} {text : String}
    (layered : before.Layered) (path : before.Path events text after) : after.Layered := by
  induction path with
  | nil => exact layered
  | cons step _ induction => exact induction (layered.step step)

end XmlStream.Draft
