import Mathlib.Data.List.Chain
import XmlStream.Proofs.Draft.Tiered

namespace XmlStream

/-! The default namespaces that are owed. An element owes the declaration of its default namespace as
long as its start tag is open, and for good only if the element around has the same one. -/

/-- An element owes no default namespace but that of the element around it. -/
def OpenElement.SettledIn (element around : OpenElement) : Prop :=
  element.defaultNamespace = .owed → element.defaultUri = around.defaultUri

namespace ElementStack

variable {elements : ElementStack} {change : OpenElement → OpenElement}

theorem outwards_eq_cons (elements : ElementStack) :
    elements.outwards = elements.top :: elements.outwards.tail := by
  unfold outwards top
  cases elements.opened <;> rfl

theorem tail_outwards_of_outside (outside : elements.depth = 0) : elements.outwards.tail = [] := by
  rw [outwards, List.length_eq_zero_iff.mp outside]
  rfl

theorem tail_outwards_of_inside (inside : 0 < elements.depth) :
    elements.outwards.tail = elements.opened.tail ++ [elements.outside] := by
  unfold outwards
  cases found : elements.opened with
  | nil => simp [depth, found] at inside
  | cons innermost rest => rfl

theorem tail_outwards_modifyTop (elements : ElementStack) (change : OpenElement → OpenElement) :
    (elements.modifyTop change).outwards.tail = elements.outwards.tail := by
  unfold outwards modifyTop
  cases elements.opened <;> rfl

theorem isChain_outwards_iff : elements.outwards.IsChain OpenElement.SettledIn ↔
    elements.outwards.tail.IsChain OpenElement.SettledIn ∧
      (0 < elements.depth → elements.top.SettledIn elements.parent) := by
  unfold outwards depth top parent
  cases elements.opened with
  | nil => simp
  | cons innermost rest =>
      cases rest with
      | nil => simp
      | cons second rest => simp [and_comm]

end ElementStack

namespace Draft

variable {draft after : Draft} {change : OpenElement → OpenElement}

/-- No element owes a default namespace for which the element around would need a declaration, unless
its start tag is open. -/
structure Paid (draft : Draft) : Prop where
  enclosing : draft.elements.outwards.tail.IsChain OpenElement.SettledIn
  complete : draft.phase ≠ .element → draft.phase ≠ .attribute →
    draft.elements.outwards.IsChain OpenElement.SettledIn

theorem paid_of_chain (chain : draft.elements.outwards.IsChain OpenElement.SettledIn) : draft.Paid :=
  ⟨chain.tail, fun _ _ => chain⟩

theorem paid_of_outside (outside : draft.depth = 0) : draft.Paid := by
  refine paid_of_chain (ElementStack.isChain_outwards_iff.mpr ⟨?_, fun inside => ?_⟩)
  · rw [ElementStack.tail_outwards_of_outside outside]
    exact .nil
  · exact absurd outside (Nat.ne_of_gt inside)

theorem paid_in_tag (chain : draft.elements.outwards.tail.IsChain OpenElement.SettledIn)
    (inTag : draft.phase = .element ∨ draft.phase = .attribute) : draft.Paid :=
  ⟨chain, fun notElement notAttribute => absurd inTag (not_or.mpr ⟨notElement, notAttribute⟩)⟩

theorem Paid.congr (paid : draft.Paid) (elements : after.elements = draft.elements)
    (phase : after.phase ≠ .element → after.phase ≠ .attribute →
      draft.phase ≠ .element ∧ draft.phase ≠ .attribute) : after.Paid where
  enclosing := by
    rw [elements]
    exact paid.enclosing
  complete notElement notAttribute := by
    rw [elements]
    exact paid.complete (phase notElement notAttribute).1 (phase notElement notAttribute).2

theorem Paid.modifyTop (paid : draft.Paid)
    (uri : (change draft.top).defaultUri = draft.top.defaultUri)
    (origin : (change draft.top).defaultNamespace = draft.top.defaultNamespace) :
    (draft.modifyTop change).Paid where
  enclosing := by
    change (draft.elements.modifyTop change).outwards.tail.IsChain _
    rw [ElementStack.tail_outwards_modifyTop]
    exact paid.enclosing
  complete notElement notAttribute := by
    have tail : (draft.elements.modifyTop change).outwards.tail = draft.elements.outwards.tail :=
      ElementStack.tail_outwards_modifyTop _ _
    have chain := paid.complete notElement notAttribute
    rw [ElementStack.outwards_eq_cons] at chain
    change (draft.elements.modifyTop change).outwards.IsChain _
    rw [ElementStack.outwards_eq_cons, tail, ElementStack.top_modifyTop]
    refine chain.imp_head fun settled => ?_
    intro owed
    exact uri.trans (settled (origin ▸ owed))

theorem Frames.tail_outwards (frames : draft.Frames after) :
    after.elements.outwards.tail = draft.elements.outwards.tail := by
  by_cases inside : 0 < draft.depth
  · have insideToo : 0 < after.depth := by rwa [frames.depth]
    rw [ElementStack.tail_outwards_of_inside inside, ElementStack.tail_outwards_of_inside insideToo,
      frames.tail, frames.outside inside]
  · have outside : draft.depth = 0 := Nat.eq_zero_of_not_pos inside
    have outsideToo : after.depth = 0 := frames.depth.trans outside
    rw [ElementStack.tail_outwards_of_outside outside,
      ElementStack.tail_outwards_of_outside outsideToo]

theorem settledIn_settle (inside : 0 < draft.depth) :
    draft.settle.elements.top.SettledIn draft.settle.elements.parent := by
  have parent : draft.settle.elements.parent = draft.elements.parent := by
    have frames := draft.frames_settle
    rw [ElementStack.parent, ElementStack.parent, frames.tail, frames.outside inside]
  intro owed
  rw [parent]
  simp only [settle] at owed ⊢
  split at owed
  · rw [ElementStack.top_modifyTop] at owed
    cases owed
  · rename_i owes
    rw [if_neg owes]
    by_contra differs
    exact owes (by simp [owesDefault, inside, Draft.top, owed, differs])

theorem Paid.settle (paid : draft.Paid) (inside : 0 < draft.depth) :
    draft.settle.elements.outwards.IsChain OpenElement.SettledIn := by
  refine ElementStack.isChain_outwards_iff.mpr ⟨?_, fun _ => settledIn_settle inside⟩
  rw [draft.frames_settle.tail_outwards]
  exact paid.enclosing

theorem paid_pop (chain : draft.elements.outwards.IsChain OpenElement.SettledIn)
    (inside : 0 < draft.depth) (next : Phase) : (draft.pop.enter next).Paid := by
  refine paid_of_chain ?_
  have left : draft.elements.pop.outwards = draft.elements.outwards.tail := by
    rw [ElementStack.tail_outwards_of_inside inside]
    rfl
  change draft.elements.pop.outwards.IsChain _
  rw [left]
  exact chain.tail

theorem Paid.enterText (paid : draft.Paid) {next : Phase} (moves : Moves draft.mode draft.phase next) :
    (draft.enterText next).Paid := by
  have entered : (draft.enter next).Paid := paid.congr rfl (notInside_of_moves moves)
  unfold Draft.enterText
  split
  · have marked : (draft.enter next).markMixed.Paid := entered.modifyTop rfl rfl
    exact marked
  · exact entered

theorem Paid.step {event : Event} {text : String} (paid : draft.Paid) (placed : draft.Placed)
    (step : draft.Step event text after) : after.Paid := by
  cases step with
  | xmlDeclaration encoding standalone start => exact paid.congr rfl fun _ _ => by simp [start]
  | doctype name publicId systemId subset ids next usable identified leads =>
      exact paid.congr rfl fun _ _ => outside_of_doctype leads
  | line => exact paid
  | comment content next between => exact paid.congr rfl fun _ _ => ⟨between.1, between.2.1⟩
  | instruction target content next between =>
      exact paid.congr rfl fun _ _ => ⟨between.1, between.2.1⟩
  | cdata content next between =>
      have marked : draft.markMixed.Paid := paid.modifyTop rfl rfl
      exact marked.congr rfl fun _ _ => ⟨between.1, between.2.1⟩
  | startElement request nsPrefix found between named notXmlns disabled leads noPayload names =>
      have inside := draft.depth_push_pos .element
      have frames := names.frames inside
      have phase : found.phase = .element := frames.phase
      refine paid_in_tag ?_ (.inl phase)
      change (found.elements.modifyTop _).outwards.tail.IsChain _
      rw [ElementStack.tail_outwards_modifyTop, frames.tail_outwards]
      exact paid.complete between.1 between.2.1
  | startAttribute request nsPrefix kind next found notInside named disabled leads names =>
      have frames := names.frames.trans (found.frames_noteAttribute nsPrefix)
      have phase : (found.noteAttribute nsPrefix).phase = next := frames.phase
      rcases next?_startAttribute notInside leads with ⟨inTag, rfl⟩ | ⟨_, start, rfl⟩
      · refine paid_in_tag ?_ (.inr phase)
        change (found.noteAttribute nsPrefix).elements.outwards.tail.IsChain _
        rw [frames.tail_outwards]
        exact paid.enclosing
      · exact paid_of_outside (frames.depth.trans (placed.outside (.inl start)))
  | endAttribute next found leads noPayload applies =>
      have ends : found.elements.outwards.tail = draft.elements.outwards.tail ∧
          found.depth = draft.depth := by
        split at applies
        · exact ⟨applies.frames.tail_outwards, applies.frames.depth⟩
        · exact applies ▸ ⟨rfl, rfl⟩
      rcases next?_endAttribute leads with ⟨inValue, rfl⟩ | ⟨_, onTop, rfl⟩
      · refine paid_in_tag ?_ (.inl rfl)
        rw [enter_elements, ends.1]
        exact paid.enclosing
      · exact paid_of_outside (ends.2.trans (placed.outside (by simp [onTop])))
  | endStartTag inTag => exact paid_of_chain (paid.settle (placed.inside (.inl inTag)))
  | endEmptyTag inTag inside => exact paid_pop (paid.settle inside) (by rwa [depth_settle]) _
  | endTag inContent inside =>
      exact paid_pop (paid.complete (by simp [inContent]) (by simp [inContent])) inside _
  | write piece next closed leads =>
      have entered := paid.enterText (moves_of_text (by cases piece <;> simp [Piece.token]) closed leads)
      exact entered.congr rfl fun first second => ⟨first, second⟩
  | qualify uri nsPrefix next found closed enabled nonEmpty notDefault leads finds =>
      have frames := finds.frames_noted next
      have phase := frames.phase.trans (draft.enterText_phase next)
      have entered := paid.enterText (moves_of_text (.inl rfl) closed leads)
      have framed : (if next = .attribute then found.notePrefix nsPrefix else found).Paid := by
        by_cases inValue : next = .attribute
        · refine paid_in_tag ?_ (.inr (phase.trans inValue))
          rw [frames.tail_outwards]
          exact entered.enclosing
        · rw [if_neg inValue, finds.eq_of_outside (by rwa [enterText_phase])]
          exact entered
      exact framed.congr rfl fun first second => ⟨first, second⟩
  | feed chunk next closed leads =>
      have entered := paid.enterText (moves_of_text (by simp) closed leads)
      exact entered.congr rfl fun first second => ⟨first, second⟩
  | endPayload => exact paid.congr rfl fun first second => ⟨first, second⟩
  | configure => exact paid.congr rfl fun first second => ⟨first, second⟩
  | finish => exact paid_of_outside rfl

theorem Paid.path {events : List Event} {text : String} (paid : draft.Paid) (placed : draft.Placed)
    (path : draft.Path events text after) : after.Paid := by
  induction path with
  | nil => exact paid
  | cons step _ induction => exact induction (paid.step placed step) (placed.step step)

end Draft

end XmlStream
