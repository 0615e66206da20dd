import XmlStream.Proofs.Draft.Tiered
import XmlStream.Proofs.Prefixes.Grounded
import XmlStream.Proofs.Special.Manners

namespace XmlStream

/-! Which steps of a draft write names in an open start tag, and what a draft remembers of them.
All other steps leave that alone, as long as the tag is open. -/

def Event.isNaming : Event → Bool
  | .startElement _ _ | .startAttribute _ _ | .qualify _ _ => true
  | _ => false

theorem Event.isNaming_of_completes {event : Event} (completes : event.completes = true) :
    event.isNaming = false := by
  cases event <;> first | rfl | cases completes

def Call.isNaming : Call → Bool
  | .startElement _ | .startAttribute _ | .attributeString _ _ | .elementString _ _
  | .qualifiedName _ _ => true
  | _ => false

def OpenElement.naming (element : OpenElement) : Option String × List String × Nat :=
  (element.nsPrefix, element.usedPrefixes, element.prefixCount)

namespace Draft

variable {draft before after : Draft} {nsPrefix uri : String}

/-- A start tag is open, between its attributes or in the value of one. -/
def AtTag (draft : Draft) : Prop := draft.phase = .element ∨ draft.phase = .attribute

instance (draft : Draft) : Decidable draft.AtTag := inferInstanceAs (Decidable (_ ∨ _))

structure SameTag (before after : Draft) : Prop where
  atTag : before.AtTag
  naming : after.top.naming = before.top.naming

theorem not_atTag_phaseAfterElement (draft : Draft) :
    draft.phaseAfterElement ≠ .element ∧ draft.phaseAfterElement ≠ .attribute := by
  unfold phaseAfterElement
  split <;> simp

theorem enterText_naming (draft : Draft) (next : Phase) :
    (draft.enterText next).top.naming = draft.top.naming := by
  unfold enterText
  split
  · simp [markMixed, OpenElement.naming]
  · rfl

theorem Applies.naming {special : SpecialAttribute} (applies : draft.Applies special after) :
    after.top.naming = draft.top.naming := by
  cases applies with
  | language | space => simp [OpenElement.naming]
  | outside => rfl
  | prefixed _ _ _ _ _ binds => rw [top, binds.elements_eq, ← top]
  | default _ _ _ binds => simp [binds.result, setDefault, OpenElement.naming]

theorem phase_of_moves {mode : Mode} {phase next : Phase} (moves : Moves mode phase next)
    (atTag : next = .element ∨ next = .attribute) : phase = .element ∨ phase = .attribute := by
  rcases moves with rfl | ⟨_, rfl | rfl | ⟨rfl, _⟩⟩
  · exact atTag
  all_goals simp at atTag

theorem Step.sameTag {event : Event} {text : String} (step : before.Step event text after)
    (quiet : event.isNaming = false) (atTag : after.AtTag) : before.SameTag after := by
  cases step with
  | startElement | startAttribute | qualify => cases quiet
  | xmlDeclaration => simp [AtTag] at atTag
  | doctype name publicId systemId subset ids next usable identified leads =>
      have outside := outside_of_doctype leads
      exact ⟨phase_of_moves (moves_of_markup (by simp) outside.1 outside.2 leads) atTag, rfl⟩
  | line => exact ⟨atTag, rfl⟩
  | comment content next between noDashes noDash leads =>
      exact ⟨phase_of_moves (moves_of_markup (by simp) between.1 between.2.1 leads) atTag, rfl⟩
  | instruction target content next between noEnd notXml usable leads =>
      exact ⟨phase_of_moves (moves_of_markup (by simp) between.1 between.2.1 leads) atTag, rfl⟩
  | cdata content next between noEnd leads =>
      have atTag := phase_of_moves (moves_of_markup (by simp) between.1 between.2.1 leads) atTag
      exact ⟨atTag, by simp [markMixed, OpenElement.naming]⟩
  | endAttribute next found leads noPayload applies =>
      have same : found.top.naming = before.top.naming := by
        split at applies
        · exact applies.naming
        · rw [applies]
      rcases next?_endAttribute leads with ⟨inValue, _⟩ | ⟨_, _, rfl⟩
      · exact ⟨.inr inValue, same⟩
      · simp [AtTag] at atTag
  | endStartTag => simp [AtTag] at atTag
  | endEmptyTag => simp [AtTag, before.not_atTag_phaseAfterElement] at atTag
  | endTag => simp [AtTag, before.not_atTag_phaseAfterElement] at atTag
  | write piece next closed leads =>
      have moves := moves_of_text (by cases piece <;> simp [Piece.token]) closed leads
      simp only [AtTag, capture, enterText_phase] at atTag
      exact ⟨phase_of_moves moves atTag, before.enterText_naming next⟩
  | feed chunk next closed leads =>
      simp only [AtTag, capture, enterText_phase] at atTag
      exact ⟨phase_of_moves (moves_of_text (by simp) closed leads) atTag, before.enterText_naming next⟩
  | endPayload => exact ⟨atTag, rfl⟩
  | configure => exact ⟨atTag, rfl⟩
  | finish => simp [AtTag, reset] at atTag

theorem Path.sameTag {events : List Event} {text : String} (path : before.Path events text after)
    (quiet : ∀ event ∈ events, event.isNaming = false) (atTag : after.AtTag) :
    before.SameTag after := by
  induction path with
  | nil => exact ⟨atTag, rfl⟩
  | cons step rest induction =>
      rw [List.forall_mem_cons] at quiet
      have later := induction quiet.2 atTag
      have first := step.sameTag quiet.1 later.atTag
      exact ⟨first.atTag, later.naming.trans first.naming⟩

/-! ## Prefixes that are made up -/

/-- Finding a prefix either makes none up, and counts none, or makes up the one that is found. -/
structure Counts (draft : Draft) (written : Option String) (after : Draft) : Prop where
  nsPrefix : after.top.nsPrefix = draft.top.nsPrefix
  usedPrefixes : after.top.usedPrefixes = draft.top.usedPrefixes
  counted : after.top.prefixCount = draft.top.prefixCount ∨
    written = some (Bindings.generatedPrefix draft.depth after.top.prefixCount)

theorem Counts.none (draft : Draft) (written : Option String) : draft.Counts written draft :=
  ⟨rfl, rfl, .inl rfl⟩

theorem Counts.of_elements {written : Option String} (elements : after.elements = draft.elements) :
    draft.Counts written after := by
  have top : after.top = draft.top := congrArg ElementStack.top elements
  exact ⟨by rw [top], by rw [top], .inl (by rw [top])⟩

theorem Counts.of_made {middle : Draft} (makes : draft.MakesPrefix nsPrefix middle)
    (elements : after.elements = middle.elements) : draft.Counts (some nsPrefix) after := by
  have top : after.top = middle.top := congrArg ElementStack.top elements
  rcases makes.named with ⟨number, rfl, rfl⟩
  rw [top_modifyTop] at top
  exact ⟨by rw [top], by rw [top], .inr (by rw [top])⟩

theorem FindsPrefix.counts {asked : Option String}
    (finds : draft.FindsPrefix asked uri nsPrefix after) : draft.Counts (some nsPrefix) after := by
  cases finds with
  | found | kept => exact .none draft _
  | made _ _ _ _ makes _ binds => exact .of_made makes binds.elements_eq
  | bound _ _ _ _ binds => exact .of_elements binds.elements_eq

theorem NamesAttribute.counts {request : NameRequest} {written : Option String}
    {kind : Option SpecialKind} (names : draft.NamesAttribute request written kind after) :
    draft.Counts written after := by
  cases names with
  | namespaced _ _ _ _ _ _ _ _ _ _ finds => exact finds.counts
  | _ => exact .none draft _

theorem QualifiesText.counts (qualifies : draft.QualifiesText uri nsPrefix after) :
    draft.Counts (some nsPrefix) after := by
  cases qualifies with
  | found => exact .none draft _
  | made _ _ _ _ makes _ binds => exact .of_made makes binds.elements_eq

/-! ## Names that are added -/

/-- A name has been added to the open start tag. Its prefix is noted, unless it is a reserved one. -/
structure Notes (before : Draft) (written : Option String) (after : Draft) : Prop where
  kept : ∀ nsPrefix ∈ before.top.prefixes, nsPrefix ∈ after.top.prefixes
  noted : ∀ nsPrefix, written = some nsPrefix →
    nsPrefix = "xml" ∨ nsPrefix = "xmlns" ∨ nsPrefix ∈ after.top.prefixes
  counted : after.top.prefixCount = before.top.prefixCount ∨
    written = some (Bindings.generatedPrefix before.depth after.top.prefixCount)

theorem Notes.of_top {written : Option String} {later : Draft} (notes : draft.Notes written after)
    (same : later.top = after.top) : draft.Notes written later := by
  rcases notes with ⟨kept, noted, counted⟩
  rw [← same] at kept noted counted
  exact ⟨kept, noted, counted⟩

theorem Counts.prefixes {written : Option String} (counts : draft.Counts written after) :
    after.top.prefixes = draft.top.prefixes := by
  rw [OpenElement.prefixes, OpenElement.prefixes, counts.nsPrefix, counts.usedPrefixes]

theorem Counts.notePrefix (counts : draft.Counts (some nsPrefix) after) :
    draft.Notes (some nsPrefix) (after.notePrefix nsPrefix) := by
  have prefixes : ∀ other, other ∈ (after.notePrefix nsPrefix).top.prefixes ↔
      other = nsPrefix ∨ other ∈ draft.top.prefixes := by
    intro other
    rw [← counts.prefixes, Draft.notePrefix, top_modifyTop]
    simp only [OpenElement.prefixes, List.mem_append, List.mem_cons]
    tauto
  refine ⟨fun other member => (prefixes other).mpr (.inr member), ?_, ?_⟩
  · rintro _ ⟨⟩
    exact .inr (.inr ((prefixes nsPrefix).mpr (.inl rfl)))
  · rw [Draft.notePrefix, top_modifyTop]
    exact counts.counted

theorem NamesAttribute.notes {request : NameRequest} {written : Option String}
    {kind : Option SpecialKind} (names : draft.NamesAttribute request written kind after)
    (inside : 0 < draft.depth) : draft.Notes written (after.noteAttribute written) := by
  have counts := names.counts
  have plain : (∀ nsPrefix, written = some nsPrefix → nsPrefix = "xml" ∨ nsPrefix = "xmlns") →
      draft.Notes written after := fun reserved =>
    ⟨fun nsPrefix member => by rwa [counts.prefixes],
      fun nsPrefix same => (reserved nsPrefix same).imp_right .inl, counts.counted⟩
  cases written with
  | none => exact plain (by simp)
  | some nsPrefix =>
      rw [noteAttribute]
      split
      · exact counts.notePrefix
      · rename_i unnoted
        apply plain
        rintro _ ⟨⟩
        rw [names.frames.depth] at unnoted
        by_contra other
        exact unnoted ⟨inside, fun isXml => other (.inl isXml), fun isXmlns => other (.inr isXmlns)⟩

end Draft

end XmlStream
