import XmlStream.Proofs.Namespaces.Followed
import XmlStream.Proofs.Special.Tags

namespace XmlStream

/-! A reader beside the steps of a document: what the elements say about the language and the white
space is what their start tags say, as far as they have been read. -/

open Reading

namespace Reading

def Sight.tags (sight : Sight) : List StartTag :=
  match sight.view with
  | .between => sight.nesting.opened
  | .tag tag | .value tag _ _ => tag :: sight.nesting.opened

def View.Heard (view : View) (special : Option SpecialAttribute) : Prop :=
  match view with
  | .between | .tag _ => True
  | .value _ name parts => Reading.Heard special name parts

end Reading

/-- An event that leaves what special attributes say to their text: no reference to an entity is in
one, and none is asked for by a wrong prefix. -/
def Event.Outspoken : Event → Prop
  | .startAttribute asked _ => ¬asked.request.Astray
  | .write (.entity _) kind => kind = none
  | _ => True

namespace Draft

variable {draft after last : Draft} {text more : String} {sight seen : Sight} {event : Event}
  {events : List Event} {tag : StartTag} {name : List Char} {parts : List Part}

theorem ReadBy.phase_of_value (read_ : draft.ReadBy text sight)
    (isValue : sight.view = .value tag name parts) : draft.phase = .attribute := by
  have sees := read_.sees
  rw [isValue] at sees
  generalize draft.phase = phase, (read (.text .content) text.toList).1 = place at sees
  cases sees
  rfl

theorem ReadBy.of_between (read_ : draft.ReadBy text sight) (isBetween : sight.view = .between) :
    draft.phase ≠ .element ∧ draft.phase ≠ .attribute := by
  have sees := read_.sees
  rw [isBetween] at sees
  generalize draft.phase = phase, (read (.text .content) text.toList).1 = place at sees
  cases sees with
  | between notElement notAttribute => exact ⟨notElement, notAttribute⟩

theorem ReadBy.openTags (read_ : draft.ReadBy text sight) :
    Reading.openTags text.toList = sight.tags := by
  have sees := read_.sees
  rw [Reading.openTags, ← read_.nesting, Sight.tags]
  generalize draft.phase = phase, (read (.text .content) text.toList).1 = place,
    sight.view = view at sees
  cases sees with
  | between | value => rfl
  | tag inTag =>
      cases inTag with
      | tag => rfl
      | name bare => rw [Place.tag?, ← bare]; rfl

/-- What the elements say is what their start tags say, white space is told to be for one of two
things, and what is being read is taken for what its name says. -/
structure Heeds (draft : Draft) (sight : Sight) : Prop where
  manners : draft.elements.opened.map OpenElement.manner = sight.tags.map StartTag.manner
  spaced : ∀ tag ∈ sight.nesting.tags.flatten ++ sight.tags, tag.Spaced
  heard : sight.view.Heard draft.special

/-! ## Values -/

theorem fills_of_step (inValue : draft.phase = .attribute) (stays : after.phase = .attribute)
    (legible : event.Legible) (outspoken : event.Outspoken) (step : draft.Step event text after) :
    ∃ (parts : List Part) (value : String),
      Spells (some draft.settings.quote) text.toList parts ∧
      after.elements.manners = draft.elements.manners ∧
      after.special = (draft.capture value).special ∧
      (draft.special ≠ none → valueText parts = value) := by
  have suits : Suits (draft.position .attribute) (some draft.settings.quote) := by
    rintro quote ⟨⟩
    rfl
  cases step with
  | write piece next closed leads blank named legal =>
      have next_ : next = .attribute := (draft.enterText_phase next).symm.trans stays
      subst next_
      refine ⟨piece.parts, piece.value, spells_written legible named suits, ?_, ?_, fun special => ?_⟩
      · exact draft.manners_enterText .attribute
      · rw [enterText_attribute inValue]
      · -- In a special attribute a piece is neither raw nor an entity.
        have readable : piece.Readable (some (.declaration none)) := by
          cases piece with
          | entity name =>
              have noKind : draft.special.map (·.kind) = none := outspoken
              exact absurd (Option.map_eq_none_iff.mp noKind) special
          | raw => exact False.elim legible
          | _ => trivial
        exact valueText_parts readable rfl
  | qualify uri nsPrefix next found closed enabled nonEmpty notDefault leads finds =>
      have frames := finds.frames_noted next
      have next_ : next = .attribute :=
        (frames.phase.trans (draft.enterText_phase next)).symm.trans stays
      subst next_
      refine ⟨(nsPrefix ++ ":").toList.map .character, nsPrefix ++ ":", ?_, ?_, ?_, fun _ => ?_⟩
      · rw [String.toList_append, String.toList_append, List.map_append]
        exact (spells_escaped suits nsPrefix).append (spells_escaped suits ":")
      · exact (finds.manners .attribute).trans (draft.manners_enterText .attribute)
      · have special := frames.special.trans (draft.enterText_special .attribute)
        simp only [capture] at special ⊢
        rw [special]
      · rw [valueText_map_character, String.ofList_toList]
  | feed chunk next closed leads =>
      have next_ : next = .attribute := (draft.enterText_phase next).symm.trans stays
      subst next_
      let fed := (draft.carry.feed chunk).1
      refine ⟨fed.map .character, String.ofList fed, ?_, draft.manners_enterText .attribute, ?_,
        fun _ => valueText_map_character fed⟩
      · rw [String.toList_ofList]
        exact spells_of_plain Grammar.plain_of_mem_feed
      · simp only [capture, enterText_special]
        rfl
  | endPayload pending =>
      refine ⟨draft.carry.lastGroup.map .character, String.ofList draft.carry.lastGroup, ?_, rfl, rfl,
        fun _ => valueText_map_character _⟩
      rw [String.toList_ofList]
      exact spells_of_plain Grammar.plain_of_mem_lastGroup
  | configure =>
      refine ⟨[], "", spells_nil, rfl, ?_, fun _ => rfl⟩
      cases special : draft.special <;> simp [capture, special]
  | endAttribute next found leads =>
      rcases next?_endAttribute leads with ⟨_, rfl⟩ | ⟨_, onTop, _⟩
      · cases stays
      · rw [onTop] at inValue
        cases inValue
  | xmlDeclaration _ _ start => simp [start] at inValue
  | doctype _ _ _ _ _ _ _ _ leads =>
      rw [inValue] at leads
      cases mode : draft.mode <;> rw [mode] at leads <;> cases leads
  | startElement _ _ _ between | line _ between | comment _ _ between | instruction _ _ _ between
    | cdata _ _ between | finish between => exact absurd inValue between.2.1
  | startAttribute _ _ _ _ _ notInside => exact absurd inValue notInside
  | endStartTag inTag | endEmptyTag inTag => simp [inTag] at inValue
  | endTag inContent => simp [inContent] at inValue

theorem heard_capture {added : List Part} {value : String} (heard : Heard draft.special name parts)
    (spelled : draft.special ≠ none → valueText added = value) :
    Heard (draft.capture value).special name (parts ++ added) := by
  cases heard with
  | language named taken =>
      refine .language named ?_
      rw [valueText_append, spelled (by simp [taken])]
      simp [capture, taken]
  | space named taken =>
      refine .space named ?_
      rw [valueText_append, spelled (by simp [taken])]
      simp [capture, taken]
  | other notLanguage notSpace taken =>
      refine .other notLanguage notSpace fun found isFound => ?_
      rcases Option.map_eq_some_iff.mp isFound with ⟨special, there, rfl⟩
      exact taken special there

theorem Heeds.fill (heeds : draft.Heeds sight) (read_ : draft.ReadBy text sight)
    (readAfter : after.ReadBy (text ++ more) seen) (inValue : draft.phase = .attribute)
    (stays : after.phase = .attribute) (legible : event.Legible) (outspoken : event.Outspoken)
    (step : draft.Step event more after) : after.Heeds seen := by
  rcases fills_of_step inValue stays legible outspoken step with
    ⟨added, value, spells, manners, special, spelled⟩
  have sees := read_.sees
  rw [inValue] at sees
  rcases sees.of_value with ⟨tag, name, parts, isValue, place⟩
  have reads : read (.text .content) (text ++ more).toList =
      (.text (.value tag name draft.settings.quote (parts ++ added)),
        (read (.text .content) text.toList).2) := by
    rw [String.toList_append, read_append, place,
      spells (.value tag name draft.settings.quote parts) rfl, Host.takeAll, List.append_nil]
  have nests : seen.nesting = sight.nesting := by
    rw [readAfter.nesting, read_.nesting, Reading.nesting, Reading.nesting, reads]
  have seesAfter := readAfter.sees
  rw [stays, reads] at seesAfter
  rcases seesAfter.of_value with ⟨tagToo, nameToo, partsToo, isValueToo, placeToo⟩
  simp only [Place.text.injEq, Host.value.injEq] at placeToo
  rcases placeToo with ⟨rfl, rfl, _, rfl⟩
  have tags : seen.tags = sight.tags := by
    rw [Sight.tags, Sight.tags, isValue, isValueToo, nests]
  have heard := heeds.heard
  rw [isValue] at heard
  refine ⟨?_, ?_, ?_⟩
  · rw [tags, ← heeds.manners]
    exact ElementStack.opened_of_manners manners
  · rw [tags, nests]
    exact heeds.spaced
  · rw [isValueToo, special]
    exact heard_capture heard spelled

/-! ## Tags -/

variable {nesting : Nesting}

theorem manner_of_applies (heard : Heard draft.special name parts)
    (manner : draft.top.manner = tag.manner)
    (applies : match draft.special with
      | some special => Applies { draft with special := none } special after
      | none => after = draft) :
    after.top.manner = (tag.add name parts).manner ∧
      (name = spaceName → (Writer.spaceHandling? (valueText parts)).isSome = true) := by
  have language : draft.top.language = tag.value? languageName := congrArg Prod.fst manner
  have space : draft.top.space = spaceOf (tag.value? spaceName) := congrArg Prod.snd manner
  rw [StartTag.manner, value?_add, value?_add]
  cases heard with
  | language named taken =>
      subst named
      rw [taken] at applies
      cases applies
      refine ⟨?_, fun same => absurd same (by decide)⟩
      rw [if_pos rfl, if_neg (by decide), ← space, top_modifyTop]
      rfl
  | space named taken =>
      subst named
      rw [taken] at applies
      cases applies with
      | space _ asked isAsked =>
          refine ⟨?_, fun _ => by rw [isAsked]; rfl⟩
          have handling : spaceOf (some (valueText parts)) = asked := by simp [spaceOf, isAsked]
          rw [if_pos rfl, if_neg (by decide), handling, ← language, top_modifyTop]
          rfl
  | other notLanguage notSpace taken =>
      refine ⟨?_, fun same => absurd same notSpace⟩
      rw [if_neg notLanguage, if_neg notSpace, ← StartTag.manner, ← manner]
      split at applies
      · rename_i special isSpecial
        rcases taken special isSpecial with ⟨declared, declares⟩
        have same := applies.manners_of_declaration declares
        exact ElementStack.top_of_manners same
      · rw [applies]

theorem opened_of_tail {first : Option String × SpaceHandling}
    {rest : List (Option String × SpaceHandling)} (depth : after.depth = draft.depth)
    (tail : after.elements.opened.tail = draft.elements.opened.tail)
    (opened : draft.elements.opened.map OpenElement.manner = first :: rest) :
    draft.top.manner = first ∧
      after.elements.opened.map OpenElement.manner = after.top.manner :: rest := by
  simp only [Draft.depth, ElementStack.depth, top, ElementStack.top] at depth ⊢
  cases older : draft.elements.opened with
  | nil => simp [older] at opened
  | cons innermost others =>
      cases newer : after.elements.opened with
      | nil => simp [older, newer] at depth
      | cons _ _ => simp_all

theorem Heeds.still (heeds : draft.Heeds ⟨.between, nesting⟩)
    (opened : after.elements.opened.map OpenElement.manner =
      draft.elements.opened.map OpenElement.manner) : after.Heeds ⟨.between, nesting⟩ :=
  ⟨opened.trans heeds.manners, heeds.spaced, trivial⟩

theorem opened_of_outside (outside : draft.depth = 0) (still : draft.Still after) :
    after.elements.opened.map OpenElement.manner = draft.elements.opened.map OpenElement.manner := by
  have none : draft.elements.opened = [] := List.length_eq_zero_iff.mp outside
  have same := still.layers
  rw [layers_eq_nil outside, layers, List.map_eq_nil_iff] at same
  rw [same, none]

theorem opened_of_still (notElement : draft.phase ≠ .element) (notAttribute : draft.phase ≠ .attribute)
    (placed : draft.Placed) (quiet : event.Quiet) (still : draft.Still after)
    (step : draft.Step event text after) :
    after.elements.opened.map OpenElement.manner = draft.elements.opened.map OpenElement.manner := by
  cases step with
  | cdata => exact ElementStack.opened_of_manners draft.manners_markMixed
  | endAttribute next found leads =>
      rcases next?_endAttribute leads with ⟨inValue, _⟩ | ⟨_, onTop, _⟩
      · exact absurd inValue notAttribute
      · exact opened_of_outside (placed.outside (by simp [onTop])) still
  | endStartTag inTag | endEmptyTag inTag => exact absurd inTag notElement
  | endTag inContent inside =>
      have same := congrArg List.length still.layers
      have fewer : (draft.pop.enter draft.phaseAfterElement).layers.length = draft.depth - 1 := by
        simp [layers, pop, ElementStack.pop, depth, ElementStack.depth]
      rw [fewer, layers, List.length_map] at same
      have inside : 0 < draft.elements.opened.length := inside
      have same : draft.elements.opened.length - 1 = draft.elements.opened.length := same
      omega
  | write piece next | feed chunk next =>
      exact ElementStack.opened_of_manners (draft.manners_enterText next)
  | qualify _ _ next _ _ _ _ _ _ finds =>
      exact ElementStack.opened_of_manners ((finds.manners next).trans (draft.manners_enterText next))
  | startElement | startAttribute | finish => exact quiet.elim
  | _ => rfl

theorem Heeds.startElement {request : NameRequest} {nsPrefix : Option String} {found : Draft}
    (heeds : draft.Heeds ⟨.between, nesting⟩)
    (names : (draft.push.enter .element).NamesElement request nsPrefix found) (tagName : List Char) :
    (found.modifyTop fun element => { element with name := request.localName, nsPrefix }).Heeds
      ⟨.tag { name := tagName }, nesting⟩ := by
  have named : (found.modifyTop fun element =>
      { element with name := request.localName, nsPrefix }).elements.manners =
        (draft.push.enter .element).elements.manners :=
    (ElementStack.manners_modifyTop _ rfl).trans names.manners
  have pushed : (draft.push.enter .element).elements.opened.map OpenElement.manner =
      (none, .unspecified) :: draft.elements.opened.map OpenElement.manner := rfl
  refine ⟨?_, fun tag member => ?_, trivial⟩
  · rw [ElementStack.opened_of_manners named, pushed, heeds.manners]
    rfl
  · rcases List.mem_append.mp member with complete | open_
    · exact heeds.spaced tag (List.mem_append_left _ complete)
    · rcases List.mem_cons.mp open_ with rfl | outer
      · exact StartTag.spaced_bare tagName
      · exact heeds.spaced tag (List.mem_append_right _ outer)

theorem Heeds.spaced_complete (heeds : draft.Heeds ⟨.tag tag, nesting⟩) :
    ∀ other ∈ (nesting.tags ++ [tag.addAll draft.owedAttributes :: nesting.opened]).flatten ++
      (tag.addAll draft.owedAttributes :: nesting.opened), other.Spaced := by
  have outer (other : StartTag) (member : other ∈ nesting.opened) : other.Spaced :=
    heeds.spaced other (List.mem_append_right _ (List.mem_cons_of_mem _ member))
  have whole : ∀ other ∈ tag.addAll draft.owedAttributes :: nesting.opened, other.Spaced := by
    intro other member
    rcases List.mem_cons.mp member with rfl | member
    · exact (heeds.spaced tag (List.mem_append_right _ List.mem_cons_self)).addAll
    · exact outer other member
  intro other member
  rw [List.flatten_append, List.flatten_singleton, List.append_assoc, List.mem_append,
    List.mem_append, or_self] at member
  rcases member with earlier | now
  · exact heeds.spaced other (List.mem_append_left _ earlier)
  · exact whole other now

theorem opened_settle (draft : Draft) : draft.settle.elements.opened.map OpenElement.manner =
    draft.elements.opened.map OpenElement.manner :=
  ElementStack.opened_of_manners draft.manners_settle

theorem Heeds.step (heeds : draft.Heeds sight) (read_ : draft.ReadBy text sight)
    (readAfter : after.ReadBy (text ++ more) seen) (legible : event.Legible)
    (outspoken : event.Outspoken) (shows_ : draft.Shows event sight after seen)
    (step : draft.Step event more after) : after.Heeds seen := by
  -- A step within a value is seen in several ways, but it always adds the same on both sides.
  by_cases inside : draft.phase = .attribute ∧ after.phase = .attribute
  · exact heeds.fill read_ readAfter inside.1 inside.2 legible outspoken step
  cases shows_ with
  | between event nesting after quiet still =>
      rcases read_.of_between rfl with ⟨notElement, notAttribute⟩
      exact heeds.still (opened_of_still notElement notAttribute read_.placed quiet still step)
  | topAttribute asked relied nesting after start still =>
      exact heeds.still (opened_of_outside (read_.placed.outside (.inl start)) still)
  | configure setting sight => exact ⟨heeds.manners, heeds.spaced, heeds.heard⟩
  | startElement request nsPrefix found owes nesting notXmlns names =>
      exact heeds.startElement names _
  | startAttribute request nsPrefix kind found relied tag nesting names =>
      refine ⟨?_, heeds.spaced, ?_⟩
      · have same := (found.manners_noteAttribute nsPrefix).trans names.manners
        exact (ElementStack.opened_of_manners same).trans heeds.manners
      · exact names.heard read_.enabled read_.lawful (read_.wholesome.fit.congr rfl rfl) legible
          outspoken
  | endAttribute found tag name parts nesting applies =>
      have frames : found.depth = draft.depth ∧
          found.elements.opened.tail = draft.elements.opened.tail := by
        split at applies
        · exact ⟨applies.frames.depth, applies.frames.tail⟩
        · exact applies ▸ ⟨rfl, rfl⟩
      have manners : draft.elements.opened.map OpenElement.manner =
          tag.manner :: nesting.opened.map StartTag.manner := heeds.manners
      -- The value changes what the innermost element says, and nothing around it.
      rcases opened_of_tail frames.1 frames.2 manners with ⟨manner, opened⟩
      rcases manner_of_applies heeds.heard manner applies with ⟨after_, space⟩
      rw [after_] at opened
      refine ⟨opened, fun other member => ?_, trivial⟩
      rcases List.mem_append.mp member with complete | open_
      · exact heeds.spaced other (List.mem_append_left _ complete)
      · rcases List.mem_cons.mp open_ with rfl | outer
        · exact (heeds.spaced tag (List.mem_append_right _ List.mem_cons_self)).add space
        · exact heeds.spaced other (List.mem_append_right _ (List.mem_cons_of_mem _ outer))
  | fill _ _ _ _ tag name parts =>
      exact absurd ⟨read_.phase_of_value rfl, readAfter.phase_of_value rfl⟩ inside
  | qualify _ _ _ _ tag name parts =>
      exact absurd ⟨read_.phase_of_value rfl, readAfter.phase_of_value rfl⟩ inside
  | endStartTag tag nesting =>
      refine ⟨?_, heeds.spaced_complete, trivial⟩
      rw [enter_elements, opened_settle, heeds.manners]
      simp [Sight.tags, Nesting.add, StartTag.manner_addAll]
  | endEmptyTag tag nesting =>
      refine ⟨?_, fun other member => ?_, trivial⟩
      · have popped : draft.settle.pop.elements.opened = draft.settle.elements.opened.tail := rfl
        rw [enter_elements, popped, List.map_tail, opened_settle, heeds.manners]
        rfl
      · refine heeds.spaced_complete other ?_
        rcases List.mem_append.mp member with complete | outer
        · exact List.mem_append_left _ complete
        · exact List.mem_append_right _ (List.mem_cons_of_mem _ outer)
  | endTag name nesting =>
      refine ⟨?_, fun other member => ?_, trivial⟩
      · have popped : draft.pop.elements.opened = draft.elements.opened.tail := rfl
        rw [enter_elements, popped, List.map_tail, heeds.manners, ← List.map_tail]
        rfl
      · refine heeds.spaced other ?_
        rcases List.mem_append.mp member with complete | outer
        · exact List.mem_append_left _ complete
        · exact List.mem_append_right _ (List.mem_of_mem_tail outer)
  | finish nesting outside =>
      have none : draft.elements.opened = [] := List.length_eq_zero_iff.mp outside
      have manners := heeds.manners
      rw [none] at manners
      exact ⟨manners, heeds.spaced, trivial⟩

/-- By induction on the steps that a reader reads. -/
theorem Heeds.path (heeds : draft.Heeds sight) (read_ : draft.ReadBy text sight)
    (path : draft.Path events more last) (legible : ∀ event ∈ events, event.Legible)
    (outspoken : ∀ event ∈ events, event.Outspoken) :
    ∃ seen, last.ReadBy (text ++ more) seen ∧ last.Heeds seen := by
  induction path generalizing text sight with
  | nil draft => exact ⟨sight, by simpa using read_, heeds⟩
  | cons step rest induction =>
      have first := legible _ List.mem_cons_self
      have spoken := outspoken _ List.mem_cons_self
      rcases read_.step first step with ⟨middle, shows_, readNext⟩
      have heedsNext := heeds.step read_ readNext first spoken shows_ step
      rcases induction heedsNext readNext
        (fun event member => legible event (List.mem_cons_of_mem _ member))
        (fun event member => outspoken event (List.mem_cons_of_mem _ member)) with
        ⟨seen, readLast, heedsLast⟩
      exact ⟨seen, by rwa [String.append_assoc] at readLast, heedsLast⟩

end Draft

end XmlStream
