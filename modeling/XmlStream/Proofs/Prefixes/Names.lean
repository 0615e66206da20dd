import XmlStream.Proofs.Namespaces.Followed
import XmlStream.Proofs.Nesting.Surroundings
import XmlStream.Proofs.Prefixes.Calls
import XmlStream.Proofs.Prefixes.Tags
import XmlStream.Proofs.Reading.Escapes

namespace XmlStream

/-! The names in the start tag that is open after some calls, and the prefixes that were made up for
them. They are told from the calls and from what the actions of the calls answer. That the element
remembers all of their prefixes is what is proved here. -/

/-- A name in a start tag: that of the element or of an attribute, or a qualified name in the value
of an attribute. -/
structure TagName where
  nsPrefix : Option String
  localName : String
deriving DecidableEq, Repr

/-- The names in a start tag, newest first. -/
structure TagNames where
  names : List TagName := []
  made : List String := []
deriving DecidableEq, Repr

theorem OpenElement.prefixes_of_naming {older newer : OpenElement}
    (same : newer.naming = older.naming) : newer.prefixes = older.prefixes := by
  simp only [naming, Prod.mk.injEq] at same
  rw [prefixes, prefixes, same.1, same.2.1]

namespace TagNames

def add (tag : TagNames) (name : TagName) (made : Option String) : TagNames :=
  { names := name :: tag.names, made := made.toList ++ tag.made }

/-- An element remembers the prefixes in its start tag. -/
structure Noted (tag : TagNames) (element : OpenElement) : Prop where
  names : ∀ name ∈ tag.names, ∀ nsPrefix, name.nsPrefix = some nsPrefix →
    nsPrefix = "xml" ∨ nsPrefix = "xmlns" ∨ nsPrefix ∈ element.prefixes
  made : ∀ nsPrefix ∈ tag.made, nsPrefix ∈ element.prefixes
  distinct : tag.made.Nodup

theorem noted_empty (element : OpenElement) : Noted {} element :=
  ⟨by simp, by simp, List.nodup_nil⟩

theorem Noted.mono {tag : TagNames} {older newer : OpenElement} (noted : tag.Noted older)
    (kept : ∀ nsPrefix ∈ older.prefixes, nsPrefix ∈ newer.prefixes) : tag.Noted newer where
  names name member nsPrefix named :=
    (noted.names name member nsPrefix named).imp_right (Or.imp_right (kept nsPrefix))
  made nsPrefix member := kept nsPrefix (noted.made nsPrefix member)
  distinct := noted.distinct

theorem Noted.of_naming {tag : TagNames} {older newer : OpenElement} (noted : tag.Noted older)
    (same : newer.naming = older.naming) : tag.Noted newer :=
  noted.mono fun nsPrefix member => by rwa [OpenElement.prefixes_of_naming same]

end TagNames

namespace Writer

variable {before room after : Writer}

/-! ## What calls write -/

def result? {α : Type} (writer : Writer) (action : Action α) : Option α :=
  match action writer with
  | .ok value _ => some value
  | .error _ _ => none

def tagNameOfElement (writer : Writer) (request : NameRequest) : TagName :=
  let room := writer.roomFor .startElement
  let opened : Writer := { room with elements := room.elements.push room.bindings.size }
  { nsPrefix := nonEmpty? (opened.result? (elementPrefix request)).join
    localName := request.localName }

def tagNameOfAttribute (writer : Writer) (request : NameRequest) : TagName :=
  { nsPrefix := ((writer.roomFor .startAttribute).result? (attributeRole request)).bind Prod.fst
    localName := request.localName }

/-- A qualified name as it is written in text. In the default namespace it has no prefix. -/
def tagNameInText (writer : Writer) (localName : String) (uri : Option String) : TagName :=
  let room := writer.roomFor .text
  { nsPrefix := (nonEmpty? uri).bind fun uri =>
      if uri = room.top.defaultUri then none else room.result? (textPrefixFor uri)
    localName }

/-- The prefix that is made up from here on, if the element counts it later on. -/
def madeUp (room after : Writer) : Option String :=
  match makePrefix room with
  | .ok made counted => if counted.top.prefixCount = after.top.prefixCount then some made else none
  | .error _ _ => none

def tagAfter (before : Writer) (tag : TagNames) (call : Call) : TagNames :=
  let after := (before.step call).2
  if ¬after.draft.AtTag then {}
  else if ¬(before.step call).1.isOk then tag
  else
    match call with
    | .startElement request => { names := [before.tagNameOfElement request] }
    | .startAttribute request | .attributeString request _ =>
      tag.add (before.tagNameOfAttribute request) ((before.roomFor .startAttribute).madeUp after)
    | .qualifiedName localName uri =>
      tag.add (before.tagNameInText localName uri) ((before.roomFor .text).madeUp after)
    | _ => tag

def tagNames (before : Writer) (tag : TagNames) : List Call → TagNames
  | [] => tag
  | call :: rest => (before.step call).2.tagNames (before.tagAfter tag call) rest

/-! ## Within calls -/

theorem Grounded.advance {token : Token} (grounded : before.Grounded)
    (went : Writer.advance token before = .ok () room) : room.Grounded :=
  (grounds_advance token).of_ok grounded went

theorem tagNameOfAttribute_eq {request : NameRequest} {nsPrefix : Option String}
    {kind : Option SpecialKind} {found : Writer} (went : advance .startAttribute before = .ok () room)
    (named : attributeRole request room = .ok (nsPrefix, kind) found) :
    before.tagNameOfAttribute request = ⟨nsPrefix, request.localName⟩ := by
  simp only [tagNameOfAttribute, roomFor_of_ok went, result?, named, Option.bind_some]

theorem openElement_nsPrefix {request : NameRequest}
    (ok : openElement request before = .ok () after) :
    after.top.nsPrefix = (before.tagNameOfElement request).nsPrefix := by
  simp only [openElement, bind_eq_ok, refuse_bind_eq_ok, modify_eq_ok] at ok
  obtain ⟨_, _, checked, _, _, room, went, _, _, rfl, nsPrefix, found, named, _, wrote, emitted,
    ok⟩ := ok
  obtain ⟨rfl, _⟩ := checkRequest_ok checked
  have name : before.tagNameOfElement request = ⟨nonEmpty? nsPrefix, request.localName⟩ := by
    simp only [tagNameOfElement, roomFor_of_ok went, result?, named, Option.join_some]
  obtain ⟨output, rfl, -⟩ := emit_ok emitted
  have top := congrArg (fun draft : Draft => draft.top.nsPrefix) (modifyTop_ok ok).2
  rw [name]
  simpa using top

theorem sameTag_of_startAttribute (sound : before.bindings.Sound)
    (went : advance .startAttribute before = .ok () room) (atTag : room.draft.AtTag) :
    before.draft.SameTag room.draft ∧ room.phase = .attribute := by
  obtain ⟨events, text, draft, advances, notInside⟩ := advance_startAttribute_ok sound went
  have entered : room.draft = draft.enter room.phase := advances.draft
  obtain ⟨inElement, inValue⟩ | ⟨_, _, onTop⟩ := Draft.next?_startAttribute notInside advances.leads
  · have same := advances.path.sameTag
      (fun event member => event.isNaming_of_completes (advances.events event member))
      (.inl inElement)
    refine ⟨⟨same.atTag, ?_⟩, inValue⟩
    rw [entered]
    exact same.naming
  · rw [Draft.AtTag, draft_phase, onTop] at atTag
    simp at atTag

theorem sameTag_of_text (sound : before.Sound) (went : advance .text before = .ok () room)
    (atTag : room.draft.AtTag) : before.draft.SameTag room.draft ∧ room.phase = .attribute := by
  obtain ⟨events, text, draft, advances, notElement⟩ := advance_text_ok sound (.inl rfl) went
  have moves := Draft.moves_of_text (.inl rfl) notElement advances.leads
  have same := advances.path.sameTag
    (fun event member => event.isNaming_of_completes (advances.events event member))
    (Draft.phase_of_moves moves atTag)
  refine ⟨⟨same.atTag, ?_⟩, atTag.resolve_left (next?_ne_element (.inl rfl) advances.leads)⟩
  rw [advances.draft_text, Draft.enterText_naming]
  exact same.naming

theorem makePrefix_eq (writer : Writer) : ∃ counted,
    makePrefix writer = .ok (Bindings.generatedPrefix writer.depth counted.top.prefixCount) counted ∧
      counted.elements = writer.elements.modifyTop (fun element =>
        { element with
          prefixCount := writer.bindings.nextNumber writer.depth writer.top.prefixCount }) ∧
      counted.bindings = writer.bindings := by
  let number := writer.bindings.nextNumber writer.depth writer.top.prefixCount
  let counted : Writer := { writer with
    elements := writer.elements.modifyTop fun element => { element with prefixCount := number } }
  have counts : counted.top.prefixCount = number := by
    rw [top, ElementStack.top_modifyTop]
  refine ⟨counted, ?_, rfl, rfl⟩
  rw [counts]
  simp only [makePrefix, bind_eq_ok, get_eq_ok, pure_eq_ok, modifyTop, modify_eq_ok]
  exact ⟨writer, writer, ⟨rfl, rfl⟩, ⟨⟩, counted, rfl, rfl, rfl⟩

theorem noted_add {tag : TagNames} {name : TagName} (grounded : room.Grounded) (inside : 0 < room.depth)
    (noted : tag.Noted room.top) (notes : room.draft.Notes name.nsPrefix after.draft) :
    (tag.add name (room.madeUp after)).Noted after.top := by
  have before := noted.mono notes.kept
  have names : ∀ other ∈ name :: tag.names, ∀ nsPrefix, other.nsPrefix = some nsPrefix →
      nsPrefix = "xml" ∨ nsPrefix = "xmlns" ∨ nsPrefix ∈ after.top.prefixes :=
    List.forall_mem_cons.mpr ⟨notes.noted, before.names⟩
  obtain ⟨middle, makes, elements, _⟩ := room.makePrefix_eq
  have number : middle.top.prefixCount =
      room.bindings.nextNumber room.depth room.top.prefixCount := by
    rw [top, elements, ElementStack.top_modifyTop]
  by_cases same : middle.top.prefixCount = after.top.prefixCount
  · have made : room.madeUp after =
        some (Bindings.generatedPrefix room.depth after.top.prefixCount) := by
      rw [madeUp, makes]
      simp only [same, if_true]
    obtain ⟨rounds, _, searches⟩ :=
      grounded.sound.searches_nextNumber room.depth room.top.prefixCount
    rw [← number, same] at searches
    -- The number has grown, so what is written has the prefix that goes with it.
    have later := searches.number_eq
    have uncounted : after.top.prefixCount ≠ room.top.prefixCount := by omega
    have isWritten := notes.counted.resolve_left uncounted
    have isNoted := ((notes.noted _ isWritten).resolve_left
      (generatedPrefix_ne (by decide))).resolve_left (generatedPrefix_ne (by decide))
    have unbound := searches.notMem grounded.sound
    rw [made]
    exact
      { names
        made := List.forall_mem_cons.mpr ⟨isNoted, before.made⟩
        distinct := List.nodup_cons.mpr
          ⟨fun again => unbound (grounded.mem_of_top inside (noted.made _ again)), noted.distinct⟩ }
  · have none : room.madeUp after = none := by
      rw [madeUp, makes]
      simp only [same, if_false]
    rw [none]
    exact ⟨names, before.made, noted.distinct⟩

theorem noted_openElement {request : NameRequest} (ok : openElement request before = .ok () after) :
    (⟨[before.tagNameOfElement request], []⟩ : TagNames).Noted after.top := by
  refine ⟨List.forall_mem_singleton.mpr fun given written => ?_, by simp, List.nodup_nil⟩
  refine .inr (.inr (List.mem_append_left _ ?_))
  rw [openElement_nsPrefix ok, written]
  exact List.mem_singleton.mpr rfl

theorem noted_openAttribute {tag : TagNames} {request : NameRequest} (ready : before.Ready)
    (grounded : before.Grounded) (noted : tag.Noted before.top)
    (ok : openAttribute request before = .ok () after) (atTag : after.draft.AtTag) :
    (tag.add (before.tagNameOfAttribute request)
      ((before.roomFor .startAttribute).madeUp after)).Noted after.top := by
  obtain ⟨room, nsPrefix, kind, found, given, last, went, named, _, _, _, result,
    ⟨output, rfl, _⟩, rfl⟩ := openAttribute_split ok
  have groundedRoom := grounded.advance went
  have names := (attributeRole_ok groundedRoom.sound named).2
  have phase : given.phase = room.phase := by
    rw [← draft_phase, result]
    exact (names.frames.trans (found.draft.frames_noteAttribute nsPrefix)).phase
  have inRoom : room.draft.AtTag := by
    rw [Draft.AtTag, draft_phase, ← phase]
    exact atTag
  obtain ⟨same, _⟩ := sameTag_of_startAttribute ready.sound.bindings went inRoom
  have inside : 0 < room.depth := by
    rw [(local_advance _ went).depth]
    exact ready.placed.inside same.atTag
  have notes := names.notes inside
  rw [← result] at notes
  rw [tagNameOfAttribute_eq went named, roomFor_of_ok went]
  refine noted_add groundedRoom inside ?_ ⟨notes.kept, notes.noted, notes.counted⟩
  exact noted.of_naming same.naming

theorem emitText_keeps {text : String} {nothing : Unit}
    (ok : emitText text before = .ok nothing after) :
    after.phase = before.phase ∧ after.elements = before.elements := by
  obtain ⟨output, rfl, _⟩ := emitText_ok ok
  exact ⟨rfl, rfl⟩

theorem putQualifiedName_split {localName : String} {uri : Option String}
    (ok : putQualifiedName localName uri before = .ok () after) :
    ∃ room, advance .text before = .ok () room ∧
      (before.tagNameInText localName uri = ⟨none, localName⟩ ∧
          emitText localName room = .ok () after ∨
        ∃ asked nsPrefix found middle divided noted,
          before.tagNameInText localName uri = ⟨some nsPrefix, localName⟩ ∧
          textPrefixFor asked room = .ok nsPrefix found ∧
          emitText nsPrefix found = .ok () middle ∧ emitText ":" middle = .ok () divided ∧
          (divided.phase = .attribute ∧ notePrefix nsPrefix divided = .ok () noted ∨
            divided.phase ≠ .attribute ∧ noted = divided) ∧
          emitText localName noted = .ok () after) := by
  simp only [putQualifiedName, bind_eq_ok, get_eq_ok, refuse_bind_eq_ok] at ok
  obtain ⟨_, _, checked, _, _, ⟨rfl, rfl⟩, _, _, room, went, ok⟩ := ok
  obtain ⟨rfl, _⟩ := checkName_ok checked
  refine ⟨room, went, ?_⟩
  cases given : nonEmpty? uri with
  | none =>
      simp only [given] at ok
      exact .inl ⟨by simp [tagNameInText, given], ok⟩
  | some asked =>
      simp only [given, bind_eq_ok, get_eq_ok, ite_eq_ok] at ok
      obtain ⟨_, _, ⟨rfl, rfl⟩, ⟨notDefault, nsPrefix, found, named, _, middle, prefixed, _, divided,
        colon, _, _, ⟨rfl, rfl⟩, ok⟩ | ⟨isDefault, ok⟩⟩ := ok
      · have name : before.tagNameInText localName uri = ⟨some nsPrefix, localName⟩ := by
          simp [tagNameInText, given, roomFor_of_ok went, result?, named, notDefault]
        obtain ⟨inValue, _, noted, notes, ok⟩ | ⟨notValue, ok⟩ := ok
        · exact .inr ⟨asked, nsPrefix, found, middle, divided, noted, name, named, prefixed, colon,
            .inl ⟨inValue, notes⟩, ok⟩
        · exact .inr ⟨asked, nsPrefix, found, middle, divided, divided, name, named, prefixed, colon,
            .inr ⟨notValue, rfl⟩, ok⟩
      · exact .inl ⟨by simp [tagNameInText, given, roomFor_of_ok went, of_not_not isDefault], ok⟩

theorem putQualifiedName_notes {localName : String} {uri : Option String}
    (grounded : before.Grounded) (ok : putQualifiedName localName uri before = .ok () after) :
    ∃ room, advance .text before = .ok () room ∧ after.phase = room.phase ∧
      (room.phase = .attribute →
        room.draft.Notes (before.tagNameInText localName uri).nsPrefix after.draft) := by
  obtain ⟨room, went, ⟨name, ok⟩ | ⟨_, nsPrefix, found, middle, divided, noted, name, named, prefixed,
    colon, notes, ok⟩⟩ := putQualifiedName_split ok
  · obtain ⟨phase, elements⟩ := emitText_keeps ok
    have top : after.draft.top = room.draft.top := congrArg ElementStack.top elements
    rw [name]
    exact ⟨room, went, phase, fun _ => .of_top ⟨fun _ => id, by simp, .inl rfl⟩ top⟩
  · have qualifies := (textPrefixFor_ok (grounded.advance went).sound named).2
    obtain ⟨firstPhase, firstElements⟩ := emitText_keeps prefixed
    obtain ⟨secondPhase, secondElements⟩ := emitText_keeps colon
    obtain ⟨lastPhase, lastElements⟩ := emitText_keeps ok
    have elements : divided.elements = found.elements := secondElements.trans firstElements
    have phase : divided.phase = room.phase :=
      (secondPhase.trans firstPhase).trans qualifies.frames.phase
    rw [name]
    obtain ⟨_, notes⟩ | ⟨notValue, rfl⟩ := notes
    · have result := (modifyTop_ok notes).2
      have notedPhase : noted.phase = divided.phase := congrArg Draft.phase result
      have top : after.draft.top = (found.draft.notePrefix nsPrefix).top := by
        have notedTop := congrArg Draft.elements result
        simp only [draft_elements, Draft.modifyTop, elements] at notedTop
        rw [Draft.top, draft_elements, lastElements, notedTop]
        rfl
      exact ⟨room, went, (lastPhase.trans notedPhase).trans phase,
        fun _ => qualifies.counts.notePrefix.of_top top⟩
    · exact ⟨room, went, lastPhase.trans phase,
        fun inValue => absurd (phase.trans inValue) notValue⟩

theorem noted_putQualifiedName {tag : TagNames} {localName : String} {uri : Option String}
    (ready : before.Ready) (grounded : before.Grounded) (noted : tag.Noted before.top)
    (ok : putQualifiedName localName uri before = .ok () after) (atTag : after.draft.AtTag) :
    (tag.add (before.tagNameInText localName uri)
      ((before.roomFor .text).madeUp after)).Noted after.top := by
  obtain ⟨room, went, phase, notes⟩ := putQualifiedName_notes grounded ok
  have inRoom : room.draft.AtTag := by
    rw [Draft.AtTag, draft_phase, ← phase]
    exact atTag
  obtain ⟨same, inValue⟩ := sameTag_of_text ready.sound went inRoom
  have inside : 0 < room.depth := by
    rw [(local_advance _ went).depth]
    exact ready.placed.inside same.atTag
  rw [roomFor_of_ok went]
  exact noted_add (grounded.advance went) inside (noted.of_naming same.naming) (notes inValue)

/-! ## Calls -/

theorem Does.sameTag {own : List Event} (does : before.Does own after)
    (quiet : ∀ event ∈ own, event.isNaming = false) (atTag : after.draft.AtTag) :
    before.draft.SameTag after.draft := by
  obtain ⟨events, text, runs, owned⟩ := does
  exact runs.path.sameTag (all_of_own owned quiet fun _ => Event.isNaming_of_completes) atTag

theorem Owns.quiet {call : Call} {own : List Event} (owns : Owns before call own)
    (other : call.isNaming = false) : ∀ event ∈ own, event.isNaming = false := by
  cases owns with
  | startElement | startAttribute | attributeString | elementString | qualified => cases other
  | query | flush | noText | endElement | fullEndElement | endAttribute => simp
  | _ => exact List.forall_mem_singleton.mpr rfl

theorem madeUp_congr (same : after.top.prefixCount = before.top.prefixCount) :
    room.madeUp after = room.madeUp before := by
  rw [madeUp, madeUp, same]

theorem noted_attributeString {tag : TagNames} {request : NameRequest} {value : String}
    (ready : before.Ready) (grounded : before.Grounded) (noted : tag.Noted before.top)
    (ok : perform (.attributeString request value) before = .ok () after)
    (atTag : after.draft.AtTag) :
    (tag.add (before.tagNameOfAttribute request)
      ((before.roomFor .startAttribute).madeUp after)).Noted after.top := by
  simp only [perform, bind_eq_ok] at ok
  obtain ⟨_, opened, opens, _, filled, wrote, closes⟩ := ok
  obtain ⟨_, opens⟩ := guarded_ok opens
  obtain ⟨_, _, does, _⟩ := openAttribute_ok ready.sound opens
  obtain ⟨pieces, adds, fills⟩ := text_ok does.sound wrote
  obtain ⟨_, _, runs, completes, _⟩ :=
    advance_endAttribute_ok fills.sound.bindings (guarded_ok closes).2
  have quiet : ∀ event ∈ pieces, event.isNaming = false := by
    obtain rfl | ⟨kind, _, rfl⟩ := adds
    · simp
    · exact List.forall_mem_singleton.mpr rfl
  have ended := (runs.does completes).sameTag (by simp) atTag
  have filledTag := fills.sameTag quiet ended.atTag
  have naming := ended.naming.trans filledTag.naming
  have counts : after.top.prefixCount = opened.top.prefixCount := (Prod.mk.inj (Prod.mk.inj naming).2).2
  rw [madeUp_congr counts]
  exact (noted_openAttribute ready grounded noted opens filledTag.atTag).of_naming naming

theorem not_atTag_elementString {request : NameRequest} {value : Option String}
    (ready : before.Ready)
    (ok : perform (.elementString request value) before = .ok () after) : ¬after.draft.AtTag := by
  have closed {middle : Writer} {nothing : Unit} (sound : middle.bindings.Sound)
      (closes : guarded (closeElement false) middle = .ok nothing after) : ¬after.draft.AtTag := by
    obtain ⟨_, _, ends⟩ := closeElement_ok sound (guarded_ok closes).2
    rw [Draft.AtTag, draft_phase, ends.phase]
    simp [middle.draft.not_atTag_phaseAfterElement]
  cases value with
  | none =>
      simp only [perform, bind_eq_ok] at ok
      obtain ⟨_, opened, opens, closes⟩ := ok
      obtain ⟨_, _, does, _⟩ := openElement_ok ready.sound (guarded_ok opens).2
      exact closed does.sound.bindings closes
  | some value =>
      simp only [perform, bind_eq_ok] at ok
      obtain ⟨_, opened, opens, _, filled, wrote, closes⟩ := ok
      obtain ⟨_, _, does, _⟩ := openElement_ok ready.sound (guarded_ok opens).2
      obtain ⟨_, _, fills⟩ := text_ok does.sound wrote
      exact closed fills.sound.bindings closes

theorem noted_perform {tag : TagNames} {call : Call} (ready : before.Ready)
    (grounded : before.Grounded) (noted : tag.Noted before.top)
    (ok : perform call before = .ok () (before.step call).2)
    (atTag : (before.step call).2.draft.AtTag) (isOk : (before.step call).1.isOk = true) :
    (before.tagAfter tag call).Noted (before.step call).2.top := by
  simp only [tagAfter, atTag, isOk, not_true_eq_false, if_false]
  cases naming : call.isNaming with
  | true =>
      cases call with
      | startElement request => exact noted_openElement (guarded_ok ok).2
      | startAttribute request =>
          exact noted_openAttribute ready grounded noted (guarded_ok ok).2 atTag
      | attributeString request value => exact noted_attributeString ready grounded noted ok atTag
      | elementString request value => exact absurd atTag (not_atTag_elementString ready ok)
      | qualifiedName localName uri =>
          exact noted_putQualifiedName ready grounded noted (guarded_ok ok).2 atTag
      | _ => cases naming
  | false =>
      have stays : call ≠ .close := by
        rintro rfl
        rw [Draft.AtTag, draft_phase, shut_ok ok] at atTag
        simp at atTag
      obtain ⟨own, owns, does⟩ := perform_ok ready stays ok
      have same := does.sameTag (owns.quiet naming) atTag
      cases call with
      | startElement | startAttribute | attributeString | elementString | qualifiedName =>
          cases naming
      | _ => exact noted.of_naming same.naming

theorem not_atTag_of_spent (spent : before.Spent) : ¬before.draft.AtTag := by
  rw [Draft.AtTag, draft_phase]
  obtain failed | closed := spent
  · simp [failed]
  · simp [closed]

theorem noted_step {tag : TagNames} (state : before.Spent ∨ before.Ready) (grounded : before.Grounded)
    (noted : tag.Noted before.top) (call : Call) :
    ((before.step call).2.Spent ∨ (before.step call).2.Ready) ∧
      (before.tagAfter tag call).Noted (before.step call).2.top := by
  have outside (notAtTag : ¬(before.step call).2.draft.AtTag) :
      (before.tagAfter tag call).Noted (before.step call).2.top := by
    simp only [tagAfter, notAtTag, not_false_eq_true, if_true]
    exact TagNames.noted_empty _
  have spends (spent : (before.step call).2.Spent) :
      ((before.step call).2.Spent ∨ (before.step call).2.Ready) ∧
        (before.tagAfter tag call).Noted (before.step call).2.top :=
    ⟨.inl spent, outside (not_atTag_of_spent spent)⟩
  obtain spent | ready := state
  · exact spends (spent.step call)
  · by_cases isOk : (before.step call).1.isOk = true
    · have ok := step_ok isOk
      by_cases closes : call = .close
      · subst closes
        exact spends (.inr (shut_ok ok))
      · obtain ⟨own, _, does⟩ := perform_ok ready closes ok
        refine ⟨.inr (does.ready ready), ?_⟩
        by_cases atTag : (before.step call).2.draft.AtTag
        · exact noted_perform ready grounded noted ok atTag isOk
        · exact outside atTag
    · obtain ⟨error, fails⟩ := step_error isOk
      obtain ⟨same, _⟩ | failed | ⟨closed, _⟩ := perform_error fails
      · refine ⟨.inr (by rwa [same]), ?_⟩
        by_cases atTag : (before.step call).2.draft.AtTag
        · simp only [tagAfter, atTag, isOk, not_true_eq_false, if_false]
          rwa [same]
        · exact outside atTag
      · exact spends (.inl failed)
      · exact spends (.inr closed)

/-- What an element remembers of its start tag after some calls, by induction on them. -/
theorem noted_run {tag : TagNames} (state : before.Spent ∨ before.Ready) (grounded : before.Grounded)
    (noted : tag.Noted before.top) (calls : List Call) :
    ((before.run calls).2.Spent ∨ (before.run calls).2.Ready) ∧
      (before.tagNames tag calls).Noted (before.run calls).2.top := by
  induction calls generalizing before tag with
  | nil => exact ⟨state, noted⟩
  | cons call rest induction =>
      have after := noted_step state grounded noted call
      exact induction after.1 (grounded.step call) after.2

end Writer

end XmlStream
