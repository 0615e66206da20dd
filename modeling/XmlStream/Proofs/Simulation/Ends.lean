import XmlStream.Proofs.Simulation.Advance

namespace XmlStream.Writer

/-! Ending elements. An element without content ends with its start tag; any other one
gets an end tag. -/

variable {before after : Writer}

theorem phases_of_nextPhase? {token : Token} {next : Phase}
    (isEnd : token = .endElement ∨ token = .separateEnd)
    (leads : before.nextPhase? token = some next) :
    (before.phase = .attribute ∨ before.phase = .element ∨ before.phase = .content) ∧
      next = before.draft.phaseAfterElement := by
  simp only [nextPhase?, Option.bind_eq_bind, Option.bind_eq_some_iff] at leads
  obtain ⟨found, leads, same⟩ := leads
  have all : (before.mode.next? token before.phase).all (fun next =>
      (before.phase = .attribute ∨ before.phase = .element ∨ before.phase = .content) ∧
        next = .content) = true := by
    obtain rfl | rfl := isEnd <;> cases before.mode <;> cases before.phase <;> rfl
  rw [leads] at all
  obtain ⟨phases, rfl⟩ := of_decide_eq_true all
  refine ⟨phases, ?_⟩
  have ends : (token = .endElement || token = .separateEnd) = true := by
    obtain rfl | rfl := isEnd <;> rfl
  simp only [ends, Bool.true_and, Bool.and_eq_true, decide_eq_true_eq] at same
  rw [Draft.phaseAfterElement]
  rw [← Option.some_inj, ← same, apply_ite some]
  rfl

theorem closeTag_ok {token written : Token} {room : Writer}
    (isEnd : token = .endElement ∨ token = .separateEnd) (sound : before.bindings.Sound)
    {events : List Event} {text : String} {first : Writer}
    (earlier : Completes first.draft first events text (before.draft.enter .element)
      before)
    (ok : (closeStartTag (token = .endElement) >>= fun _ => pure token : Action Token) before =
      .ok written room) :
    (written = .separateEnd ∧ ∃ events text,
        Completes first.draft first events text (room.draft.enter .content) room) ∨
      (written = .endElement ∧ ∃ events text middle done,
        Completes first.draft first events text (middle.draft.enter .element) middle ∧
          closeStartTag true middle = .ok done room) := by
  simp only [bind_eq_ok, pure_eq_ok] at ok
  obtain ⟨done, _, closed, rfl, rfl⟩ := ok
  obtain rfl | rfl := isEnd
  · exact .inr ⟨rfl, _, _, before, done, earlier, closed⟩
  · exact .inl ⟨rfl, _, _, earlier.trans (endStartTag_ok sound rfl closed)⟩

theorem makeRoom_end_ok {token written : Token} {next : Phase} {room : Writer}
    (isEnd : token = .endElement ∨ token = .separateEnd) (sound : before.bindings.Sound)
    (noPayload : before.payload = none)
    (phases : before.phase = .attribute ∨ before.phase = .element ∨ before.phase = .content)
    (ok : makeRoom token next before = .ok written room) :
    (written = .separateEnd ∧ ∃ events text,
        Completes before.draft before events text (room.draft.enter .content) room) ∨
      (written = .endElement ∧ ∃ events text middle done,
        Completes before.draft before events text (middle.draft.enter .element) middle ∧
          closeStartTag true middle = .ok done room) := by
  have steps : ((if before.phase = .attribute then closeValue else pure ()) >>= fun _ =>
      if before.phase = .content then pure .separateEnd
      else closeStartTag (token = .endElement) >>= fun _ => pure token) before =
      .ok written room := by
    obtain rfl | rfl := isEnd <;> obtain phase | phase | phase := phases <;>
      simpa [makeRoom, phase] using ok
  obtain phase | phase | phase := phases
  · simp only [phase, if_true, bind_eq_ok] at steps
    obtain ⟨_, middle, closed, steps⟩ := steps
    have value := closeValue_ok sound noPayload (by rw [phase, next?_endAttribute]) closed
    exact closeTag_ok isEnd (value.sound sound) value (by simpa using steps)
  · have same : before.draft = before.draft.enter .element := by
      rw [← phase]
      rfl
    simp only [phase, reduceCtorEq, if_false, pure_bind] at steps
    have nothing : Completes before.draft before [] "" (before.draft.enter .element)
        before := by
      rw [← same]
      exact .refl _ _
    exact closeTag_ok isEnd sound nothing steps
  · have same : before.draft = before.draft.enter .content := by
      rw [← phase]
      rfl
    simp only [phase, reduceCtorEq, if_false, if_true, pure_bind, pure_eq_ok] at steps
    obtain ⟨rfl, rfl⟩ := steps
    refine .inl ⟨rfl, [], "", ?_⟩
    rw [← same]
    exact .refl _ _

def popped (writer : Writer) : Writer :=
  { writer with
    bindings := writer.bindings.popTo writer.top.bindingMark
    elements := writer.elements.pop }

theorem draft_popped (writer : Writer) : writer.popped.draft = writer.draft.pop := by
  simp only [popped, draft, Bindings.scope_popTo]
  rfl

theorem endTag_ok {room lined last : Writer} {draft : Draft} {nothing : Unit}
    (inContent : draft = room.draft.enter .content) (inside : 0 < room.depth)
    (noPayload : room.payload = none)
    (lines : room.indents = true ∧ (∃ done, indent true room = .ok done lined) ∨
      ¬room.indents = true ∧ room = lined)
    (emitted : emit ("</" ++ writtenName room.top.nsPrefix room.top.name ++ ">") lined =
      .ok nothing last) :
    ∃ events text,
      draft.Path events text (last.popped.draft.enter draft.phaseAfterElement) ∧
      room.output.Extends text last.output ∧ last = { room with output := last.output } ∧
      ∀ event ∈ events, event.completes := by
  have line : ∃ events text, Completes draft room events text draft lined ∧
      room.Writes text lined := by
    obtain ⟨wants, _, indented⟩ | ⟨_, rfl⟩ := lines
    · subst inContent
      exact indent_ok rfl rfl (by simp [Draft.Between]) wants (by simp)
        (fun _ => ⟨rfl, inside⟩) indented
    · exact ⟨[], "", .refl _ _, .refl _⟩
  obtain ⟨events, text, line, _, rfl, _⟩ := line
  obtain ⟨output, rfl, extended⟩ := emit_ok emitted
  subst inContent
  have step : (room.draft.enter .content).Step .endTag _ _ :=
    .endTag rfl inside noPayload
  refine ⟨events ++ [.endTag], _, line.path.append (.single ?_), line.output.trans extended,
    rfl, ?_⟩
  · rw [draft_popped]
    exact step
  · intro event member
    obtain member | member := List.mem_append.mp member
    · exact line.events event member
    · rw [List.mem_singleton.mp member]
      rfl

theorem Keeps.phaseAfterElement (keeps : before.Keeps after) (phase : Phase) :
    (after.draft.enter phase).phaseAfterElement = before.draft.phaseAfterElement := by
  have mode := keeps.mode
  have depth := keeps.depth
  simp only [Draft.phaseAfterElement, draft_mode, draft_depth, ← mode, ← depth]
  rfl

structure Ends (before : Writer) (events : List Event) (text : String) (after : Writer) :
    Prop where
  runs : before.Runs events text after
  events : ∀ event ∈ events, event.completes
  depth : after.depth + 1 = before.depth
  mode : after.mode = before.mode
  phase : after.phase = before.draft.phaseAfterElement
  payload : after.payload = none

def endToken (separate : Bool) : Token := if separate then .separateEnd else .endElement

theorem isEnd_endToken (separate : Bool) :
    endToken separate = .endElement ∨ endToken separate = .separateEnd := by
  cases separate <;> simp [endToken]

def leaveElement : Action Unit := do
  let writer ← get
  if writer.lastToken = some .separateEnd then
    if writer.indents then indent true
    emit ("</" ++ writtenName writer.top.nsPrefix writer.top.name ++ ">")
  modify popped

theorem closeElement_eq (separate : Bool) (writer : Writer) :
    closeElement separate writer =
      if writer.depth = 0 && writer.phase ≠ .failed then .error .noOpenElement writer
      else (advance (endToken separate) >>= fun _ => leaveElement) writer := by
  rw [closeElement, get_bind_eq]
  split <;> rfl

theorem depth_popped (writer : Writer) : writer.popped.depth = writer.depth - 1 := by
  simp [popped, depth, ElementStack.pop, ElementStack.depth]

theorem phaseAfterElement_ne_element (draft : Draft) : draft.phaseAfterElement ≠ .element := by
  unfold Draft.phaseAfterElement
  split <;> simp

theorem Completes.ends {draft : Draft} {room last : Writer} {events later : List Event}
    {text more : String} (whole : Completes before.draft before events text draft room)
    (path : draft.Path later more (last.popped.draft.enter last.phase))
    (completes : ∀ event ∈ later, event.completes)
    (output : room.output.Extends more last.output) (sound : last.bindings.Sound)
    (inside : 0 < before.depth) (keeps : room.depth = last.depth ∧ room.mode = last.mode)
    (phase : last.phase = before.draft.phaseAfterElement) (payload : draft.payload = none) :
    Ends before (events ++ later) (text ++ more) last.popped where
  runs :=
    { path := whole.path.append path
      output := whole.output.trans output
      sound :=
        { bindings := sound.popTo _
          lastToken := fun inTag => absurd (phase.symm.trans inTag)
            (phaseAfterElement_ne_element _) } }
  events event member :=
    (List.mem_append.mp member).elim (whole.events event) (completes event)
  depth := by
    rw [depth_popped, ← keeps.1, whole.keeps.depth]
    omega
  mode := keeps.2.symm.trans whole.keeps.mode
  phase := phase
  payload := payload_of_completes path completes payload

theorem closeElement_ok {separate : Bool} {nothing : Unit} (sound : before.bindings.Sound)
    (ok : closeElement separate before = .ok nothing after) :
    ∃ events text, Ends before events text after := by
  simp only [closeElement, bind_eq_ok, get_eq_ok, refuse_bind_eq_ok, Bool.and_eq_true,
    decide_eq_true_eq] at ok
  obtain ⟨_, _, ⟨rfl, rfl⟩, open_, _, advanced, went, _, _, ⟨rfl, rfl⟩, ok⟩ := ok
  obtain ⟨next, middle, room, written, leads, finished, made, rfl⟩ := advance_ok went
  have isEnd : (if separate = true then Token.separateEnd else .endElement) = .endElement ∨
      (if separate = true then Token.separateEnd else .endElement) = .separateEnd :=
    isEnd_endToken separate
  generalize (if separate = true then Token.separateEnd else .endElement) = token
    at isEnd leads finished made
  obtain ⟨_, _, finished⟩ | ⟨base64, _⟩ := finished
  swap
  · subst base64
    simp at isEnd
  obtain ⟨_, _, payload, noPayload, _⟩ := finishPayload_ok finished
  obtain ⟨phases, rfl⟩ := phases_of_nextPhase? isEnd leads
  have inside : 0 < before.depth := by
    apply Nat.pos_of_ne_zero
    intro outside
    apply open_
    refine ⟨outside, ?_⟩
    obtain phase | phase | phase := phases <;> simp [phase]
  have ends := makeRoom_end_ok isEnd (payload.sound sound) noPayload
    (by rwa [payload.keeps.phase]) made
  obtain ⟨rfl, _, _, tag⟩ | ⟨rfl, _, _, last, _, tag, closed⟩ := ends
  -- An end tag of its own stands on a new line if the element is indented.
  · have whole := payload.trans tag
    simp only [if_true, bind_eq_ok, ite_eq_ok, modify_eq_ok] at ok
    let advanced : Writer :=
      { room with phase := before.draft.phaseAfterElement, lastToken := some .separateEnd }
    have parts : ∃ lined last, (advanced.indents = true ∧
          (∃ done, indent true advanced = .ok done lined) ∨
          ¬advanced.indents = true ∧ advanced = lined) ∧
        (∃ done, emit ("</" ++ writtenName advanced.top.nsPrefix advanced.top.name ++ ">") lined =
          .ok done last) ∧ last.popped = after := by
      obtain ⟨wants, done, lined, indented, _, last, emitted, result⟩ |
        ⟨plain, _, last, emitted, result⟩ := ok
      · exact ⟨lined, last, .inl ⟨wants, done, indented⟩, ⟨_, emitted⟩, result⟩
      · exact ⟨advanced, last, .inr ⟨plain, rfl⟩, ⟨_, emitted⟩, result⟩
    obtain ⟨lined, last, lines, ⟨_, emitted⟩, rfl⟩ := parts
    have insideStill : 0 < advanced.depth := by
      rw [← whole.keeps.depth] at inside
      exact inside
    have paid := payload_of_completes tag.path tag.events noPayload
    obtain ⟨_, _, path, output, kept, completes⟩ := endTag_ok rfl insideStill paid lines emitted
    have phase : (advanced.draft.enter .content).phaseAfterElement =
        last.phase := by
      rw [kept]
      exact whole.keeps.phaseAfterElement .content
    rw [phase] at path
    refine ⟨_, _, whole.ends path completes output ?_ inside ⟨?_, ?_⟩ ?_ paid⟩
    · rw [kept]
      exact whole.sound sound
    · rw [kept]
      rfl
    · rw [kept]
    · rw [kept]
  -- A start tag that has become the whole element has written the end already.
  · have whole := payload.trans tag
    simp only [Option.some.injEq, reduceCtorEq, if_false, modify_eq_ok] at ok
    obtain ⟨output, settled, soundRoom, keeps⟩ := closeStartTag_ok (whole.sound sound) closed
    have phase := whole.keeps.phaseAfterElement .element
    have insideStill : 0 < last.depth := by rwa [whole.keeps.depth]
    have step : (last.draft.enter .element).Step .endEmptyTag _ _ :=
      .endEmptyTag rfl insideStill
    rw [phase] at step
    subst ok
    let gone : Writer :=
      { room with phase := before.draft.phaseAfterElement, lastToken := some .endElement }
    have result : (gone.popped.draft.enter gone.phase) =
        (last.draft.enter .element).settle.pop.enter before.draft.phaseAfterElement := by
      have popped : gone.popped.draft = room.draft.pop.enter gone.phase :=
        draft_popped gone
      rw [popped, settled]
      rfl
    rw [← result] at step
    have ended : Ends before _ _ gone.popped :=
      whole.ends (.single step) (by simp [Event.completes]) output soundRoom inside
        ⟨keeps.depth.symm, keeps.mode.symm⟩ rfl
        (payload_of_completes tag.path tag.events noPayload)
    exact ⟨_, _, ended⟩

end XmlStream.Writer
