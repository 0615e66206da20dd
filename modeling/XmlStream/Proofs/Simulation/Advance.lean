import XmlStream.Proofs.Simulation.Completion

namespace XmlStream.Writer

/-! Going on to a token. All that is open and must not be is completed first, and
leaves a draft in which the construct of the token can be written. -/

variable {before after : Writer}

/-! ## Values and start tags -/

theorem closeValue_ok {next : Phase} {nothing : Unit} (sound : before.bindings.Sound)
    (noPayload : before.payload = none)
    (leads : before.mode.next? .endAttribute before.phase = some next)
    (ok : closeValue before = .ok nothing after) :
    Completes before.draft before [.endAttribute] before.settings.quote.text
      (after.draft.enter next) after := by
  simp only [closeValue, bind_eq_ok, get_eq_ok] at ok
  obtain ⟨_, _, ⟨rfl, rfl⟩, ok⟩ := ok
  cases found : before.special with
  | none =>
      simp only [found] at ok
      obtain ⟨output, rfl, extended⟩ := emitQuote_ok ok
      have step : before.draft.Step .endAttribute _ _ :=
        .endAttribute next before.draft leads noPayload (by simp [found])
      exact .single step extended id ⟨rfl, rfl, rfl, rfl, rfl⟩ rfl
  | some special =>
      simp only [found, bind_eq_ok, modify_eq_ok] at ok
      obtain ⟨_, _, rfl, _, applied, applies, ok⟩ := ok
      have soundPlain : ({ before with special := none } : Writer).bindings.Sound := sound
      obtain ⟨silent, applies⟩ := applySpecial_ok soundPlain applies
      obtain ⟨output, rfl, extended⟩ := emitQuote_ok ok
      have frames := applies.frames
      have step : before.draft.Step .endAttribute _ _ :=
        .endAttribute next applied.draft leads noPayload
          (by simp only [draft_special, found]; exact applies)
      have sameSettings : applied.settings = before.settings := frames.settings
      rw [silent.output, sameSettings] at extended
      exact .single step extended (fun _ => silent.sound sound)
        ⟨frames.phase, frames.mode, frames.settings, silent.lastToken, frames.depth⟩ rfl

theorem next?_endAttribute (mode : Mode) : mode.next? .endAttribute .attribute = some .element := by
  cases mode <;> rfl

theorem endStartTag_ok {draft : Draft} {nothing : Unit} (sound : before.bindings.Sound)
    (inTag : draft = before.draft.enter .element)
    (ok : closeStartTag false before = .ok nothing after) :
    Completes draft before [.endStartTag] (before.draft.owedText ++ ">")
      (after.draft.enter .content) after := by
  obtain ⟨extended, settled, soundAfter, keeps⟩ := closeStartTag_ok sound ok
  have step : draft.Step .endStartTag _ _ := .endStartTag (by rw [inTag]; rfl)
  rw [settled]
  subst inTag
  exact .single step extended (fun _ => soundAfter) keeps rfl

def phaseBetween : Phase → Phase
  | .element | .attribute => .content
  | phase => phase

theorem phaseBetween_eq {phase : Phase} (notElement : phase ≠ .element)
    (notAttribute : phase ≠ .attribute) : phaseBetween phase = phase := by
  cases phase <;> simp_all [phaseBetween]

theorem phaseBetween_eq_start {phase : Phase} (start : phaseBetween phase = .start) :
    phase = .start := by
  cases phase <;> simp_all [phaseBetween]

theorem closeOpenTag_ok {nothing : Unit} (sound : before.bindings.Sound)
    (noPayload : before.payload = none) (ok : closeOpenTag before = .ok nothing after) :
    ∃ events text, Completes before.draft before events text
      (after.draft.enter (phaseBetween before.phase)) after := by
  simp only [closeOpenTag, bind_eq_ok, get_eq_ok] at ok
  obtain ⟨_, _, ⟨rfl, rfl⟩, ok⟩ := ok
  by_cases inValue : before.phase = .attribute
  · simp only [inValue, bind_eq_ok] at ok
    obtain ⟨_, middle, closed, ok⟩ := ok
    have value := closeValue_ok sound noPayload (by rw [inValue, next?_endAttribute]) closed
    have tag := endStartTag_ok (value.sound sound) rfl ok
    rw [inValue]
    exact ⟨_, _, value.trans tag⟩
  by_cases inTag : before.phase = .element
  · simp only [inTag] at ok
    have same : before.draft = before.draft.enter .element := by
      rw [← inTag]
      rfl
    rw [inTag]
    exact ⟨_, _, endStartTag_ok sound same ok⟩
  · simp only [pure_eq_ok, true_and] at ok
    subst ok
    rw [phaseBetween_eq inTag inValue]
    exact ⟨_, _, .refl _ _⟩

/-! ## Tokens -/

/-- A writer has gone on to a token: its document has come to `draft`, where the token
can stand, and `lead` is the text of the token that is written already. -/
structure Advances (token : Token) (mixes : Bool) (before : Writer) (events : List Event)
    (text lead : String) (draft : Draft) (after : Writer) : Prop where
  path : before.draft.Path events text draft
  events : ∀ event ∈ events, event.completes
  output : before.output.Extends (text ++ lead) after.output
  sound : after.bindings.Sound
  settings : draft.settings = before.settings
  leads : draft.mode.next? token draft.phase = some after.phase
  draft : after.draft =
    (if mixes then draft.markMixed else draft).enter after.phase
  lastToken : after.lastToken = some token

theorem advance_ok {token : Token} {nothing : Unit}
    (ok : advance token before = .ok nothing after) :
    ∃ next middle room written, before.nextPhase? token = some next ∧
      (token ≠ .base64 ∧ (∃ done, finishPayload before = .ok done middle) ∨
        token = .base64 ∧ middle = before) ∧
      makeRoom token next middle = .ok written room ∧
      after = { room with phase := next, lastToken := some written } := by
  simp only [advance, bind_eq_ok, get_eq_ok] at ok
  obtain ⟨_, _, ⟨rfl, rfl⟩, ok⟩ := ok
  cases found : before.nextPhase? token with
  | none => simp [found] at ok
  | some next =>
      simp only [found, ite_eq_ok, bind_eq_ok, modify_eq_ok] at ok
      obtain ⟨other, done, middle, finished, written, room, made, rfl⟩ |
        ⟨base64, written, room, made, rfl⟩ := ok
      · exact ⟨next, middle, room, written, rfl, .inl ⟨other, done, finished⟩, made, rfl⟩
      · exact ⟨next, before, room, written, rfl, .inr ⟨Decidable.not_not.mp base64, rfl⟩,
          made, rfl⟩

theorem next?_of_nextPhase? {token : Token} {next : Phase}
    (other : token ≠ .endElement ∧ token ≠ .separateEnd)
    (leads : before.nextPhase? token = some next) :
    before.mode.next? token before.phase = some next := by
  simp only [nextPhase?, Option.bind_eq_bind, Option.bind_eq_some_iff] at leads
  obtain ⟨found, leads, same⟩ := leads
  simp [other.1, other.2] at same
  rwa [← same]

theorem advance_split {token : Token} {nothing : Unit}
    (other : token ≠ .endElement ∧ token ≠ .separateEnd)
    (ok : advance token before = .ok nothing after) :
    ∃ events text middle room written,
      Completes before.draft before events text middle.draft middle ∧
      (token ≠ .base64 → middle.payload = none) ∧
      middle.mode.next? token middle.phase = some after.phase ∧
      makeRoom token after.phase middle = .ok written room ∧
      after = { room with phase := after.phase, lastToken := some written } := by
  obtain ⟨next, middle, room, written, leads, finished, made, rfl⟩ := advance_ok ok
  obtain ⟨_, _, finished⟩ | ⟨base64, rfl⟩ := finished
  · obtain ⟨events, text, completes, noPayload, _⟩ := finishPayload_ok finished
    refine ⟨events, text, middle, room, written, completes, fun _ => noPayload, ?_, made, rfl⟩
    rw [completes.keeps.mode, completes.keeps.phase]
    exact next?_of_nextPhase? other leads
  · subst base64
    exact ⟨[], "", middle, room, written, .refl _ _, by simp, next?_of_nextPhase? other leads,
      made, rfl⟩

def reached (room : Writer) (token : Token) (mixes : Bool) (next : Phase) : Writer :=
  { room with
    elements :=
      if mixes then room.elements.modifyTop fun element => { element with mixed := true }
      else room.elements
    phase := next
    lastToken := some token }

theorem Completes.advances {events : List Event} {text lead : String} {draft : Draft}
    {room last : Writer} (whole : Completes before.draft before events text draft room)
    (token : Token) (mixes : Bool) {next : Phase}
    (same : draft = room.draft.enter draft.phase)
    (wrote : room.Writes lead last) (sound : before.bindings.Sound)
    (leads : draft.mode.next? token draft.phase = some next) :
    Advances token mixes before events text lead draft (last.reached token mixes next) := by
  obtain ⟨output, rfl, extended⟩ := wrote
  exact
    { path := whole.path
      events := whole.events
      output := whole.output.trans extended
      sound := whole.sound sound
      leads := leads
      draft := by
        rw [same]
        cases mixes <;> rfl
      settings := by
        rw [same]
        exact whole.keeps.settings
      lastToken := rfl }

theorem next?_phaseBetween {mode : Mode} {token : Token} {phase next : Phase}
    (markup : token = .startElement ∨ token = .comment ∨ token = .processingInstruction ∨
      token = .cdata)
    (leads : mode.next? token phase = some next) :
    mode.next? token (phaseBetween phase) = some next ∧ phaseBetween phase ≠ .element ∧
      phaseBetween phase ≠ .attribute ∧ phaseBetween phase ≠ .topAttribute := by
  have all : (mode.next? token phase).all (fun next =>
      mode.next? token (phaseBetween phase) = some next ∧ phaseBetween phase ≠ .element ∧
        phaseBetween phase ≠ .attribute ∧ phaseBetween phase ≠ .topAttribute) = true := by
    obtain rfl | rfl | rfl | rfl := markup <;> cases mode <;> cases phase <;> rfl
  rw [leads] at all
  exact of_decide_eq_true all

theorem indentNext_ok {nothing : Unit} (draft : Draft)
    (room : draft = before.draft.enter draft.phase) (between : draft.Between)
    (start : draft.phase = .start → before.phase = .start)
    (ok : indentNext before = .ok nothing after) :
    ∃ events text, Completes draft before events text draft after ∧ before.Writes text after := by
  simp only [indentNext, bind_eq_ok, get_eq_ok, ite_eq_ok, pure_eq_ok, true_and,
    Bool.and_eq_true, decide_eq_true_eq] at ok
  obtain ⟨_, _, ⟨rfl, rfl⟩, ⟨⟨indents, notStart⟩, ok⟩ | ⟨_, rfl⟩⟩ := ok
  · have settings : draft.settings = before.settings := by rw [room]; rfl
    have elements : draft.elements = before.elements := by rw [room]; rfl
    exact indent_ok settings elements between indents (notStart ∘ start) (by simp) ok
  · exact ⟨[], "", .refl _ _, .refl _⟩

theorem advance_markup_ok {token : Token} {nothing : Unit} (sound : before.bindings.Sound)
    (markup : token = .startElement ∨ token = .comment ∨ token = .processingInstruction)
    (ok : advance token before = .ok nothing after) :
    ∃ events text draft, Advances token false before events text "" draft after ∧
      draft.Between ∧ draft.payload = none := by
  obtain ⟨events, text, middle, room, written, finished, noPayload, leads, made, result⟩ :=
    advance_split (by obtain rfl | rfl | rfl := markup <;> simp) ok
  have noPayload := noPayload (by obtain rfl | rfl | rfl := markup <;> simp)
  obtain ⟨leads, between⟩ := next?_phaseBetween (by tauto) leads
  have steps : (closeOpenTag >>= fun _ => indentNext >>= fun _ => pure token) middle =
      .ok written room := by
    obtain rfl | rfl | rfl := markup <;> simpa [makeRoom] using made
  simp only [bind_eq_ok, pure_eq_ok] at steps
  obtain ⟨_, inside, closed, _, _, indented, rfl, rfl⟩ := steps
  obtain ⟨_, _, tag⟩ := closeOpenTag_ok (finished.sound sound) noPayload closed
  obtain ⟨_, _, line, output, rfl, _⟩ := indentNext_ok
    (inside.draft.enter (phaseBetween middle.phase)) rfl between
    (fun start => tag.keeps.phase.trans (phaseBetween_eq_start start)) indented
  have advances := ((finished.trans tag).trans line).advances token false rfl (.refl _)
    sound (by rw [← leads, ← tag.keeps.mode]; rfl)
  rw [result]
  exact ⟨_, _, _, advances, between, payload_of_completes tag.path tag.events noPayload⟩

theorem advance_cdata_ok {nothing : Unit} (sound : before.bindings.Sound)
    (ok : advance .cdata before = .ok nothing after) :
    ∃ events text draft, Advances .cdata true before events text "" draft after ∧
      draft.Between := by
  obtain ⟨events, text, middle, room, written, finished, noPayload, leads, made, result⟩ :=
    advance_split (by simp) ok
  obtain ⟨leads, between⟩ := next?_phaseBetween (by simp) leads
  simp only [makeRoom, bind_eq_ok, get_eq_ok, pure_eq_ok, markMixed, modifyTop,
    modify_eq_ok] at made
  obtain ⟨_, _, ⟨rfl, rfl⟩, _, inside, closed, _, _, rfl, rfl, rfl⟩ := made
  obtain ⟨_, _, tag⟩ := closeOpenTag_ok (finished.sound sound) (noPayload (by simp)) closed
  have advances := (finished.trans tag).advances .cdata true rfl (.refl _) sound
    (by rw [← leads, ← tag.keeps.mode]; rfl)
  rw [result]
  exact ⟨_, _, _, advances, between⟩

theorem advance_doctype_ok {nothing : Unit} (sound : before.bindings.Sound)
    (ok : advance .doctype before = .ok nothing after) :
    ∃ events text draft, Advances .doctype false before events text "" draft after := by
  obtain ⟨events, text, middle, room, written, finished, noPayload, leads, made, result⟩ :=
    advance_split (by simp) ok
  have between : middle.draft.Between := by
    rw [Draft.Between, draft_phase]
    refine ⟨?_, ?_, ?_⟩ <;>
    · intro phase
      rw [phase] at leads
      cases mode : middle.mode <;> rw [mode] at leads <;> cases leads
  simp only [makeRoom, bind_eq_ok, get_eq_ok, pure_eq_ok] at made
  obtain ⟨_, _, ⟨rfl, rfl⟩, _, _, indented, rfl, rfl⟩ := made
  obtain ⟨_, _, line, output, rfl, _⟩ :=
    indentNext_ok middle.draft rfl between id indented
  have advances := (finished.trans line).advances .doctype false rfl (.refl _) sound leads
  rw [result]
  exact ⟨_, _, _, advances⟩

/-! ## Text -/

def phaseOfText : Phase → Phase
  | .element => .content
  | phase => phase

theorem phaseOfText_eq {phase : Phase} (other : phase ≠ .element) : phaseOfText phase = phase := by
  cases phase <;> simp_all [phaseOfText]

theorem next?_phaseOfText {mode : Mode} {token : Token} {phase next : Phase}
    (textual : token = .text ∨ token = .raw ∨ token = .whitespace ∨ token = .base64)
    (leads : mode.next? token phase = some next) :
    mode.next? token (phaseOfText phase) = some next ∧ phaseOfText phase ≠ .element := by
  have all : (mode.next? token phase).all (fun next =>
      mode.next? token (phaseOfText phase) = some next ∧ phaseOfText phase ≠ .element) = true := by
    obtain rfl | rfl | rfl | rfl := textual <;> cases mode <;> cases phase <;> rfl
  rw [leads] at all
  exact of_decide_eq_true all

theorem makeRoom_text_ok {token written : Token} {next : Phase} {room : Writer}
    (open_ : before.phase = .element → before.lastToken ≠ some .text)
    (textual : token = .text ∨ token = .raw ∨ token = .whitespace ∨ token = .base64)
    (ok : makeRoom token next before = .ok written room) :
    ∃ inside, (before.phase = .element ∧ (∃ done, closeStartTag false before = .ok done inside) ∨
        before.phase ≠ .element ∧ inside = before) ∧ written = token ∧
      room.reached token false next = inside.reached token (next = .content) next := by
  have steps : ∃ inside, (before.phase = .element ∧
        (∃ done, closeStartTag false before = .ok done inside) ∨
        before.phase ≠ .element ∧ inside = before) ∧
      (next = .content ∧ (∃ done, markMixed inside = .ok done room) ∨
        next ≠ .content ∧ inside = room) ∧ written = token := by
    obtain rfl | rfl | rfl | rfl := textual
    all_goals
      simp only [makeRoom, bind_eq_ok, get_eq_ok, ite_eq_ok, pure_eq_ok, Bool.and_eq_true,
        decide_eq_true_eq] at ok
      obtain ⟨_, _, ⟨rfl, rfl⟩, ⟨⟨inTag, _⟩, done, inside, closed, ok⟩ | ⟨other, ok⟩⟩ := ok
      · refine ⟨inside, .inl ⟨inTag, done, closed⟩, ?_⟩
        obtain ⟨isContent, done, _, marked, rfl, rfl⟩ | ⟨other, rfl, rfl⟩ := ok
        · exact ⟨.inl ⟨isContent, done, marked⟩, rfl⟩
        · exact ⟨.inr ⟨other, rfl⟩, rfl⟩
      · refine ⟨before, .inr ⟨fun inTag => other ⟨inTag, open_ inTag⟩, rfl⟩, ?_⟩
        obtain ⟨isContent, done, _, marked, rfl, rfl⟩ | ⟨other, rfl, rfl⟩ := ok
        · exact ⟨.inl ⟨isContent, done, marked⟩, rfl⟩
        · exact ⟨.inr ⟨other, rfl⟩, rfl⟩
  obtain ⟨inside, closes, mixes, rfl⟩ := steps
  refine ⟨inside, closes, rfl, ?_⟩
  obtain ⟨rfl, _, marked⟩ | ⟨other, rfl⟩ := mixes
  · simp only [markMixed, modifyTop, modify_eq_ok] at marked
    subst marked
    rfl
  · simp [reached, other]

theorem advance_text_ok {token : Token} {nothing : Unit} (sound : before.Sound)
    (textual : token = .text ∨ token = .raw ∨ token = .whitespace ∨ token = .base64)
    (ok : advance token before = .ok nothing after) :
    ∃ events text draft,
      Advances token (after.phase = .content) before events text "" draft after ∧
        draft.phase ≠ .element := by
  obtain ⟨events, text, middle, room, written, finished, noPayload, leads, made, result⟩ :=
    advance_split (by obtain rfl | rfl | rfl | rfl := textual <;> simp) ok
  obtain ⟨leads, notElement⟩ := next?_phaseOfText textual leads
  have open_ : middle.phase = .element → middle.lastToken ≠ some .text := by
    rw [finished.keeps.phase, finished.keeps.lastToken]
    exact sound.lastToken
  obtain ⟨inside, closes, rfl, reaches⟩ := makeRoom_text_ok open_ textual made
  have result : after = inside.reached written (after.phase = .content) after.phase := by
    rw [← reaches]
    exact result
  have closed : ∃ events text, Completes before.draft before events text
      (inside.draft.enter (phaseOfText middle.phase)) inside := by
    obtain ⟨inTag, _, closed⟩ | ⟨other, rfl⟩ := closes
    · have same : middle.draft = middle.draft.enter .element := by
        rw [← inTag]
        rfl
      have tag := endStartTag_ok (finished.sound sound.bindings) same closed
      rw [inTag]
      exact ⟨_, _, finished.trans tag⟩
    · rw [phaseOfText_eq other]
      exact ⟨_, _, finished⟩
  obtain ⟨events, text, whole⟩ := closed
  have sameMode : inside.mode = middle.mode := whole.keeps.mode.trans finished.keeps.mode.symm
  have advances := whole.advances written (after.phase = .content) rfl (.refl _) sound.bindings
    (by rw [← leads, ← sameMode]; rfl)
  rw [← result] at advances
  exact ⟨_, _, _, advances, notElement⟩

/-! ## Attributes -/

theorem advance_startAttribute_ok {nothing : Unit} (sound : before.bindings.Sound)
    (ok : advance .startAttribute before = .ok nothing after) :
    ∃ events text draft, Advances .startAttribute false before events text
        (if draft.phase = .element then " " else "") draft after ∧ draft.phase ≠ .attribute := by
  obtain ⟨events, text, middle, room, written, finished, noPayload, leads, made, result⟩ :=
    advance_split (by simp) ok
  simp only [makeRoom, bind_eq_ok, get_eq_ok, ite_eq_ok, pure_eq_ok, Bool.or_eq_true,
    decide_eq_true_eq] at made
  obtain ⟨_, _, ⟨rfl, rfl⟩, ⟨inValue, _, inside, closed, made⟩ | ⟨notValue, made⟩⟩ := made
  · simp only [inValue, true_or, true_and, not_true_eq_false, false_and, or_false] at made
    obtain ⟨_, last, emitted, rfl, rfl⟩ := made
    have value := closeValue_ok (finished.sound sound) (noPayload (by simp))
      (by rw [inValue, next?_endAttribute]) closed
    have sameMode : inside.mode = middle.mode := value.keeps.mode
    have advances := (finished.trans value).advances .startAttribute false rfl
      (emit_ok emitted) sound
      (show inside.mode.next? .startAttribute .element = some after.phase by
        rw [sameMode, ← leads, inValue]
        cases middle.mode <;> rfl)
    rw [result]
    exact ⟨_, _, (inside.draft.enter .element), advances, by simp⟩
  · obtain ⟨inTag, _, last, emitted, rfl, rfl⟩ | ⟨other, rfl, rfl⟩ := made
    · have inTag := inTag.resolve_left notValue
      have advances := finished.advances .startAttribute false rfl (emit_ok emitted) sound leads
      rw [result]
      refine ⟨events, text, middle.draft, ?_, notValue⟩
      rw [draft_phase, if_pos inTag]
      exact advances
    · have advances := finished.advances .startAttribute false rfl (.refl _) sound leads
      rw [result]
      refine ⟨events, text, middle.draft, ?_, notValue⟩
      rw [draft_phase, if_neg (other ∘ .inr)]
      exact advances

structure Runs (before : Writer) (events : List Event) (text : String) (after : Writer) :
    Prop where
  path : before.draft.Path events text after.draft
  output : before.output.Extends text after.output
  sound : after.Sound

theorem Runs.trans {first second third : Writer} {events later : List Event}
    {text more : String} (earlier : first.Runs events text second)
    (rest : second.Runs later more third) :
    first.Runs (events ++ later) (text ++ more) third where
  path := earlier.path.append rest.path
  output := earlier.output.trans rest.output
  sound := rest.sound

theorem Runs.refl {writer : Writer} (sound : writer.Sound) : writer.Runs [] "" writer where
  path := .nil _
  output := .refl _
  sound := sound

theorem Advances.runs {token : Token} {mixes : Bool} {events : List Event}
    {text lead more : String} {draft : Draft} {event : Event} {room : Writer}
    (advances : Advances token mixes before events text lead draft room)
    (output : room.output.Extends more after.output) (sound : after.Sound)
    (step : draft.Step event (lead ++ more) after.draft) :
    before.Runs (events ++ [event]) (text ++ (lead ++ more)) after where
  path := advances.path.append (.single step)
  output := by
    rw [← String.append_assoc]
    exact advances.output.trans output
  sound := sound

theorem advance_endAttribute_ok {nothing : Unit} (sound : before.bindings.Sound)
    (ok : advance .endAttribute before = .ok nothing after) :
    ∃ events text, before.Runs events text after ∧ (∀ event ∈ events, event.completes) ∧
      before.mode.next? .endAttribute before.phase = some after.phase ∧
      after.mode = before.mode ∧ after.depth = before.depth := by
  obtain ⟨events, text, middle, room, written, finished, noPayload, leads, made, result⟩ :=
    advance_split (by simp) ok
  simp only [makeRoom, bind_eq_ok, get_eq_ok, pure_eq_ok] at made
  obtain ⟨_, _, ⟨rfl, rfl⟩, _, _, closed, rfl, rfl⟩ := made
  have value := closeValue_ok (finished.sound sound) (noPayload (by simp)) leads closed
  have whole := finished.trans value
  have leadsBefore : before.mode.next? .endAttribute before.phase = some after.phase := by
    rw [← finished.keeps.mode, ← finished.keeps.phase]
    exact leads
  refine ⟨_, _, (⟨?_, ?_, ?_⟩ : before.Runs _ (text ++ middle.settings.quote.text) after),
    whole.events, leadsBefore, ?_, ?_⟩
  · rw [result]
    exact whole.path
  · rw [result]
    exact whole.output
  · rw [result]
    exact ⟨whole.sound sound, by simp⟩
  · rw [result]
    exact whole.keeps.mode
  · rw [result]
    exact whole.keeps.depth

end XmlStream.Writer
