import XmlStream.Proofs.Simulation.Naming

namespace XmlStream

/-! Completing what is open, as steps of the draft. A writer changes its phase only
when it goes on to the next token, so the phase of the draft runs ahead of it here. -/

namespace Writer

variable {before after : Writer}

/-- What no completion changes in a writer. -/
structure Keeps (before after : Writer) : Prop where
  phase : after.phase = before.phase
  mode : after.mode = before.mode
  settings : after.settings = before.settings
  lastToken : after.lastToken = before.lastToken
  depth : after.depth = before.depth

theorem Keeps.refl (writer : Writer) : writer.Keeps writer := ⟨rfl, rfl, rfl, rfl, rfl⟩

theorem Keeps.trans {first second third : Writer} (earlier : first.Keeps second)
    (later : second.Keeps third) : first.Keeps third where
  phase := later.phase.trans earlier.phase
  mode := later.mode.trans earlier.mode
  settings := later.settings.trans earlier.settings
  lastToken := later.lastToken.trans earlier.lastToken
  depth := later.depth.trans earlier.depth

/-- A writer whose document has come to one draft takes the steps to another one, which
complete constructs only. -/
structure Completes (draft : Draft) (before : Writer) (events : List Event) (text : String)
    (next : Draft) (after : Writer) : Prop where
  path : draft.Path events text next
  output : before.output.Extends text after.output
  sound : before.bindings.Sound → after.bindings.Sound
  keeps : before.Keeps after
  events : ∀ event ∈ events, event.completes

theorem Completes.refl (draft : Draft) (writer : Writer) :
    Completes draft writer [] "" draft writer where
  path := .nil draft
  output := .refl _
  sound := id
  keeps := .refl writer
  events := by simp

theorem Completes.trans {first second third : Draft} {writer middle last : Writer}
    {events later : List Event} {text more : String}
    (earlier : Completes first writer events text second middle)
    (rest : Completes second middle later more third last) :
    Completes first writer (events ++ later) (text ++ more) third last where
  path := earlier.path.append rest.path
  output := earlier.output.trans rest.output
  sound := rest.sound ∘ earlier.sound
  keeps := earlier.keeps.trans rest.keeps
  events event member := (List.mem_append.mp member).elim (earlier.events event) (rest.events event)

theorem Completes.single {draft next : Draft} {event : Event} {text : String}
    (step : draft.Step event text next) (output : before.output.Extends text after.output)
    (sound : before.bindings.Sound → after.bindings.Sound) (keeps : before.Keeps after)
    (completes : event.completes) : Completes draft before [event] text next after where
  path := .single step
  output := output
  sound := sound
  keeps := keeps
  events := by simpa using completes

/-! ## Payloads -/

theorem finishPayload_of_none (noPayload : before.payload = none) :
    finishPayload before = .ok () before := by
  have paid : before.unflushed = false := Draft.payload_eq_none.mp noPayload
  simp [finishPayload, get_bind_eq, paid, pure, EStateM.pure]

theorem finishPayload_of_unflushed (pending : before.unflushed = true) :
    finishPayload before = (emitVerbatim (String.ofList before.carry.lastGroup) >>= fun _ =>
      modify fun writer => { writer with unflushed := false } : Action Unit)
        { before with carry := .empty } := by
  rw [finishPayload, get_bind_eq, if_pos pending]
  rfl

theorem finishPayload_cases {nothing : Unit} (ok : finishPayload before = .ok nothing after) :
    before.unflushed = false ∧ after = before ∨
      before.unflushed = true ∧ ∃ output,
        before.output.Extends (String.ofList before.carry.lastGroup) output ∧
        after = { before.captured (String.ofList before.carry.lastGroup) with
          output, carry := .empty, unflushed := false } := by
  simp only [finishPayload, bind_eq_ok, get_eq_ok] at ok
  obtain ⟨_, _, ⟨rfl, rfl⟩, ok⟩ := ok
  cases pending : before.unflushed with
  | false =>
      simp only [pending, Bool.false_eq_true, if_false, pure_eq_ok, true_and] at ok
      exact .inl ⟨rfl, ok.symm⟩
  | true =>
      simp only [pending, if_true, bind_eq_ok, modify_eq_ok] at ok
      obtain ⟨_, _, rfl, _, _, wrote, rfl⟩ := ok
      obtain ⟨output, rfl, extended⟩ := emitVerbatim_ok wrote
      exact .inr ⟨rfl, output, extended, rfl⟩

theorem finishPayload_ok {nothing : Unit} (ok : finishPayload before = .ok nothing after) :
    ∃ events text, Completes before.draft before events text after.draft after ∧
      after.payload = none ∧ (before.payload = none → after = before) := by
  obtain ⟨paid, rfl⟩ | ⟨pending, output, extended, rfl⟩ := finishPayload_cases ok
  · exact ⟨[], "", .refl _ _, Draft.payload_eq_none.mpr paid, fun _ => rfl⟩
  · have step : before.draft.Step .endPayload _ _ := .endPayload pending
    refine ⟨_, _, .single step extended id ⟨rfl, rfl, rfl, rfl, rfl⟩ rfl, rfl, fun none => ?_⟩
    cases pending.symm.trans (Draft.payload_eq_none.mp none)

theorem payload_of_completes {draft next : Draft} {events : List Event} {text : String}
    (path : draft.Path events text next) (completes : ∀ event ∈ events, event.completes)
    (noPayload : draft.payload = none) : next.payload = none := by
  induction path with
  | nil => exact noPayload
  | cons step _ induction =>
      apply induction (fun event member => completes event (List.mem_cons_of_mem _ member))
      cases step with
      | line | endStartTag | endEmptyTag | endTag => exact noPayload
      | endPayload => rfl
      | endAttribute next after leads _ applies =>
          split at applies
          · exact applies.frames.payload.trans noPayload
          · rw [applies]
            exact noPayload
      | _ => exact absurd (completes _ List.mem_cons_self) (by simp [Event.completes])

theorem special_of_completes {draft next : Draft} {events : List Event} {text : String}
    (path : draft.Path events text next) (completes : ∀ event ∈ events, event.completes) :
    next.special = none ∨ next.special.map (·.kind) = draft.special.map (·.kind) := by
  induction path with
  | nil => exact .inr rfl
  | @cons first second _ _ _ _ _ step _ induction =>
      have later := induction fun event member => completes event (List.mem_cons_of_mem _ member)
      have now : second.special = none ∨
          second.special.map (·.kind) = first.special.map (·.kind) := by
        cases step with
        | line | endStartTag | endEmptyTag | endTag => exact .inr rfl
        | endPayload =>
            simp only [Draft.capture, Option.map_map]
            exact .inr rfl
        | endAttribute next after leads _ applies =>
            split at applies
            · exact .inl applies.frames.special
            · rename_i noSpecial
              rw [applies]
              exact .inl noSpecial
        | _ => exact absurd (completes _ List.mem_cons_self) (by simp [Event.completes])
      obtain none | same := later
      · exact .inl none
      · obtain none | sameNow := now
        · rw [none] at same
          exact .inl (by simpa using same)
        · exact .inr (same.trans sameNow)

theorem start_of_completes {draft next : Draft} {events : List Event} {text : String}
    (path : draft.Path events text next) (completes : ∀ event ∈ events, event.completes)
    (start : draft.phase = .start) : next.phase = .start ∧ next.mode = draft.mode := by
  induction path with
  | nil => exact ⟨start, rfl⟩
  | @cons first second _ _ _ _ _ step _ induction =>
      have later := induction fun event member => completes event (List.mem_cons_of_mem _ member)
      cases step with
      | line _ _ _ notStart => exact absurd start notStart
      | endPayload => exact later start
      | endStartTag inTag => exact absurd (start.symm.trans inTag) (by simp)
      | endEmptyTag inTag => exact absurd (start.symm.trans inTag) (by simp)
      | endTag inContent => exact absurd (start.symm.trans inContent) (by simp)
      | endAttribute next after leads =>
          rw [start] at leads
          cases mode : first.mode <;> rw [mode] at leads <;> cases leads
      | _ => exact absurd (completes _ List.mem_cons_self) (by simp [Event.completes])

/-! ## Lines -/

theorem indent_ok {draft : Draft} {beforeEnd : Bool} {nothing : Unit}
    (sameSettings : draft.settings = before.settings)
    (sameElements : draft.elements = before.elements) (between : draft.Between)
    (indents : before.indents = true) (notStart : draft.phase ≠ .start)
    (inContent : beforeEnd → draft.phase = .content ∧ 0 < draft.depth)
    (ok : indent beforeEnd before = .ok nothing after) :
    ∃ events text, Completes draft before events text draft after ∧ before.Writes text after := by
  have sameDepth : draft.depth = before.depth := congrArg ElementStack.depth sameElements
  have sameTop : draft.top = before.top := congrArg ElementStack.top sameElements
  have indents' : draft.settings.indents = true := by rw [sameSettings]; exact indents
  have finished (wrote : before.Writes (draft.lineText beforeEnd) after)
      (plain : draft.depth > 0 → draft.top.mixed = false) :
      ∃ events text, Completes draft before events text draft after ∧ before.Writes text after := by
    obtain ⟨output, rfl, extended⟩ := wrote
    have step := Draft.Step.line beforeEnd between indents' notStart plain inContent
    exact ⟨_, _, .single step extended id ⟨rfl, rfl, rfl, rfl, rfl⟩ rfl, output, rfl, extended⟩
  simp only [indent, bind_eq_ok, get_eq_ok] at ok
  obtain ⟨_, _, ⟨rfl, rfl⟩, ok⟩ := ok
  by_cases outside : before.depth = 0
  · simp only [outside, if_true] at ok
    refine finished ?_ (by omega)
    rw [Draft.lineText, if_pos (sameDepth.trans outside)]
    exact emit_ok ok
  · by_cases mixed : before.top.mixed = true
    · simp only [outside, mixed, Bool.not_true, if_false, Bool.false_eq_true, pure_eq_ok,
        true_and] at ok
      subst ok
      exact ⟨[], "", .refl _ _, .refl _⟩
    · simp only [outside, mixed, Bool.not_false, if_false, if_true] at ok
      refine finished ?_ (by simp [sameTop, mixed])
      rw [Draft.lineText, if_neg (by omega), sameDepth, sameSettings]
      exact emit_ok ok

/-! ## Start tags -/

theorem emitDeclaration_ok {quote : Quote} {binding : Binding} {nothing : Unit}
    (ok : emitDeclaration quote binding before = .ok nothing after) :
    before.Writes (Draft.declarationText quote binding.bare) after := by
  simp only [emitDeclaration, bind_eq_ok] at ok
  obtain ⟨_, _, first, _, _, second, _, _, third, _, _, fourth, _, _, fifth, last⟩ := ok
  exact (((((emit_ok first).trans (emitEscaped_ok second)).trans (emit_ok third)).trans
    (emit_ok fourth)).trans (emitEscaped_ok fifth)).trans (emit_ok last)

theorem forM_emitDeclaration_ok {quote : Quote} {owed : List (Nat × Binding)} {nothing : PUnit}
    (ok : (owed.forM fun (_, binding) => emitDeclaration quote binding : Action PUnit) before =
      .ok nothing after) :
    before.Writes ((owed.map fun entry => Draft.declarationText quote entry.2.bare).foldr
      (· ++ ·) "") after := by
  induction owed generalizing before with
  | nil =>
      simp only [List.forM, pure_eq_ok, true_and] at ok
      subst ok
      exact .refl before
  | cons entry rest induction =>
      simp only [List.forM, bind_eq_ok] at ok
      obtain ⟨_, _, first, ok⟩ := ok
      exact (emitDeclaration_ok first).trans (induction ok)

theorem scope_foldl_setDeclared (owed : List (Nat × Binding)) (bindings : Bindings) :
    (owed.foldl (fun bindings (position, _) => bindings.setDeclared position) bindings).scope =
      (owed.map fun entry => (entry.2.bare, entry.1)).foldl
        (fun scope entry => scope.declare entry.2) bindings.scope := by
  induction owed generalizing bindings with
  | nil => rfl
  | cons entry rest induction =>
      rw [List.foldl_cons, induction, Bindings.scope_setDeclared]
      rfl

theorem sound_foldl_setDeclared {bindings : Bindings} (sound : bindings.Sound)
    (owed : List (Nat × Binding)) :
    (owed.foldl (fun bindings (position, _) => bindings.setDeclared position) bindings).Sound := by
  induction owed generalizing bindings with
  | nil => exact sound
  | cons entry rest induction => exact induction (sound.setDeclared entry.1)

theorem emitDefaultDeclaration_ok {quote : Quote} {nothing : Unit}
    (ok : emitDefaultDeclaration quote before = .ok nothing after) :
    before.output.Extends
        (if before.draft.owesDefault then Draft.defaultText quote before.top.defaultUri else "")
        after.output ∧
      after = { before with
        output := after.output
        elements :=
          if before.draft.owesDefault then
            before.elements.modifyTop fun element => { element with defaultNamespace := .written }
          else before.elements } := by
  simp only [emitDefaultDeclaration, bind_eq_ok, get_eq_ok] at ok
  obtain ⟨_, _, ⟨rfl, rfl⟩, ok⟩ := ok
  have same : before.draft.owesDefault = (before.depth > 0 &&
      before.top.defaultUri ≠ before.elements.parent.defaultUri &&
      before.top.defaultNamespace = .owed) := rfl
  rw [← same] at ok
  cases owes : before.draft.owesDefault with
  | false =>
      simp only [owes, Bool.false_eq_true, if_false, pure_eq_ok, true_and] at ok
      subst ok
      exact ⟨.refl _, rfl⟩
  | true =>
      simp only [owes, if_true, bind_eq_ok, modifyTop, modify_eq_ok] at ok
      obtain ⟨_, _, first, _, _, second, _, _, third, _, _, last, rfl⟩ := ok
      obtain ⟨output, rfl, extended⟩ := (((emit_ok first).trans (emit_ok second)).trans
        (emitEscaped_ok third)).trans (emit_ok last)
      exact ⟨extended, rfl⟩

theorem closeStartTag_ok {isEmpty : Bool} {nothing : Unit} (sound : before.bindings.Sound)
    (ok : closeStartTag isEmpty before = .ok nothing after) :
    before.output.Extends (before.draft.owedText ++ if isEmpty then " />" else ">")
        after.output ∧
      after.draft = before.draft.settle ∧ after.bindings.Sound ∧ before.Keeps after := by
  simp only [closeStartTag, bind_eq_ok, get_eq_ok, modify_eq_ok] at ok
  obtain ⟨_, _, ⟨rfl, rfl⟩, _, _, wrote, _, _, rfl, _, _, default, ok⟩ := ok
  obtain ⟨output, rfl, declared⟩ := forM_emitDeclaration_ok wrote
  obtain ⟨extended, rest⟩ := emitDefaultDeclaration_ok default
  obtain ⟨last, rfl, ended⟩ := emit_ok ok
  have owed := sound.owed_eq before.top.bindingMark
  refine ⟨?_, ?_, ?_, ?_⟩
  · have texts : ((before.bindings.owed before.top.bindingMark).map fun entry =>
        Draft.declarationText before.settings.quote entry.2.bare) =
        (before.draft.scope.owed before.draft.top.bindingMark).map fun entry =>
          Draft.declarationText before.settings.quote entry.1 := by
      simp [← owed]
    rw [texts] at declared
    exact (declared.trans extended).trans ended
  · rw [rest]
    simp only [draft, Draft.settle, scope_foldl_setDeclared, owed]
    rfl
  · rw [rest]
    exact sound_foldl_setDeclared sound _
  · rw [rest]
    refine ⟨rfl, rfl, rfl, rfl, ?_⟩
    simp only [depth]
    split <;> simp

end Writer

end XmlStream
