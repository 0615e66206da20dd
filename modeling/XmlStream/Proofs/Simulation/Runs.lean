import XmlStream.Proofs.Simulation.Calls

namespace XmlStream

/-! Runs of calls. A writer that has not failed and is not closed is ready: its document
is one that steps of the draft lead to. -/

/-- Calls that neither write nor end anything: questions, settings that can be changed
anywhere, and empty text. -/
inductive Call.Idle : Call → Prop
  | query (question : Query) : Idle (.query question)
  | setFormatting (formatting : Formatting) : Idle (.setFormatting formatting)
  | setIndentation (width : Width) : Idle (.setIndentation width)
  | setIndentChar (character : Char) : Idle (.setIndentChar character)
  | setQuoteChar (character : Char) : Idle (.setQuoteChar character)
  | emptyText : Idle (.text "")

namespace Writer

variable {before after : Writer}

theorem ready_create (output : OutputBuffer) (settings : Settings) :
    (create output settings).Ready where
  sound := ⟨(Bindings.sound_of_index_eq_none rfl).push _ _ _, by simp [create]⟩
  placed := ⟨by simp [create], fun _ => rfl, by simp [create], by simp [create],
    fun some => absurd rfl some⟩
  layered := by
    have scope : (create output settings).draft.scope = [Draft.xmlBinding] := rfl
    refine ⟨by rw [scope]; rfl, ?_, by simp [create], rfl, fun _ => ⟨rfl, scope⟩⟩
    simp [create, Draft.Marked]
  carried := fun some => absurd rfl some

/-! ## Calls that succeed -/

theorem answered_eq (action : Action Unit) (writer : Writer) :
    (do action; return Answer.done : Action Answer) writer = match action writer with
      | .ok _ after => .ok .done after
      | .error error after => .error error after := by
  cases made : action writer with
  | ok _ after => exact bind_eq_ok.mpr ⟨_, _, made, rfl⟩
  | error error after => exact bind_eq_error.mpr (.inl made)

theorem step_eq (writer : Writer) (request : Call) :
    ∃ answer, writer.step request = match perform request writer with
      | .ok _ after => (.ok answer, after)
      | .error error after => (.error error, after) := by
  by_cases question : ∃ question, request = .query question
  · obtain ⟨question, rfl⟩ := question
    exact ⟨writer.answer question, rfl⟩
  · have same : call request writer = match perform request writer with
        | .ok _ after => .ok .done after
        | .error error after => .error error after := by
      cases request
      case query question => exact absurd ⟨_, rfl⟩ question
      all_goals exact answered_eq _ writer
    refine ⟨.done, ?_⟩
    rw [step, same]
    cases perform request writer <;> rfl

theorem step_ok {request : Call} (ok : (before.step request).1.isOk = true) :
    perform request before = .ok () (before.step request).2 := by
  obtain ⟨answer, steps⟩ := step_eq before request
  rw [steps] at ok ⊢
  cases made : perform request before with
  | ok _ after => rfl
  | error error after => simp [made, Except.isOk, Except.toBool] at ok

theorem step_of_error {call : Call} {error : WriterError}
    (fails : perform call before = .error error after) :
    before.step call = (.error error, after) := by
  rcases step_eq before call with ⟨answer, steps⟩
  rw [steps, fails]

theorem step_error {request : Call} (fails : (before.step request).1.isOk ≠ true) :
    ∃ error, perform request before = .error error (before.step request).2 := by
  obtain ⟨answer, steps⟩ := step_eq before request
  rw [steps] at fails ⊢
  cases made : perform request before with
  | ok _ after => simp [made, Except.isOk, Except.toBool] at fails
  | error error after => exact ⟨error, rfl⟩

def Accepts (writer : Writer) (calls : List Call) : Prop :=
  ∀ answer ∈ (writer.run calls).1, answer.isOk = true

theorem accepts_cons {call : Call} {calls : List Call} :
    before.Accepts (call :: calls) ↔
      (before.step call).1.isOk = true ∧ (before.step call).2.Accepts calls := by
  simp [Accepts, run]

theorem run_append (writer : Writer) (calls more : List Call) :
    writer.run (calls ++ more) =
      ((writer.run calls).1 ++ ((writer.run calls).2.run more).1,
        ((writer.run calls).2.run more).2) := by
  induction calls generalizing writer with
  | nil => rfl
  | cons call rest induction => simp [run, induction]

theorem accepts_append {calls more : List Call} :
    before.Accepts (calls ++ more) ↔
      before.Accepts calls ∧ (before.run calls).2.Accepts more := by
  simp [Accepts, run_append, or_imp, forall_and]

/-- A run of calls that succeed, with the events that are theirs. -/
inductive Follows : Writer → List Call → List Event → Writer → Prop
  | nil (writer : Writer) : Follows writer [] [] writer
  | cons {first second last : Writer} {call : Call} {calls : List Call} {own more : List Event}
      (owns : Owns first call own) (does : first.Does own second)
      (rest : Follows second calls more last) :
      Follows first (call :: calls) (own ++ more) last

theorem Follows.does {calls : List Call} {own : List Event} (sound : before.Sound)
    (follows : Follows before calls own after) : before.Does own after := by
  induction follows with
  | nil writer => exact .refl sound
  | cons owns does rest induction => exact does.trans (induction does.sound)

theorem run_ok {calls : List Call} (ready : before.Ready) (accepts : before.Accepts calls)
    (stays : ∀ call ∈ calls, call ≠ .close) :
    ∃ own, Follows before calls own (before.run calls).2 := by
  induction calls generalizing before with
  | nil => exact ⟨[], .nil before⟩
  | cons call rest induction =>
      obtain ⟨ok, accepts⟩ := accepts_cons.mp accepts
      obtain ⟨own, owns, does⟩ := perform_ok ready (stays call List.mem_cons_self) (step_ok ok)
      obtain ⟨more, follows⟩ := induction (does.ready ready) accepts
        fun call member => stays call (List.mem_cons_of_mem _ member)
      exact ⟨own ++ more, .cons owns does follows⟩

/-! ## Calls that fail -/

theorem guarded_error {call : Action Unit} {error : WriterError}
    (fails : guarded call before = .error error after) :
    after.phase = .failed ∨ after.phase = .closed ∧ error = .closed := by
  unfold guarded at fails
  split at fails
  · rename_i closed
    simp only [EStateM.Result.error.injEq] at fails
    obtain ⟨rfl, rfl⟩ := fails
    exact .inr ⟨closed, rfl⟩
  · split at fails
    · simp at fails
    · simp only [EStateM.Result.error.injEq] at fails
      exact .inl (by rw [← fails.2])

/-- A failed or closed writer. -/
def Spent (writer : Writer) : Prop := writer.phase = .failed ∨ writer.phase = .closed

theorem configure_error {call : Call} {setting : Setting} {error : WriterError}
    (sets : call.Sets setting) (fails : perform call before = .error error after) :
    after = before ∧ error = .locked := by
  cases sets with
  | namespaces enabled =>
      simp only [perform, setNamespaces, bind_eq_error, get_eq_error, get_eq_ok, ite_eq_error,
        throw_eq_error, set_eq_error, false_or, throw_eq_ok, exists_false, and_false, or_false] at fails
      obtain ⟨_, _, ⟨rfl, rfl⟩, _, rfl, rfl⟩ := fails
      exact ⟨rfl, rfl⟩
  | formatting formatting => simp [perform] at fails
  | indentation width => simp [perform] at fails
  | indentChar character => simp [perform] at fails
  | quote character quote stands => 
      simp only [perform, setQuoteChar, quoteFor, stands, bind_eq_error, get_eq_error,
        get_eq_ok, ite_eq_error, throw_eq_error, set_eq_error, false_or, throw_eq_ok,
        exists_false, and_false, or_false] at fails
      obtain ⟨_, _, ⟨rfl, rfl⟩, _, rfl, rfl⟩ := fails
      exact ⟨rfl, rfl⟩

/-- A call that fails leaves the writer failed or closed, or is refused without any harm. -/
theorem perform_error {call : Call} {error : WriterError}
    (fails : perform call before = .error error after) :
    (after = before ∧ ∀ cause, error ≠ .sink cause) ∨ after.phase = .failed ∨
      after.phase = .closed ∧ (error = .closed ∨ call = .close) := by
  have refused {setting : Setting} (sets : call.Sets setting) :
      after = before ∧ ∀ cause, error ≠ .sink cause := by
    obtain ⟨same, rfl⟩ := configure_error sets fails
    exact ⟨same, by simp⟩
  have spent {action : Action Unit} {writer : Writer}
      (fails : guarded action writer = .error error after) :
      after.phase = .failed ∨ after.phase = .closed ∧ (error = .closed ∨ call = .close) := by
    obtain failed | ⟨closed, rfl⟩ := guarded_error fails
    · exact .inl failed
    · exact .inr ⟨closed, .inl rfl⟩
  cases call with
  | query question => simp [perform] at fails
  | setNamespaces enabled => exact .inl (refused (.namespaces enabled))
  | setFormatting formatting => exact .inl (refused (.formatting formatting))
  | setIndentation width => exact .inl (refused (.indentation width))
  | setIndentChar character => exact .inl (refused (.indentChar character))
  | setQuoteChar character =>
      cases stands : Quote.ofChar? character with
      | none =>
          simp only [perform, setQuoteChar, quoteFor, stands, throw_eq_error] at fails
          exact .inl ⟨fails.2.symm, by simp [← fails.1]⟩
      | some quote => exact .inl (refused (.quote character quote stands))
  | attributeString request value =>
      simp only [perform, bind_eq_error] at fails
      obtain fails | ⟨_, _, _, fails | ⟨_, _, _, fails⟩⟩ := fails <;>
        exact .inr (spent fails)
  | elementString request value =>
      cases value <;> simp only [perform, bind_eq_error] at fails
      · obtain fails | ⟨_, _, _, fails⟩ := fails <;> exact .inr (spent fails)
      · obtain fails | ⟨_, _, _, fails | ⟨_, _, _, fails⟩⟩ := fails <;>
          exact .inr (spent fails)
  | close =>
      simp only [perform, shut, bind_eq_error, get_eq_error, get_eq_ok, false_or, ite_eq_error,
        pure_eq_error, and_false, or_false, tryCatch_eq_error, report, modify_eq_error,
        exists_false, modify_eq_ok] at fails
      obtain ⟨_, _, ⟨rfl, rfl⟩, _, _, _, _, _, _, rfl, fails⟩ := fails
      obtain ⟨_, _, _, _, rfl⟩ := onOutput_error fails
      exact .inr (.inr ⟨rfl, .inr rfl⟩)
  | _ => exact .inr (spent fails)

theorem advance_failed {token : Token} {nothing : Unit} (failed : before.phase = .failed)
    (ok : advance token before = .ok nothing after) : False := by
  obtain ⟨next, _, _, _, leads, _⟩ := advance_ok ok
  have none : before.mode.next? token .failed = none := by
    cases before.mode <;> cases token <;> rfl
  simp [nextPhase?, failed, none] at leads

theorem shut_ok {nothing : Unit} (ok : shut before = .ok nothing after) :
    after.phase = .closed := by
  simp only [shut, bind_eq_ok, get_eq_ok, ite_eq_ok, modify_eq_ok, pure_eq_ok, true_and, ne_eq,
    Decidable.not_not] at ok
  obtain ⟨_, _, ⟨rfl, rfl⟩, ⟨_, _, _, _, _, _, rfl, ok⟩ | ⟨closed, rfl⟩⟩ := ok
  · obtain ⟨_, _, rfl⟩ := onOutput_ok ok
    rfl
  · exact closed

theorem configure_phase {call : Call} {setting : Setting} {nothing : Unit}
    (sets : call.Sets setting) (ok : perform call before = .ok nothing after) :
    after.phase = before.phase := by
  cases sets with
  | namespaces enabled =>
      simp only [perform, setNamespaces, bind_eq_ok, get_eq_ok, refuse_bind_eq_ok, set_eq_ok] at ok
      obtain ⟨_, _, ⟨rfl, rfl⟩, _, rfl⟩ := ok
      rfl
  | quote character quote stands =>
      simp only [perform, setQuoteChar, quoteFor, stands, bind_eq_ok, get_eq_ok,
        refuse_bind_eq_ok, set_eq_ok] at ok
      obtain ⟨_, _, ⟨rfl, rfl⟩, _, rfl⟩ := ok
      rfl
  | _ =>
      simp only [perform, modify_eq_ok] at ok
      subst ok
      rfl

theorem openElement_failed {request : NameRequest} {nothing : Unit}
    (failed : before.phase = .failed) (ok : openElement request before = .ok nothing after) :
    False := by
  simp only [openElement, bind_eq_ok, refuse_bind_eq_ok] at ok
  obtain ⟨_, _, checked, _, _, _, went, _⟩ := ok
  obtain ⟨rfl, _⟩ := checkRequest_ok checked
  exact advance_failed failed went

theorem openAttribute_failed {request : NameRequest} {nothing : Unit}
    (failed : before.phase = .failed) (ok : openAttribute request before = .ok nothing after) :
    False := by
  simp only [openAttribute, bind_eq_ok] at ok
  obtain ⟨_, _, checked, _, _, went, _⟩ := ok
  obtain ⟨rfl, _⟩ := checkRequest_ok checked
  exact advance_failed failed went

theorem closeElement_failed {separate : Bool} {nothing : Unit}
    (failed : before.phase = .failed) (ok : closeElement separate before = .ok nothing after) :
    False := by
  simp only [closeElement, bind_eq_ok, get_eq_ok, refuse_bind_eq_ok] at ok
  obtain ⟨_, _, ⟨rfl, rfl⟩, _, _, _, went, _⟩ := ok
  exact advance_failed failed went

/-- A failed or closed writer carries out idle calls only, but for pushing on what it has
written and for being closed. -/
theorem idle_of_perform {call : Call} {nothing : Unit} (spent : before.Spent)
    (ok : perform call before = .ok nothing after) :
    call.Idle ∨ call = .flush ∨ call = .close := by
  have fails {call : Action Unit} (ok : guarded call before = .ok nothing after) :
      before.phase = .failed ∧ call before = .ok () after :=
    ⟨spent.resolve_right (guarded_ok ok).1, (guarded_ok ok).2⟩
  -- A failed writer has no room for any token, so what needs some is not carried out.
  cases call with
  | query question => exact .inl (.query question)
  | setFormatting formatting => exact .inl (.setFormatting formatting)
  | setIndentation width => exact .inl (.setIndentation width)
  | setIndentChar character => exact .inl (.setIndentChar character)
  | setQuoteChar character => exact .inl (.setQuoteChar character)
  | flush => exact .inr (.inl rfl)
  | close => exact .inr (.inr rfl)
  | text text =>
      obtain ⟨failed, ok⟩ := fails ok
      simp only [putText, ite_eq_ok, bind_eq_ok, pure_eq_ok, true_and, ne_eq,
        Decidable.not_not] at ok
      obtain ⟨_, _, _, went, _⟩ | ⟨empty, _⟩ := ok
      · exact (advance_failed failed went).elim
      · exact .inl (empty ▸ .emptyText)
  | setNamespaces enabled =>
      simp only [perform, setNamespaces, bind_eq_ok, get_eq_ok, refuse_bind_eq_ok, ne_eq,
        Decidable.not_not] at ok
      obtain ⟨_, _, ⟨rfl, rfl⟩, start, _⟩ := ok
      simp [Spent, start] at spent
  | startDocument standalone =>
      obtain ⟨failed, ok⟩ := fails ok
      simp [beginDocument, failed] at ok
  | endDocument =>
      obtain ⟨failed, ok⟩ := fails ok
      simp [finishDocument, failed] at ok
  | doctype name publicId systemId subset =>
      obtain ⟨failed, ok⟩ := fails ok
      simp only [putDoctype, bind_eq_ok] at ok
      obtain ⟨_, _, checked, _, _, identified, _, _, went, _⟩ := ok
      obtain ⟨rfl, _⟩ := checkName_ok checked
      obtain ⟨rfl, _⟩ := externalId_ok identified
      exact (advance_failed failed went).elim
  | startElement request =>
      obtain ⟨failed, ok⟩ := fails ok
      exact (openElement_failed failed ok).elim
  | endElement | fullEndElement =>
      obtain ⟨failed, ok⟩ := fails ok
      exact (closeElement_failed failed ok).elim
  | startAttribute request =>
      obtain ⟨failed, ok⟩ := fails ok
      exact (openAttribute_failed failed ok).elim
  | endAttribute =>
      obtain ⟨failed, ok⟩ := fails ok
      exact (advance_failed failed ok).elim
  | attributeString request value =>
      simp only [perform, bind_eq_ok] at ok
      obtain ⟨_, _, opens, _⟩ := ok
      obtain ⟨notClosed, opens⟩ := guarded_ok opens
      exact (openAttribute_failed (spent.resolve_right notClosed) opens).elim
  | elementString request value =>
      have opens : ∃ done middle, guarded (openElement request) before = .ok done middle := by
        cases value <;> simp only [perform, bind_eq_ok] at ok <;>
          exact ⟨_, _, ok.choose_spec.choose_spec.1⟩
      obtain ⟨_, _, opens⟩ := opens
      obtain ⟨notClosed, opens⟩ := guarded_ok opens
      exact (openElement_failed (spent.resolve_right notClosed) opens).elim
  | cdata text =>
      obtain ⟨failed, ok⟩ := fails ok
      simp only [putCData, refuse_bind_eq_ok, bind_eq_ok] at ok
      obtain ⟨_, _, _, went, _⟩ := ok
      exact (advance_failed failed went).elim
  | comment text =>
      obtain ⟨failed, ok⟩ := fails ok
      simp only [putComment, refuse_bind_eq_ok, bind_eq_ok] at ok
      obtain ⟨_, _, _, went, _⟩ := ok
      exact (advance_failed failed went).elim
  | instruction target text =>
      obtain ⟨failed, ok⟩ := fails ok
      simp only [putInstruction, refuse_bind_eq_ok, bind_eq_ok, get_eq_ok] at ok
      obtain ⟨_, _, _, ⟨rfl, rfl⟩, _, _, _, checked, _, _, went, _⟩ := ok
      obtain ⟨rfl, _⟩ := checkName_ok checked
      exact (advance_failed failed went).elim
  | entity name =>
      obtain ⟨failed, ok⟩ := fails ok
      simp only [putEntity, bind_eq_ok] at ok
      obtain ⟨_, _, checked, _, _, went, _⟩ := ok
      obtain ⟨rfl, _⟩ := checkName_ok checked
      exact (advance_failed failed went).elim
  | name name =>
      obtain ⟨failed, ok⟩ := fails ok
      simp only [putName, bind_eq_ok] at ok
      obtain ⟨_, _, checked, _, _, went, _⟩ := ok
      obtain ⟨rfl, _⟩ := checkName_ok checked
      exact (advance_failed failed went).elim
  | qualifiedName localName uri =>
      obtain ⟨failed, ok⟩ := fails ok
      simp only [putQualifiedName, bind_eq_ok, get_eq_ok, refuse_bind_eq_ok] at ok
      obtain ⟨_, _, checked, _, _, ⟨rfl, rfl⟩, _, _, _, went, _⟩ := ok
      obtain ⟨rfl, _⟩ := checkName_ok checked
      exact (advance_failed failed went).elim
  | character code =>
      obtain ⟨failed, ok⟩ := fails ok
      cases found : xmlCharacter? code with
      | none => simp [putCharacter, found] at ok
      | some character =>
          simp only [putCharacter, found, bind_eq_ok] at ok
          obtain ⟨_, _, went, _⟩ := ok
          exact (advance_failed failed went).elim
  | surrogates low high =>
      obtain ⟨failed, ok⟩ := fails ok
      simp only [putSurrogates, refuse_bind_eq_ok, bind_eq_ok] at ok
      obtain ⟨_, _, _, _, went, _⟩ := ok
      exact (advance_failed failed went).elim
  | whitespace text =>
      obtain ⟨failed, ok⟩ := fails ok
      simp only [putWhitespace, refuse_bind_eq_ok, bind_eq_ok] at ok
      obtain ⟨_, _, _, went, _⟩ := ok
      exact (advance_failed failed went).elim
  | token name =>
      obtain ⟨failed, ok⟩ := fails ok
      simp only [putToken, refuse_bind_eq_ok, bind_eq_ok] at ok
      obtain ⟨_, _, _, went, _⟩ := ok
      exact (advance_failed failed went).elim
  | raw text =>
      obtain ⟨failed, ok⟩ := fails ok
      simp only [putRaw, bind_eq_ok] at ok
      obtain ⟨_, _, went, _⟩ := ok
      exact (advance_failed failed went).elim
  | base64 chunk =>
      obtain ⟨failed, ok⟩ := fails ok
      simp only [putBase64, bind_eq_ok] at ok
      obtain ⟨_, _, went, _⟩ := ok
      exact (advance_failed failed went).elim
  | hexadecimal bytes =>
      obtain ⟨failed, ok⟩ := fails ok
      simp only [putHexadecimal, bind_eq_ok] at ok
      obtain ⟨_, _, went, _⟩ := ok
      exact (advance_failed failed went).elim

theorem perform_spent {call : Call} {nothing : Unit} (spent : before.Spent)
    (ok : perform call before = .ok nothing after) : after.Spent := by
  have phase (same : after.phase = before.phase) : after.Spent := by
    rwa [Spent, same]
  obtain idle | rfl | rfl := idle_of_perform spent ok
  · cases idle with
    | query question =>
        simp only [perform, pure_eq_ok, true_and] at ok
        exact phase (by rw [ok])
    | setFormatting formatting => exact phase (configure_phase (.formatting formatting) ok)
    | setIndentation width => exact phase (configure_phase (.indentation width) ok)
    | setIndentChar character => exact phase (configure_phase (.indentChar character) ok)
    | setQuoteChar character =>
        cases stands : Quote.ofChar? character with
        | none => simp [perform, setQuoteChar, quoteFor, stands] at ok
        | some quote => exact phase (configure_phase (.quote character quote stands) ok)
    | emptyText =>
        have ok : guarded (putText "") before = .ok nothing after := ok
        obtain ⟨_, ok⟩ := guarded_ok ok
        simp only [putText, ne_eq, not_true_eq_false, if_false, pure_eq_ok, true_and] at ok
        exact phase (by rw [ok])
  · obtain ⟨_, _, rfl⟩ := onOutput_ok (guarded_ok ok).2
    exact phase rfl
  · exact .inr (shut_ok ok)

theorem not_spent_of_endDocument {nothing : Unit}
    (ok : perform .endDocument before = .ok nothing after) : ¬before.Spent := by
  obtain ⟨notClosed, ok⟩ := guarded_ok ok
  rintro (failed | closed)
  · simp [finishDocument, failed] at ok
  · exact notClosed closed

theorem phase_of_startDocument {standalone : Option Bool} {nothing : Unit}
    (ok : perform (.startDocument standalone) before = .ok nothing after) :
    before.phase = .start := by
  have ok := (guarded_ok ok).2
  by_contra started
  simp [beginDocument, started, ite_eq_ok] at ok

/-! ## Arbitrary runs -/

theorem Spent.step (spent : before.Spent) (request : Call) : (before.step request).2.Spent := by
  by_cases ok : (before.step request).1.isOk = true
  · exact perform_spent spent (step_ok ok)
  · obtain ⟨error, fails⟩ := step_error ok
    obtain ⟨same, _⟩ | failed | ⟨closed, _⟩ := perform_error fails
    · rwa [same]
    · exact .inl failed
    · exact .inr closed

theorem Spent.run (spent : before.Spent) (calls : List Call) : (before.run calls).2.Spent := by
  induction calls generalizing before with
  | nil => exact spent
  | cons call rest induction => exact induction (spent.step call)

/-- As long as a writer has not failed and is not closed, it is ready, and all that is kept by
the calls that succeed holds of it. -/
theorem run_keeps (Holds : Writer → Prop)
    (keeps : ∀ first call own second, first.Ready → Owns first call own →
      first.Does own second → Holds first → Holds second)
    (ready : before.Ready) (holds : Holds before) (calls : List Call) :
    (before.run calls).2.Spent ∨ (before.run calls).2.Ready ∧ Holds (before.run calls).2 := by
  -- A call that fails either changes nothing, or leaves a writer that stays spent.
  induction calls generalizing before with
  | nil => exact .inr ⟨ready, holds⟩
  | cons request rest induction =>
      have spends (spent : (before.step request).2.Spent) : (before.run (request :: rest)).2.Spent :=
        Spent.run spent rest
      by_cases ok : (before.step request).1.isOk = true
      · have performed := step_ok ok
        by_cases closes : request = .close
        · subst closes
          exact .inl (spends (.inr (shut_ok performed)))
        · obtain ⟨own, owns, does⟩ := perform_ok ready closes performed
          exact induction (does.ready ready) (keeps _ _ _ _ ready owns does holds)
      · obtain ⟨error, fails⟩ := step_error ok
        obtain ⟨same, _⟩ | failed | ⟨closed, _⟩ := perform_error fails
        · have readyNext : (before.step request).2.Ready := by rwa [same]
          have holdsNext : Holds (before.step request).2 := by rwa [same]
          exact induction readyNext holdsNext
        · exact .inl (spends (.inl failed))
        · exact .inl (spends (.inr closed))

theorem run_extends (ready : before.Ready) (calls : List Call) :
    (before.run calls).2.Spent ∨ (before.run calls).2.Ready ∧
      ∃ text, before.output.Extends text (before.run calls).2.output := by
  refine run_keeps (fun writer => ∃ text, before.output.Extends text writer.output) ?_ ready
    ⟨"", .refl _⟩ calls
  intro first call own second _ _ does grown
  obtain ⟨text, extended⟩ := grown
  obtain ⟨_, more, runs, _⟩ := does
  exact ⟨_, extended.trans runs.output⟩

end Writer

end XmlStream
