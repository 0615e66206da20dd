import XmlStream.Proofs.Output.Truncation
import XmlStream.Proofs.Reset.Restart
import XmlStream.Proofs.Simulation.Reachable

namespace XmlStream

/-! What completing a document can fail with, as long as the sink does not fail: with a
refusal of the value that is being written, and with nothing else. -/

namespace OutputBuffer

theorem write_of_unfailing {output : OutputBuffer} (unfailing : output.sink.Unfailing)
    (text : String) : ∃ after, write text output = .ok () after ∧ after.sink.Unfailing := by
  have kept : (output.append text).sink = output.sink := (adds_append text).sink output
  have endless : (output.append text).sink.limit = none := by rw [kept, unfailing.limit]
  by_cases much : threshold ≤ (output.append text).pending.size
  · rcases push_of_endless endless with ⟨after, pushes, _⟩
    have extended := (extends_of_push pushes).1
    refine ⟨after, ?_, extended.limit.trans endless, ?_⟩
    · have writes : write text output = push (output.append text) := by
        simp [write, Bind.bind, EStateM.bind, modify_run, get_run, much]
      rw [writes, pushes]
    · rw [extended.canFlush, kept, unfailing.canFlush]
  · refine ⟨output.append text, ?_, by rwa [kept]⟩
    simp [write, Bind.bind, EStateM.bind, modify_run, get_run, much, pure, EStateM.pure]

theorem flush_of_unfailing {output : OutputBuffer} (unfailing : output.sink.Unfailing) :
    ∃ after, flush output = .ok () after ∧ after.pending = .empty ∧ after.sink.Unfailing := by
  rcases push_of_endless unfailing.limit with ⟨after, pushes, empty, endless, _⟩
  have able : after.sink.canFlush = true :=
    (extends_of_push pushes).1.canFlush.trans unfailing.canFlush
  refine ⟨after, ?_, empty, endless, able⟩
  simp [flush, Bind.bind, EStateM.bind, pushes, onSink, Sink.flush, able]

theorem order_of_unfailing (order : Order) (output : OutputBuffer)
    (unfailing : output.sink.Unfailing) :
    EndsIn (fun after : OutputBuffer => after.sink.Unfailing) (order.action output) := by
  cases order with
  | write text =>
      rcases write_of_unfailing unfailing (text output.encoding?) with ⟨after, writes, still⟩
      simp only [Order.action, writes]
      exact still
  | flush =>
      rcases flush_of_unfailing unfailing with ⟨after, flushes, _, still⟩
      simp only [Order.action, flushes]
      exact still

end OutputBuffer

namespace Writer

variable {α β : Type} {before after : Writer}

def Sure (action : Action α) : Prop :=
  ∀ ⦃writer : Writer⦄, writer.output.sink.Unfailing →
    ∃ value after, action writer = .ok value after ∧ after.output.sink.Unfailing

namespace Sure

theorem pure (value : α) : Sure (Pure.pure value) :=
  fun writer unfailing => ⟨value, writer, rfl, unfailing⟩

theorem bind {action : Action α} {next : α → Action β} (sure : Sure action)
    (later : ∀ value, Sure (next value)) : Sure (action >>= next) := by
  intro writer unfailing
  rcases sure unfailing with ⟨value, middle, does, unfailingStill⟩
  rcases later value unfailingStill with ⟨result, after, doesToo, unfailingLast⟩
  exact ⟨result, after, bind_eq_ok.mpr ⟨value, middle, does, doesToo⟩, unfailingLast⟩

theorem get_bind {next : Writer → Action α} (later : ∀ writer, Sure (next writer)) :
    Sure (get >>= next) :=
  fun writer unfailing => later writer unfailing

theorem change {update : Writer → Writer} (kept : ∀ writer, (update writer).output = writer.output) :
    Sure (modify update) :=
  fun writer unfailing => ⟨⟨⟩, update writer, rfl, by rwa [kept]⟩

theorem ite {condition : Prop} [Decidable condition] {action other : Action α}
    (sure : Sure action) (otherwise : Sure other) :
    Sure (if condition then action else other) := by
  split
  · exact sure
  · exact otherwise

theorem forM {γ : Type} (entries : List γ) {action : γ → Action PUnit}
    (sure : ∀ entry, Sure (action entry)) : Sure (entries.forM action) := by
  induction entries with
  | nil => exact pure _
  | cons entry rest induction => exact bind (sure entry) fun _ => induction

end Sure

theorem sure_emit (markup : String) : Sure (emit markup) := by
  intro writer unfailing
  rcases OutputBuffer.write_of_unfailing unfailing markup with ⟨output, writes, still⟩
  exact ⟨⟨⟩, { writer with output }, by rw [emit, onOutput, writes], still⟩

theorem sure_emitQuote : Sure emitQuote := .get_bind fun _ => sure_emit _

theorem sure_emitEscaped (position : TextPosition) (text : String) :
    Sure (emitEscaped position text) :=
  .forM _ sure_emit

theorem sure_emitText (text : String) : Sure (emitText text) :=
  .bind (.change fun _ => rfl) fun _ => .get_bind fun _ => sure_emitEscaped _ _

theorem sure_emitVerbatim (text : String) : Sure (emitVerbatim text) :=
  .bind (.change fun _ => rfl) fun _ => sure_emit text

theorem sure_modifyTop (update : OpenElement → OpenElement) : Sure (modifyTop update) :=
  .change fun _ => rfl

theorem sure_finishPayload : Sure finishPayload := by
  refine .get_bind fun writer => .ite ?_ (.pure _)
  exact .bind (.change fun _ => rfl) fun _ => .bind (sure_emitVerbatim _) fun _ =>
    .change fun _ => rfl

theorem sure_indent (beforeEnd : Bool) : Sure (indent beforeEnd) :=
  .get_bind fun _ => .ite (sure_emit _) (.ite (sure_emit _) (.pure _))

theorem sure_emitDeclaration (quote : Quote) (binding : Binding) :
    Sure (emitDeclaration quote binding) :=
  .bind (sure_emit _) fun _ => .bind (sure_emitEscaped _ _) fun _ => .bind (sure_emit _) fun _ =>
    .bind (sure_emit _) fun _ => .bind (sure_emitEscaped _ _) fun _ => sure_emit _

theorem sure_emitDefaultDeclaration (quote : Quote) : Sure (emitDefaultDeclaration quote) := by
  refine .get_bind fun _ => .ite ?_ (.pure _)
  exact .bind (sure_emit _) fun _ => .bind (sure_emit _) fun _ =>
    .bind (sure_emitEscaped _ _) fun _ => .bind (sure_emit _) fun _ => sure_modifyTop _

theorem sure_closeStartTag (isEmpty : Bool) : Sure (closeStartTag isEmpty) := by
  refine .get_bind fun _ => .bind (.forM _ fun _ => sure_emitDeclaration _ _) fun _ => ?_
  exact .bind (.change fun _ => rfl) fun _ => .bind (sure_emitDefaultDeclaration _) fun _ =>
    sure_emit _

theorem sure_leaveElement : Sure leaveElement := by
  refine .get_bind fun writer => .ite (.ite ?_ ?_) ?_
  · exact .bind (sure_indent true) fun _ => .bind (sure_emit _) fun _ => .change fun _ => rfl
  · exact .bind (sure_emit _) fun _ => .change fun _ => rfl
  · exact .change fun _ => rfl

inductive RefusesValue : SpecialAttribute → WriterError → Prop
  | space (value : String) (unknown : spaceHandling? value = none) :
      RefusesValue ⟨.space, value⟩ (.invalidSpaceValue value)
  | reserved (nsPrefix : Option String) (uri : String) :
      RefusesValue ⟨.declaration nsPrefix, uri⟩ (.reserved (nsPrefix.getD "") uri)
  | empty (nsPrefix : String) : RefusesValue ⟨.declaration (some nsPrefix), ""⟩ (.emptyNamespace nsPrefix)
  | conflict (nsPrefix : Option String) (uri : String) :
      RefusesValue ⟨.declaration nsPrefix, uri⟩ (.conflict (nsPrefix.getD "") uri)

theorem checkReserved_error {nsPrefix : Option String} {uri : String} {error : WriterError}
    (fails : checkReserved nsPrefix uri before = .error error after) :
    error = .reserved (nsPrefix.getD "") uri ∧ before = after := by
  simp only [checkReserved, ite_eq_error, throw_eq_error, pure_eq_error, and_false, or_false] at fails
  exact ⟨fails.2.1.symm, fails.2.2⟩

theorem pushBinding_not_error {nsPrefix uri : String} {declared : Bool} {error : WriterError}
    (fails : pushBinding nsPrefix uri declared before = .error error after) : False := by
  rcases pushBinding_eq before nsPrefix uri declared with ⟨log, pushes⟩
  rw [pushes] at fails
  cases fails

theorem bindDefault_error {uri : String} {declared : Bool} {error : WriterError}
    (fails : bindDefault uri declared before = .error error after) :
    RefusesValue ⟨.declaration none, uri⟩ error ∧ before = after := by
  simp only [bindDefault, bind_eq_error, get_eq_error, false_or, get_eq_ok] at fails
  rcases fails with reserved | ⟨_, _, allowed, _, _, ⟨rfl, rfl⟩, fails⟩
  · rcases checkReserved_error reserved with ⟨rfl, same⟩
    exact ⟨.reserved none uri, same⟩
  · rcases checkReserved_ok allowed with ⟨rfl, _⟩
    split at fails
    · simp only [bind_eq_error, throw_eq_error, throw_eq_ok, false_and, exists_false,
        or_false] at fails
      rcases fails with ⟨rfl, same⟩
      exact ⟨.conflict none uri, same⟩
    · simp [modifyTop] at fails

theorem bindPrefix_error {nsPrefix uri : String} {declared : Bool} {error : WriterError}
    (fails : bindPrefix nsPrefix uri declared before = .error error after) :
    RefusesValue ⟨.declaration (some nsPrefix), uri⟩ error ∧ before = after := by
  simp only [bindPrefix, bind_eq_error] at fails
  rcases fails with reserved | ⟨_, middle, allowed, fails⟩
  · rcases checkReserved_error reserved with ⟨rfl, same⟩
    exact ⟨.reserved (some nsPrefix) uri, same⟩
  · rcases checkReserved_ok allowed with ⟨rfl, _⟩
    split at fails
    · rename_i empty
      subst empty
      simp only [bind_eq_error, throw_eq_error, throw_eq_ok, false_and, exists_false,
        or_false] at fails
      rcases fails with ⟨rfl, same⟩
      exact ⟨.empty nsPrefix, same⟩
    · simp only [bind_eq_error, get_eq_error, false_or, get_eq_ok] at fails
      rcases fails with ⟨_, _, ⟨rfl, rfl⟩, fails⟩
      cases bound : before.bindings.boundTo? nsPrefix uri with
      | some position => cases declared <;> simp [bound] at fails
      | none =>
          simp only [bound] at fails
          split at fails
          · simp only [bind_eq_error, throw_eq_error, throw_eq_ok, false_and, exists_false,
              or_false] at fails
            rcases fails with ⟨rfl, same⟩
            exact ⟨.conflict (some nsPrefix) uri, same⟩
          · exact (pushBinding_not_error fails).elim

theorem bind_error {nsPrefix : Option String} {uri : String} {declared : Bool}
    {error : WriterError} (fails : bind nsPrefix uri declared before = .error error after) :
    RefusesValue ⟨.declaration nsPrefix, uri⟩ error ∧ before = after := by
  cases nsPrefix with
  | none => exact bindDefault_error fails
  | some nsPrefix => exact bindPrefix_error fails

theorem applySpecial_error {special : SpecialAttribute} {error : WriterError}
    (fails : applySpecial special before = .error error after) :
    RefusesValue special error ∧ before = after := by
  rcases special with ⟨kind, value⟩
  cases kind with
  | language => simp [applySpecial, modifyTop] at fails
  | space =>
      cases asked : spaceHandling? value with
      | some space => simp [applySpecial, asked, modifyTop] at fails
      | none =>
          simp only [applySpecial, asked, throw_eq_error] at fails
          rcases fails with ⟨rfl, same⟩
          exact ⟨.space value asked, same⟩
  | declaration nsPrefix =>
      have binds {writer : Writer}
          (fails : (do if (← get).depth > 0 then bind nsPrefix value true : Action Unit) writer =
            .error error after) :
          RefusesValue ⟨.declaration nsPrefix, value⟩ error ∧ writer = after := by
        simp only [bind_eq_error, get_eq_error, false_or, get_eq_ok] at fails
        rcases fails with ⟨_, _, ⟨rfl, rfl⟩, fails⟩
        split at fails
        · exact bind_error fails
        · simp at fails
      cases nsPrefix with
      | none => exact binds fails
      | some nsPrefix =>
          simp only [applySpecial, bind_eq_error] at fails
          rcases fails with spelled | ⟨_, _, spelled, fails⟩
          · simp only [checkSpelling, ite_eq_error, throw_eq_error, pure_eq_error, and_false,
              or_false] at spelled
            rcases spelled with ⟨_, rfl, same⟩
            exact ⟨.reserved (some nsPrefix) value, same⟩
          · rcases checkSpelling_ok spelled with ⟨rfl, _⟩
            exact binds (bind_eq_error.mpr fails)

theorem Sure.not_error {action : Action α} (sure : Sure action) {error : WriterError}
    (unfailing : before.output.sink.Unfailing) : action before ≠ .error error after := by
  intro fails
  rcases sure unfailing with ⟨_, _, does, _⟩
  rw [fails] at does
  cases does

theorem closeValue_error {error : WriterError} (sound : before.bindings.Sound)
    (unfailing : before.output.sink.Unfailing)
    (fails : closeValue before = .error error after) :
    (∃ special, before.special = some special ∧ RefusesValue special error) ∧
      after = { before with special := none } := by
  simp only [closeValue, bind_eq_error, get_eq_error, false_or, get_eq_ok] at fails
  rcases fails with ⟨_, _, ⟨rfl, rfl⟩, fails⟩
  cases found : before.special with
  | none =>
      simp only [found] at fails
      exact absurd fails (sure_emitQuote.not_error unfailing)
  | some special =>
      simp only [found, bind_eq_error, modify_eq_error, false_or, modify_eq_ok] at fails
      rcases fails with ⟨_, _, rfl, refused | ⟨_, middle, applied, fails⟩⟩
      · rcases applySpecial_error refused with ⟨refuses, rfl⟩
        exact ⟨⟨special, rfl, refuses⟩, rfl⟩
      · have silent := (applySpecial_ok (by exact sound) applied).1
        refine absurd fails (sure_emitQuote.not_error ?_)
        rwa [silent.output]

def Refuses (writer : Writer) (error : WriterError) : Prop :=
  ∃ kind value, writer.special.map (·.kind) = some kind ∧ RefusesValue ⟨kind, value⟩ error

def Stops (before after : Writer) : Prop :=
  ∃ paid, finishPayload before = .ok () paid ∧ after = { paid with special := none }

theorem finishPayload_kind {nothing : Unit} (ok : finishPayload before = .ok nothing after) :
    after.special.map (·.kind) = before.special.map (·.kind) := by
  rcases finishPayload_cases ok with ⟨_, rfl⟩ | ⟨_, output, _, rfl⟩
  · rfl
  · simp [captured, Function.comp_def]

theorem advance_error {token : Token} {next : Phase} {error : WriterError}
    (other : token ≠ .base64) (leads : before.nextPhase? token = some next)
    (unfailing : before.output.sink.Unfailing)
    (fails : advance token before = .error error after) :
    ∃ middle, finishPayload before = .ok () middle ∧ middle.output.sink.Unfailing ∧
      makeRoom token next middle = .error error after := by
  rcases sure_finishPayload unfailing with ⟨_, middle, finished, unfailingStill⟩
  simp only [advance, bind_eq_error, get_eq_error, false_or, get_eq_ok] at fails
  rcases fails with ⟨_, _, ⟨rfl, rfl⟩, fails⟩
  simp only [leads, ne_eq, other, not_false_eq_true, if_true, bind_eq_error, modify_eq_error,
    and_false, exists_false, or_false] at fails
  rcases fails with fails | ⟨_, room, made, fails⟩
  · exact absurd fails (sure_finishPayload.not_error unfailing)
  · rw [finished] at made
    cases made
    exact ⟨middle, finished, unfailingStill, fails⟩

theorem nextPhase?_endElement
    (inside : before.phase = .attribute ∨ before.phase = .element ∨ before.phase = .content) :
    ∃ next, before.nextPhase? .endElement = some next := by
  have leads : before.mode.next? .endElement before.phase = some .content := by
    rcases inside with phase | phase | phase <;> rw [phase] <;> cases before.mode <;> rfl
  simp only [nextPhase?, leads]
  split <;> exact ⟨_, rfl⟩

theorem Scripted.unfailing {action : Action α} (scripted : Scripted False action) {value : α}
    (unfailing : before.output.sink.Unfailing) (ok : action before = .ok value after) :
    after.output.sink.Unfailing := by
  have ends := scripted.endsIn OutputBuffer.order_of_unfailing unfailing
  rwa [ok] at ends

theorem makeRoom_endElement_error {next : Phase} {error : WriterError}
    (sound : before.bindings.Sound) (unfailing : before.output.sink.Unfailing)
    (inside : before.phase = .attribute ∨ before.phase = .element ∨ before.phase = .content)
    (fails : makeRoom .endElement next before = .error error after) :
    before.phase = .attribute ∧
      (∃ special, before.special = some special ∧ RefusesValue special error) ∧
      after = { before with special := none } := by
  rcases inside with phase | phase | phase
  · refine ⟨phase, ?_⟩
    have steps : (closeValue >>= fun _ => closeStartTag true >>= fun _ => pure Token.endElement)
        before = .error error after := by
      simpa [makeRoom, phase] using fails
    simp only [bind_eq_error, pure_eq_error, and_false, exists_false, or_false] at steps
    rcases steps with refused | ⟨_, middle, closed, fails⟩
    · exact closeValue_error sound unfailing refused
    · have still := scripted_closeValue.unfailing unfailing closed
      exact absurd fails ((sure_closeStartTag true).not_error still)
  · have steps : (closeStartTag true >>= fun _ => pure Token.endElement) before =
        .error error after := by
      simpa [makeRoom, phase] using fails
    simp only [bind_eq_error, pure_eq_error, and_false, exists_false, or_false] at steps
    exact absurd steps ((sure_closeStartTag true).not_error unfailing)
  · simp [makeRoom, phase] at fails

theorem closeElement_error {error : WriterError} (sound : before.bindings.Sound)
    (unfailing : before.output.sink.Unfailing)
    (inside : before.phase = .attribute ∨ before.phase = .element ∨ before.phase = .content)
    (depth : 0 < before.depth) (fails : closeElement false before = .error error after) :
    before.phase = .attribute ∧ before.Refuses error ∧ before.Stops after := by
  rcases nextPhase?_endElement inside with ⟨next, leads⟩
  have notZero : ¬(before.depth = 0) := by omega
  simp only [closeElement, bind_eq_error, get_eq_error, false_or, get_eq_ok] at fails
  rcases fails with ⟨_, _, ⟨rfl, rfl⟩, fails⟩
  simp only [notZero, decide_false, Bool.false_and, Bool.false_eq_true, if_false, bind_eq_error] at fails
  rcases fails with fails | ⟨_, middle, went, fails⟩
  · rcases advance_error (by simp) leads unfailing fails with ⟨middle, finished, still, fails⟩
    rcases finishPayload_ok finished with ⟨_, _, completes, _⟩
    rw [← completes.keeps.phase] at inside
    rcases makeRoom_endElement_error (completes.sound sound) still inside fails with
      ⟨phase, ⟨special, stands, refuses⟩, silent⟩
    refine ⟨completes.keeps.phase.symm.trans phase, ⟨special.kind, special.value, ?_, refuses⟩,
      middle, finished, silent⟩
    rw [← finishPayload_kind finished, stands]
    rfl
  · have still := (scripted_advance _).unfailing unfailing went
    exact absurd (bind_eq_error.mpr fails) (sure_leaveElement.not_error still)

/-- Elements that cannot all be completed are completed up to one that cannot. It is the innermost
one from the beginning, or it has content. -/
theorem closeElements_stuck {count : Nat} {error : WriterError} (sound : before.Sound)
    (counts : before.depth = count)
    (inside : 0 < before.depth →
      before.phase = .attribute ∨ before.phase = .element ∨ before.phase = .content)
    (fails : closeElements count before = .error error after) :
    ∃ earlier stuck, closeElements earlier before = .ok () stuck ∧ stuck.Sound ∧
      0 < stuck.depth ∧ closeElement false stuck = .error error after ∧
      (stuck = before ∨ stuck.phase = .content) := by
  induction count generalizing before with
  | zero => simp [closeElements] at fails
  | succ count induction =>
      have depth : 0 < before.depth := by omega
      simp only [closeElements, bind_eq_error] at fails
      rcases fails with fails | ⟨_, middle, closed, fails⟩
      · exact ⟨0, before, rfl, sound, depth, fails, .inl rfl⟩
      · rcases closeElement_ok sound.bindings closed with ⟨_, _, ends⟩
        have less := ends.depth
        have phase : 0 < middle.depth → middle.phase = .content := by
          intro more
          rw [ends.phase, Draft.phaseAfterElement, if_neg]
          intro root
          have last : before.depth = 1 := root.2
          omega
        rcases induction ends.runs.sound (by omega) (fun more => .inr (.inr (phase more))) fails with
          ⟨earlier, stuck, closes, soundStuck, depthStuck, stops, place⟩
        refine ⟨earlier + 1, stuck, ?_, soundStuck, depthStuck, stops, .inr ?_⟩
        · exact bind_eq_ok.mpr ⟨_, middle, closed, closes⟩
        · rcases place with rfl | place
          · exact phase depthStuck
          · exact place

theorem closeElements_error {count : Nat} {error : WriterError} (sound : before.Sound)
    (unfailing : before.output.sink.Unfailing) (counts : before.depth = count)
    (inside : 0 < before.depth →
      before.phase = .attribute ∨ before.phase = .element ∨ before.phase = .content)
    (fails : closeElements count before = .error error after) :
    before.phase = .attribute ∧ before.Refuses error ∧ before.Stops after := by
  rcases closeElements_stuck sound counts inside fails with
    ⟨earlier, stuck, closes, soundStuck, depth, stops, place⟩
  have still := (scripted_closeElements earlier).unfailing unfailing closes
  rcases place with rfl | place
  · exact closeElement_error soundStuck.bindings still (inside depth) depth stops
  · have inValue := (closeElement_error soundStuck.bindings still (by simp [place]) depth stops).1
    rw [place] at inValue
    cases inValue

theorem Ready.inside_phases (ready : before.Ready) (live : ¬before.Spent) (inside : 0 < before.depth) :
    before.phase = .attribute ∨ before.phase = .element ∨ before.phase = .content := by
  have outside := ready.placed.outside
  simp only [draft_phase, draft_depth] at outside
  cases phase : before.phase
  case failed => exact absurd (.inl phase) live
  case closed => exact absurd (.inr phase) live
  case start | prolog | afterDoctype | topAttribute | epilog =>
    have none := outside (by simp [phase])
    omega
  all_goals simp

theorem Ready.nextPhase?_endAttribute (ready : before.Ready)
    (onTop : before.phase = .topAttribute) : before.nextPhase? .endAttribute = some .epilog := by
  have fragment : before.mode = .fragment := by
    cases mode : before.mode with
    | fragment => rfl
    | document => exact absurd onTop (ready.placed.document mode).2.1
  simp [nextPhase?, fragment, onTop, Mode.next?, Mode.permits, Token.next?]

theorem advance_endAttribute_error {error : WriterError} (ready : before.Ready)
    (unfailing : before.output.sink.Unfailing) (onTop : before.phase = .topAttribute)
    (fails : advance .endAttribute before = .error error after) :
    before.Refuses error ∧ before.Stops after := by
  have leads := ready.nextPhase?_endAttribute onTop
  rcases advance_error (by simp) leads unfailing fails with ⟨middle, finished, still, fails⟩
  rcases finishPayload_ok finished with ⟨_, _, completes, _⟩
  simp only [makeRoom, bind_eq_error, get_eq_error, get_eq_ok, false_or, pure_eq_error, and_false,
    exists_false, or_false] at fails
  rcases fails with ⟨_, _, ⟨rfl, rfl⟩, fails⟩
  rcases closeValue_error (completes.sound ready.sound.bindings) still fails with
    ⟨⟨special, stands, refuses⟩, silent⟩
  refine ⟨⟨special.kind, special.value, ?_, refuses⟩, middle, finished, silent⟩
  rw [← finishPayload_kind finished, stands]
  rfl

/-- Where completing a document stops: at the end of a payload, at the end of an attribute that
belongs to no element, or at the end of an element. -/
inductive StopsAt (before : Writer) (error : WriterError) (after : Writer) : Prop
  | payload (fails : finishPayload before = .error error after)
  | value (paid : Writer) (finished : finishPayload before = .ok () paid) (ready : paid.Ready)
      (onTop : paid.phase = .topAttribute)
      (fails : advance .endAttribute paid = .error error after)
  | element (paid : Writer) (finished : finishPayload before = .ok () paid) (ready : paid.Ready)
      (live : ¬paid.Spent) (fails : closeElements paid.depth paid = .error error after)

theorem completeAll_stops {error : WriterError} (ready : before.Ready) (live : ¬before.Spent)
    (fails : completeAll before = .error error after) : before.StopsAt error after := by
  simp only [completeAll, bind_eq_error] at fails
  rcases fails with fails | ⟨_, paid, finished, fails⟩
  · exact .payload fails
  · rcases finishPayload_ok finished with ⟨_, _, completes, _⟩
    have readyPaid : paid.Ready :=
      ⟨completes.sound_of_eq ready.sound, ready.placed.path completes.path,
        ready.layered.path completes.path, ready.carried.path completes.path⟩
    have livePaid : ¬paid.Spent := by
      rwa [Spent, completes.keeps.phase]
    simp only [get_eq_error, get_eq_ok, false_or] at fails
    rcases fails with ⟨_, _, ⟨rfl, rfl⟩, fails⟩
    by_cases onTop : paid.phase = .topAttribute
    · have outside : paid.depth = 0 := readyPaid.placed.outside (by simp [onTop])
      simp only [onTop, if_true, bind_eq_error, get_eq_error, get_eq_ok, false_or] at fails
      rcases fails with fails | ⟨_, middle, ended, _, _, ⟨rfl, rfl⟩, fails⟩
      · exact .value paid finished readyPaid onTop fails
      · rcases advance_endAttribute_ok readyPaid.sound.bindings ended with ⟨_, _, _, _, _, _, depth⟩
        rw [depth, outside] at fails
        simp [closeElements] at fails
    · simp only [onTop, if_false, bind_eq_error, get_eq_error, get_eq_ok, false_or] at fails
      rcases fails with ⟨_, _, ⟨rfl, rfl⟩, fails⟩
      exact .element paid finished readyPaid livePaid fails

/-- Completing a document fails with a refusal of the value that is being written, and
leaves that value open. -/
theorem completeAll_error {error : WriterError} (ready : before.Ready) (live : ¬before.Spent)
    (unfailing : before.output.sink.Unfailing)
    (fails : completeAll before = .error error after) :
    before.Refuses error ∧ before.Stops after := by
  have refuses {paid : Writer} (finished : finishPayload before = .ok () paid)
      (refused : paid.Refuses error ∧ paid.Stops after) :
      before.Refuses error ∧ before.Stops after := by
    rcases finishPayload_ok finished with ⟨_, _, _, noPayload, _⟩
    rcases refused with ⟨⟨kind, value, stands, refuses⟩, paidAgain, finishedAgain, silent⟩
    rcases finishPayload_ok finishedAgain with ⟨_, _, _, _, nothing⟩
    rw [nothing noPayload] at silent
    exact ⟨⟨kind, value, by rw [← finishPayload_kind finished, stands], refuses⟩,
      paid, finished, silent⟩
  cases completeAll_stops ready live fails with
  | payload fails => exact absurd fails (sure_finishPayload.not_error unfailing)
  | value paid finished readyPaid onTop fails =>
      have still := scripted_finishPayload.unfailing unfailing finished
      exact refuses finished (advance_endAttribute_error readyPaid still onTop fails)
  | element paid finished readyPaid livePaid fails =>
      have still := scripted_finishPayload.unfailing unfailing finished
      exact refuses finished (closeElements_error readyPaid.sound still rfl
        (readyPaid.inside_phases livePaid) fails).2

end Writer

end XmlStream
