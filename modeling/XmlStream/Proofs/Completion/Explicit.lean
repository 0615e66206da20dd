import XmlStream.Proofs.Completion.Implicit
import XmlStream.Proofs.Failure.Terminal
import XmlStream.Proofs.Output.Alongside

namespace XmlStream.Writer

/-! Closing a writer completes all that is open. It is the same as if all of that had been ended by
calls before. -/

variable {before after : Writer}

/-- The calls that end what is open. -/
def endings (writer : Writer) : List Call :=
  (if writer.phase = .topAttribute then [.endAttribute] else []) ++
    List.replicate writer.depth .endElement

/-- A writer to which calls have led that do step by step what an action does at once. -/
inductive Tracks : EStateM.Result WriterError Writer Unit → Writer → Prop
  | ok (done : Writer) : Tracks (.ok () done) done
  | error {error : WriterError} {stuck last : Writer} (failed : last.phase = .failed)
      (output : last.output = stuck.output) (payload : last.payload = stuck.payload) :
      Tracks (.error error stuck) last

theorem tracks_guarded {call : Call} {action : Action Unit} (is : perform call = guarded action)
    (notClosed : before.phase ≠ .closed) : Tracks (action before) (before.step call).2 := by
  rcases step_eq before call with ⟨answer, steps⟩
  rw [steps, is, guarded, if_neg notClosed]
  cases action before with
  | ok nothing done => exact .ok done
  | error error stuck => exact .error rfl rfl rfl

theorem Tracks.run_of_failed {error : WriterError} {stuck last : Writer} {calls : List Call}
    (tracks : Tracks (.error error stuck) last) (write : ∀ call ∈ calls, call.isWriting = true) :
    Tracks (.error error stuck) (last.run calls).2 := by
  induction calls generalizing last with
  | nil => exact tracks
  | cons call rest induction =>
      cases tracks with
      | error failed output payload =>
          rcases step_of_failed failed (write call List.mem_cons_self) with ⟨unchanged, failedToo⟩
          apply induction _ fun other member => write other (List.mem_cons_of_mem _ member)
          apply Tracks.error failedToo
          · rw [unchanged]
            exact output
          · rw [unchanged]
            exact payload

theorem tracks_closeElements {count : Nat} (sound : before.bindings.Sound)
    (notClosed : before.phase ≠ .closed) :
    Tracks (closeElements count before) (before.run (List.replicate count .endElement)).2 := by
  induction count generalizing before with
  | zero => exact .ok before
  | succ count induction =>
      have step : Tracks (closeElement false before) (before.step .endElement).2 :=
        tracks_guarded rfl notClosed
      rw [List.replicate_succ, run]
      simp only [closeElements, Bind.bind, EStateM.bind]
      generalize ends : closeElement false before = result at step ⊢
      generalize (before.step .endElement).2 = stepped at step ⊢
      cases step with
      | ok done =>
          rcases closeElement_ok sound ends with ⟨_, _, closed⟩
          apply induction closed.runs.sound.bindings
          rcases phaseAfterElement_cases before.draft with phase | phase <;>
            simp [closed.phase, phase]
      | error failed output payload =>
          apply Tracks.run_of_failed (.error failed output payload)
          intro call member
          rw [List.eq_of_mem_replicate member]
          rfl

theorem completeAll_of_top (ready : before.Ready) (onTop : before.phase = .topAttribute) :
    completeAll before = advance .endAttribute before := by
  have outside : before.depth = 0 := ready.placed.outside (by simp [onTop])
  have leads := ready.nextPhase?_endAttribute onTop
  cases finished : finishPayload before with
  | error error stuck =>
      rw [advance_eq leads, if_pos (by simp)]
      simp only [completeAll, Bind.bind, EStateM.bind, finished]
  | ok nothing paid =>
      have paying := advance_of_paid (by simp) leads finished
      rcases finishPayload_ok finished with ⟨_, _, pays, _⟩
      have still : paid.phase = .topAttribute := pays.keeps.phase.trans onTop
      simp only [completeAll, Bind.bind, EStateM.bind, finished, get_run, if_pos still, paying]
      cases went : advance .endAttribute before with
      | error error stuck => rfl
      | ok nothing ended =>
          rcases advance_endAttribute_ok ready.sound.bindings went with ⟨_, _, _, _, _, _, depth⟩
          dsimp only
          rw [depth, outside]
          rfl

/-- Ending what is open by calls does what completing it does, where there is anything to end. -/
theorem tracks_endings (ready : before.Ready) (live : ¬before.Spent)
    (unfailing : before.output.sink.Unfailing) :
    before.endings = [] ∨ Tracks (completeAll before) (before.run before.endings).2 := by
  rcases sure_finishPayload unfailing with ⟨_, paid, finished, _⟩
  have notClosed : before.phase ≠ .closed := fun closed => live (.inr closed)
  by_cases onTop : before.phase = .topAttribute
  · have outside : before.depth = 0 := ready.placed.outside (by simp [onTop])
    have completes := completeAll_of_top ready onTop
    have calls : before.endings = [.endAttribute] := by simp [endings, onTop, outside]
    rw [calls, completes]
    exact .inr (tracks_guarded rfl notClosed)
  · by_cases outside : before.depth = 0
    · exact .inl (by simp [endings, onTop, outside])
    · have depth : 0 < before.depth := by omega
      have calls : before.endings = List.replicate before.depth .endElement := by
        simp [endings, onTop]
      rw [calls, completeAll_of_inside (ready.inside_phases live depth) depth finished]
      exact .inr (tracks_closeElements ready.sound.bindings notClosed)

/-! ## Closing -/

def outcome (result : EStateM.Result SinkError OutputBuffer Unit) : OutputBuffer :=
  match result with
  | .ok _ output => output
  | .error _ output => output

theorem output_shut (notClosed : before.phase ≠ .closed) :
    (before.step .close).2.output = outcome (OutputBuffer.finish before.completed.output) := by
  rcases step_eq before .close with ⟨answer, steps⟩
  rw [steps, perform, shut_eq, if_neg notClosed]
  simp only [hangUp, Bind.bind, EStateM.bind, modify_run, onOutput]
  cases OutputBuffer.finish before.completed.output <;> rfl

theorem output_closed (writer : Writer) : writer.closed.output = (writer.step .close).2.output := by
  rcases step_eq writer .close with ⟨answer, steps⟩
  rw [steps, perform, closed]
  cases shut writer <;> rfl

/-- Nothing is completed where nothing is open, and nothing but a payload on a writer that has
failed. -/
theorem completed_output (noPayload : before.payload = none) (notTop : before.phase ≠ .topAttribute)
    (ends : ∃ error, closeElements before.depth before = .ok () before ∨
      closeElements before.depth before = .error error before) :
    before.completed.output = before.output := by
  have completes := completeAll_of_paid notTop (finishPayload_of_none noPayload)
  rcases ends with ⟨error, ends | ends⟩ <;>
  · rw [completed, completes, ends]

theorem completed_endings (ready : before.Ready) (live : ¬before.Spent)
    (unfailing : before.output.sink.Unfailing) :
    let last := (before.run before.endings).2
    last.phase ≠ .closed ∧ last.completed.output = before.completed.output := by
  intro last
  rcases tracks_endings ready live unfailing with nothing | tracks
  · have same : last = before := by
      show (before.run before.endings).2 = before
      rw [nothing]
      rfl
    rw [same]
    exact ⟨fun closed => live (.inr closed), rfl⟩
  · have tracks : Tracks (completeAll before) last := tracks
    clear_value last
    generalize completes : completeAll before = result at tracks
    cases tracks with
    | ok done =>
        rcases completeAll_ok ready.sound completes with ⟨_, _, empties⟩
        have same : before.completed = last := by rw [completed, completes]
        refine ⟨?_, ?_⟩
        · rcases empties.phase with phase | phase | phase
          · rw [phase]
            exact fun closed => live (.inr closed)
          · simp [phase]
          · simp [phase]
        · rw [same]
          apply completed_output empties.payload empties.notTop
          rw [empties.depth]
          exact ⟨.incomplete, .inl rfl⟩
    | error failed output payload =>
        rename_i error stuck
        rcases completeAll_error ready live unfailing completes with ⟨_, paid, finished, rfl⟩
        rcases finishPayload_ok finished with ⟨_, _, _, noPayload, _⟩
        have same : before.completed.output = last.output := by rw [completed, completes, output]
        refine ⟨by simp [failed], ?_⟩
        rw [same]
        exact completed_output (payload.trans noPayload) (by simp [failed])
          (closeElements_of_failed failed last.depth)

/-- What the output gets in the end is the same, whether or not the calls that end what is open are
made before. -/
theorem output_endings (ready : before.Ready) (live : ¬before.Spent)
    (unfailing : before.output.sink.Unfailing) :
    ((before.run before.endings).2.step .close).2.output = (before.step .close).2.output := by
  rcases completed_endings ready live unfailing with ⟨notClosed, same⟩
  rw [output_shut notClosed, output_shut fun closed => live (.inr closed), same]

/-- An end of a document passes on what closing does, but for the switch back to the initial state. -/
theorem received_endDocument (live : ¬before.Spent)
    (unfailing : before.output.sink.Unfailing)
    (ends : (before.step .endDocument).1.isOk = true) :
    (before.step .close).2.output.sink.received =
      (before.step .endDocument).2.output.sink.received ++
        OutputBuffer.switchBack (before.step .endDocument).2.output.encoder := by
  have finishes := (guarded_ok (step_ok ends)).2
  simp only [finishDocument, bind_eq_ok, get_eq_ok, refuse_bind_eq_ok, modify_eq_ok] at finishes
  rcases finishes with ⟨_, _, ⟨rfl, rfl⟩, _, _, done, completes, _, _, rfl, flushed⟩
  rcases onOutput_ok flushed with ⟨output, flushes, result⟩
  have same : before.completed = done := by rw [completed, completes]
  have still := scripted_completeAll.unfailing unfailing completes
  rw [← same] at still flushes
  rcases OutputBuffer.extends_of_flush flushes with ⟨extended, empty⟩
  have nothing := OutputBuffer.Extends.refl before.completed.output
  have flushedAll : output.sink.received = before.completed.output.delivered := by
    have delivered := extended.delivered
    rwa [← nothing.delivered, OutputBuffer.delivered, empty, ByteArray.append_empty] at delivered
  have encoder : output.encoder = before.completed.output.encoder :=
    extended.encoder.trans nothing.encoder.symm
  rcases shut_of_unfailing (fun closed => live (.inr closed)) still with ⟨_, shuts, _, _, received⟩
  have closes : before.step .close = (.ok .done, _) := step_of_ok (by simp) shuts
  have ended := OutputBuffer.accrues_terminate before.completed.output
  rw [closes, result]
  dsimp only
  rw [received, flushedAll, encoder, ended.delivered still.limit]

theorem endings_of_closed (closed : before.phase = .closed) :
    ((before.run before.endings).2.step .close).2.output = (before.step .close).2.output := by
  rcases run_of_closed before.endings closed with ⟨stays, same⟩
  rw [(step_of_closed .close stays).2, (step_of_closed .close closed).2, same]

/-- Completing implicitly is completing explicitly. A call that leaves the value that is being
written does the same with that value ended by a call before: it succeeds in both cases or in none,
and then gives the same answer and leads to the same writer. As long as its sink does not fail, a
writer that is closed or given up passes on the same bytes when all that is open has been ended by
calls before. The end of a document passes on these bytes as well, but for the switch back to the
initial state of the encoding. -/
theorem completion_of_run (output : OutputBuffer) (settings : Settings) (calls : List Call)
    (writer : Writer) (reached : writer = ((create output settings).run calls).2) :
    (writer.phase = .attribute → ∀ call : Call, call.leavesValue = true →
      ((writer.step call).1.isOk = true ↔
        (writer.step .endAttribute).1.isOk = true ∧
          ((writer.step .endAttribute).2.step call).1.isOk = true) ∧
      ((writer.step call).1.isOk = true →
        writer.step call = (writer.step .endAttribute).2.step call)) ∧
    (output.sink.Unfailing → writer.phase ≠ .failed →
      (writer.run (writer.endings ++ [.close])).2.output = (writer.step .close).2.output ∧
      (writer.run writer.endings).2.release.output = writer.release.output ∧
      ((writer.step .endDocument).1.isOk = true →
        (writer.step .close).2.output.sink.received =
          (writer.step .endDocument).2.output.sink.received ++
            OutputBuffer.switchBack (writer.step .endDocument).2.output.encoder)) := by
  subst reached
  have kept := run_extends (ready_create output settings) calls
  generalize ((create output settings).run calls).2 = writer at kept
  constructor
  · intro inValue call leaves
    have live : ¬writer.Spent := by simp [Spent, inValue]
    exact step_via_endAttribute leaves (kept.resolve_left live).1 inValue
  · intro unfailing notFailed
    have closes : ((writer.run writer.endings).2.step .close).2.output =
        (writer.step .close).2.output ∧
        ((writer.step .endDocument).1.isOk = true →
          (writer.step .close).2.output.sink.received =
            (writer.step .endDocument).2.output.sink.received ++
              OutputBuffer.switchBack (writer.step .endDocument).2.output.encoder) := by
      by_cases live : writer.Spent
      · refine ⟨endings_of_closed (live.resolve_left notFailed), fun ends => ?_⟩
        exact absurd live (not_spent_of_endDocument (step_ok ends))
      · rcases kept.resolve_left live with ⟨ready, text, extended⟩
        have still : writer.output.sink.Unfailing := extended.unfailing unfailing
        exact ⟨output_endings ready live still, received_endDocument live still⟩
    refine ⟨?_, ?_, closes.2⟩
    · rw [run_concat]
      exact closes.1
    · rw [output_release, output_release, output_closed, output_closed, closes.1]

/-- An attribute value that declares a prefix, in an element in another one. -/
theorem completion_of_run_declaring :
    let calls : List Call :=
      [.startElement { localName := "a" }, .startElement { localName := "b" },
        .startAttribute { nsPrefix := some "xmlns", localName := "p" }, .text "urn:x"]
    let call : Call := .startElement { nsPrefix := some "p", localName := "c" }
    let writer := ((create { sink := {} }).run calls).2
    writer.phase = .attribute ∧ (writer.step call).1.isOk = true ∧
      writer.step call = (writer.step .endAttribute).2.step call ∧
      writer.endings = [.endElement, .endElement] ∧
      (writer.run (writer.endings ++ [.close])).2.output = (writer.step .close).2.output ∧
      (writer.run writer.endings).2.release.output = writer.release.output := by
  intro calls call writer
  have inValue : writer.phase = .attribute := by decide +kernel
  have ok : (writer.step call).1.isOk = true := by decide +kernel
  have endings : writer.endings = [.endElement, .endElement] := by decide +kernel
  have holds := completion_of_run { sink := {} } {} calls writer rfl
  have leaves := holds.1 inValue call rfl
  have closes := holds.2 ⟨rfl, rfl⟩ (by simp [inValue])
  exact ⟨inValue, ok, leaves.2 ok, endings, closes.1, closes.2.1⟩

/-- The end of a document leaves the encoding in the state it is in, since more can be written. -/
theorem endDocument_keeps_shift :
    let output : OutputBuffer := { sink := {}, encoder := some { charset := .iso2022jp } }
    let writer := ((create output).run [.text "あ"]).2
    (writer.step .endDocument).1.isOk = true ∧
      (writer.step .close).2.output.sink.received ≠
        (writer.step .endDocument).2.output.sink.received := by
  decide +kernel

end XmlStream.Writer
