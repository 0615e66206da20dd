import XmlStream.Proofs.Output.Limit
import XmlStream.Proofs.Output.Scripted
import XmlStream.Proofs.Simulation.Runs

namespace XmlStream

/-! A writer whose sink has a limit beside one whose sink has none, for the same calls. The
full sink has the beginning of what the other one gets, whatever is tried after that. -/

namespace Writer

variable {α : Type} {limit : Nat} {first second : Writer}

/-- Two writers that differ in the limits of their sinks only. -/
structure Twins (limit : Nat) (limited unlimited : Writer) : Prop where
  same : limited = { unlimited with output := limited.output }
  output : limited.output.Twins limit unlimited.output

def limiting : Limiting WriterError Writer where
  Twins := Twins
  Jammed received writer := writer.output.Jammed received
  Reaches received writer := writer.output.Reaches received
  full := .sink .full

abbrev Cuts (action : Action α) : Prop := limiting.Cuts action

theorem twins_script (script : Script α) {output other : OutputBuffer}
    (twins : output.Twins limit other) :
    Agree (Twins limit) (script.run output) (script.run other) ∨
      ∃ received after, script.run output = .error (.sink .full) after ∧
        after.output.Jammed received ∧ received.size = limit ∧
        EndsIn (fun writer : Writer => writer.output.Reaches received) (script.run other) := by
  induction script generalizing output other with
  | done value writer => exact .inl (.ok value ⟨rfl, twins⟩)
  | refuse error writer => exact .inl (.error error ⟨rfl, twins⟩)
  | tell order script broken induction =>
      simp only [Script.run]
      obtain agrees | ⟨received, after, full, jammed, size, reaches⟩ :=
        (OutputBuffer.cuts_order order).twins twins
      · generalize order.action output = result at agrees ⊢
        generalize order.action other = result at agrees ⊢
        cases agrees with
        | ok _ twins => exact induction twins
        | error cause twins => exact .inl (.error _ ⟨rfl, twins⟩)
      · refine .inr ⟨received, { broken .full with output := after }, ?_, jammed, size, ?_⟩
        · rw [full]
          rfl
        · generalize order.action other = result at reaches ⊢
          cases result with
          | ok _ after =>
              exact script.endsIn_run (fun order _ => (OutputBuffer.cuts_order order).reaches)
                reaches
          | error cause after => exact reaches

theorem Scripted.cuts {action : Action α} (scripted : Scripted False action) : Cuts action where
  twins := by
    intro limit first second twins
    obtain ⟨script, _, runs⟩ := scripted second
    rw [twins.same, runs, show action second = script.run second.output from runs second.output]
    exact twins_script script twins.output
  jammed := scripted.endsIn fun order _ => (OutputBuffer.cuts_order order).jammed
  reaches := scripted.endsIn fun order _ => (OutputBuffer.cuts_order order).reaches

theorem cuts_onOutput {action : OutputBuffer.Action Unit} (cuts : OutputBuffer.Cuts action) :
    Cuts (onOutput action) where
  twins := by
    intro limit first second twins
    rw [twins.same]
    simp only [onOutput]
    obtain agrees | ⟨received, after, full, jammed, size, reaches⟩ := cuts.twins twins.output
    · generalize action first.output = result at agrees ⊢
      generalize action second.output = result at agrees ⊢
      cases agrees with
      | ok _ twins => exact .inl (.ok _ ⟨rfl, twins⟩)
      | error cause twins => exact .inl (.error _ ⟨rfl, twins⟩)
    · refine .inr ⟨received, { second with output := after }, by rw [full]; rfl, jammed, size, ?_⟩
      generalize action second.output = result at reaches ⊢
      cases result <;> exact reaches
  jammed := by
    intro received writer jammed
    have kept := cuts.jammed jammed
    simp only [onOutput]
    generalize action writer.output = result at kept ⊢
    cases result <;> exact kept
  reaches := by
    intro received writer reaches
    have kept := cuts.reaches reaches
    simp only [onOutput]
    generalize action writer.output = result at kept ⊢
    cases result <;> exact kept

theorem jammed_finish {received : ByteArray} {output : OutputBuffer}
    (jammed : output.Jammed received) :
    ∃ after, OutputBuffer.finish output = .error .full after ∧ after.Jammed received := by
  have kept : output.terminate.Jammed received :=
    (OutputBuffer.cuts_modify OutputBuffer.adds_terminate).jammed jammed
  refine ⟨output.terminate, ?_, kept⟩
  simp [OutputBuffer.finish, OutputBuffer.flush, OutputBuffer.push_of_jammed kept]

def hangUp : Action Unit := do
  modify fun writer => { writer with phase := .closed }
  onOutput OutputBuffer.finish

theorem cuts_hangUp : Cuts hangUp :=
  .bind (Scripted.cuts (.change fun _ _ => rfl)) fun _ => cuts_onOutput OutputBuffer.cuts_finish

theorem jammed_hangUp {received : ByteArray} {writer : Writer}
    (jammed : writer.output.Jammed received) :
    ∃ after, hangUp writer = .error (.sink .full) after ∧ after.output.Jammed received := by
  obtain ⟨after, fails, kept⟩ := jammed_finish jammed
  refine ⟨{ writer with phase := .closed, output := after }, ?_, kept⟩
  simp [hangUp, onOutput, fails]

def completed (writer : Writer) : Writer :=
  match completeAll writer with
  | .ok _ after => after
  | .error error after => { after with log := after.log.push (.leftIncomplete error) }

theorem shut_eq (writer : Writer) :
    shut writer = if writer.phase = .closed then .ok () writer else hangUp writer.completed := by
  have looks : shut writer =
      if writer.phase ≠ .closed then
        ((tryCatch completeAll fun error => report (.leftIncomplete error)) >>= fun _ => hangUp)
          writer
      else .ok () writer := by
    simp only [shut, Bind.bind, EStateM.bind, get_run]
    split <;> rfl
  rw [looks, ite_not]
  simp only [Bind.bind, EStateM.bind, tryCatch_run, completed]
  cases completeAll writer <;> rfl

theorem completed_of_endsIn {Holds : OutputBuffer → Prop} {writer : Writer}
    (ends : EndsIn (fun writer : Writer => Holds writer.output) (completeAll writer)) :
    Holds writer.completed.output := by
  unfold completed
  generalize completeAll writer = result at ends ⊢
  cases result <;> exact ends

theorem Twins.completed (twins : first.Twins limit second) :
    first.completed.Twins limit second.completed ∨
      ∃ received, first.completed.output.Jammed received ∧ received.size = limit ∧
        second.completed.output.Reaches received := by
  unfold Writer.completed
  obtain agrees | ⟨received, after, full, jammed, size, reaches⟩ :=
    scripted_completeAll.cuts.twins twins
  · generalize completeAll first = result at agrees ⊢
    generalize completeAll second = result at agrees ⊢
    cases agrees with
    | ok _ twins => exact .inl twins
    | error error twins => exact .inl ⟨by rw [twins.same], twins.output⟩
  · exact .inr ⟨received, by rw [full]; exact jammed, size, completed_of_endsIn reaches⟩

/-- Closing cuts the bytes at the limit: what cannot be completed is left, and then the
output that is jammed fails once more. -/
theorem cuts_shut : Cuts shut where
  twins := by
    intro limit first second twins
    have phase : first.phase = second.phase := by rw [twins.same]
    rw [shut_eq, shut_eq, phase]
    split
    · exact .inl (.ok _ twins)
    · obtain twins | ⟨received, jammed, size, reaches⟩ := twins.completed
      · exact cuts_hangUp.twins twins
      · obtain ⟨after, fails, kept⟩ := jammed_hangUp jammed
        exact .inr ⟨received, after, fails, kept, size, cuts_hangUp.reaches reaches⟩
  jammed := by
    intro received writer jammed
    rw [shut_eq]
    split
    · exact jammed
    · exact cuts_hangUp.jammed (completed_of_endsIn (scripted_completeAll.cuts.jammed jammed))
  reaches := by
    intro received writer reaches
    rw [shut_eq]
    split
    · exact reaches
    · exact cuts_hangUp.reaches (completed_of_endsIn (scripted_completeAll.cuts.reaches reaches))

theorem cuts_call (request : Call) : Cuts (call request) := by
  by_cases question : ∃ question, request = .query question
  · obtain ⟨question, rfl⟩ := question
    refine .get_bind (fun limit first second twins => ?_) fun writer => .pure _
    rw [twins.same]
    cases question <;> rfl
  · have cuts : Cuts (perform request) := by
      by_cases closes : request = .close
      · subst closes
        exact cuts_shut
      · exact ((scripted_perform closes).mono False.elim).cuts
    cases request
    case query question => exact absurd ⟨_, rfl⟩ question
    all_goals exact .bind cuts fun _ => .pure _

/-! ## Runs -/

/-- The limited writer is jammed with as many bytes as its sink takes, and the other one has
got them all. -/
def Parted (limit : Nat) (limited unlimited : Writer) : Prop :=
  ∃ received, limited.output.Jammed received ∧ received.size = limit ∧
    unlimited.output.Reaches received

theorem step_of_endsIn {Holds : Writer → Prop} {writer : Writer} {request : Call}
    (ends : EndsIn Holds (call request writer)) : Holds (writer.step request).2 := by
  unfold step
  generalize call request writer = result at ends ⊢
  cases result <;> exact ends

theorem Parted.step (parted : Parted limit first second) (request : Call) :
    Parted limit (first.step request).2 (second.step request).2 := by
  obtain ⟨received, jammed, size, reaches⟩ := parted
  exact ⟨received, step_of_endsIn ((cuts_call request).jammed jammed), size,
    step_of_endsIn ((cuts_call request).reaches reaches)⟩

theorem Parted.run (parted : Parted limit first second) (calls : List Call) :
    Parted limit (first.run calls).2 (second.run calls).2 := by
  induction calls generalizing first second with
  | nil => exact parted
  | cons request rest induction => exact induction (parted.step request)

/-- A call gives twins the same answer, or the limited one fails with a full sink. -/
theorem Twins.step (twins : first.Twins limit second) (request : Call) :
    ((first.step request).1 = (second.step request).1 ∧
        (first.step request).2.Twins limit (second.step request).2) ∨
      (first.step request).1 = .error (.sink .full) ∧
        Parted limit (first.step request).2 (second.step request).2 := by
  obtain agrees | ⟨received, after, full, jammed, size, reaches⟩ := (cuts_call request).twins twins
  · left
    unfold Writer.step
    generalize call request first = result at agrees ⊢
    generalize call request second = result at agrees ⊢
    cases agrees with
    | ok value twins => exact ⟨rfl, twins⟩
    | error error twins => exact ⟨rfl, twins⟩
  · have steps : first.step request = (.error (.sink .full), after) := by
      unfold Writer.step
      rw [full]
      rfl
    rw [steps]
    exact .inr ⟨rfl, received, jammed, size, step_of_endsIn reaches⟩

theorem failed_of_full {writer : Writer} {request : Call}
    (full : (writer.step request).1 = .error (.sink .full)) :
    (writer.step request).2.phase = .failed ∨
      request = .close ∧ (writer.step request).2.phase = .closed := by
  obtain ⟨answer, steps⟩ := step_eq writer request
  rw [steps] at full ⊢
  cases made : perform request writer with
  | ok _ after => simp [made] at full
  | error error after =>
      simp only [made, Except.error.injEq] at full ⊢
      subst full
      obtain ⟨_, notSink⟩ | failed | ⟨closed, other | closes⟩ := perform_error made
      · exact absurd rfl (notSink .full)
      · exact .inl failed
      · cases other
      · exact .inr ⟨closes, closed⟩

/-- After some calls the next one fails because the sink is full, and only because of that:
so far the limited writer has given the same answers as the other one. -/
structure Breaks (limited unlimited : Writer) (earlier : List Call) (request : Call) : Prop where
  same : (limited.run earlier).1 = (unlimited.run earlier).1
  full : ((limited.run earlier).2.step request).1 = .error (.sink .full)
  failed : ((limited.run earlier).2.step request).2.phase = .failed ∨
    request = .close ∧ ((limited.run earlier).2.step request).2.phase = .closed

theorem Twins.run (twins : first.Twins limit second) (calls : List Call) :
    ((first.run calls).1 = (second.run calls).1 ∧
        (first.run calls).2.Twins limit (second.run calls).2) ∨
      ∃ earlier request later, calls = earlier ++ request :: later ∧
        Breaks first second earlier request ∧
        Parted limit ((first.run earlier).2.step request).2
          ((second.run earlier).2.step request).2 := by
  -- The first call that meets the limit parts the twins. The calls before it are answered alike.
  induction calls generalizing first second with
  | nil => exact .inl ⟨rfl, twins⟩
  | cons request rest induction =>
      obtain ⟨same, twins⟩ | ⟨full, parted⟩ := twins.step request
      · obtain ⟨sameRest, twins⟩ | ⟨earlier, breaking, later, rfl, breaks, parted⟩ :=
          induction twins
        · exact .inl ⟨by simp only [Writer.run, same, sameRest], twins⟩
        · refine .inr ⟨request :: earlier, breaking, later, rfl, ⟨?_, breaks.full, breaks.failed⟩, parted⟩
          simp only [Writer.run, same, breaks.same]
      · exact .inr ⟨[], request, rest, rfl, ⟨rfl, full, failed_of_full full⟩, parted⟩

/-- A jammed writer refuses all that it would have to write. -/
theorem idle_of_jammed {received : ByteArray} {writer : Writer} {request : Call}
    (jammed : writer.output.Jammed received) (spent : writer.Spent)
    (ok : (writer.step request).1.isOk = true) :
    request.Idle ∨ request = .close ∧ writer.phase = .closed := by
  have performed := step_ok ok
  obtain idle | rfl | rfl := idle_of_perform spent performed
  · exact .inl idle
  · obtain ⟨_, performed⟩ := guarded_ok performed
    obtain ⟨_, flushed, _⟩ := onOutput_ok performed
    simp [OutputBuffer.flush, OutputBuffer.push_of_jammed jammed] at flushed
  · refine .inr ⟨rfl, ?_⟩
    by_contra notClosed
    have kept : writer.completed.output.Jammed received :=
      completed_of_endsIn (scripted_completeAll.cuts.jammed jammed)
    obtain ⟨after, fails, _⟩ := jammed_hangUp kept
    have performed : shut writer = .ok () (writer.step .close).2 := performed
    rw [shut_eq, if_neg notClosed, fails] at performed
    cases performed

/-! ## Giving up -/

def closed (writer : Writer) : Writer :=
  match shut writer with
  | .ok _ closed => closed
  | .error error closed => { closed with log := closed.log.push (.closeFailed error) }

theorem output_release (writer : Writer) :
    (release writer).output = writer.closed.output.release.1 := by
  simp only [release, closed]
  cases shut writer with
  | ok _ after => dsimp only; cases after.output.release.2 <;> rfl
  | error error after => dsimp only; cases after.output.release.2 <;> rfl

theorem closed_of_endsIn {Holds : OutputBuffer → Prop} {writer : Writer}
    (ends : EndsIn (fun writer : Writer => Holds writer.output) (shut writer)) :
    Holds writer.closed.output := by
  unfold closed
  generalize shut writer = result at ends ⊢
  cases result <;> exact ends

theorem Twins.release (twins : first.Twins limit second) :
    first.release.output.sink.received =
      second.release.output.sink.received.extract 0 limit := by
  rw [output_release, output_release]
  obtain agrees | ⟨received, after, full, jammed, rfl, reaches⟩ := cuts_shut.twins twins
  · have twins : first.closed.output.Twins limit second.closed.output := by
      unfold closed
      generalize shut first = result at agrees ⊢
      generalize shut second = result at agrees ⊢
      cases agrees with
      | ok _ twins => exact twins.output
      | error _ twins => exact twins.output
    exact twins.release
  · have jammed : first.closed.output.Jammed received := by
      unfold closed
      rw [full]
      exact jammed
    exact jammed.release (closed_of_endsIn reaches)

theorem Parted.release (parted : Parted limit first second) :
    first.release.output.sink.received =
      second.release.output.sink.received.extract 0 limit := by
  obtain ⟨received, jammed, rfl, reaches⟩ := parted
  rw [output_release, output_release]
  have closedJammed : first.closed.output.Jammed received :=
    closed_of_endsIn (cuts_shut.jammed jammed)
  exact closedJammed.release (closed_of_endsIn (cuts_shut.reaches reaches))

/-- A full sink truncates and never corrupts. Once all calls are made and the writer is given
up, a sink with a limit has exactly the beginning of the bytes that a sink without one has.
Up to the call that meets the limit the answers are the same. That call fails with a full
sink, and leaves the writer failed. All later calls but idle ones are refused. -/
theorem received_of_limit (encoder : Option Encoder) (canFlush : Bool) (settings : Settings)
    (limit : Nat) (calls : List Call) :
    let limited := create { sink := { limit := some limit, canFlush }, encoder } settings
    let unlimited := create { sink := { canFlush }, encoder } settings
    (limited.run calls).2.release.output.sink.received =
        (unlimited.run calls).2.release.output.sink.received.extract 0 limit ∧
      ((limited.run calls).1 = (unlimited.run calls).1 ∨
        ∃ earlier request later, calls = earlier ++ request :: later ∧
          Breaks limited unlimited earlier request ∧
          ∀ front next back, later = front ++ next :: back →
            let writer := (((limited.run earlier).2.step request).2.run front).2
            writer.Spent ∧ ((writer.step next).1.isOk = true →
              next.Idle ∨ next = .close ∧ writer.phase = .closed)) := by
  intro limited unlimited
  have twins : limited.Twins limit unlimited := ⟨rfl, rfl, rfl, Nat.zero_le _⟩
  obtain ⟨same, twinsLast⟩ | ⟨earlier, request, later, rfl, breaks, parted⟩ := twins.run calls
  · exact ⟨twinsLast.release, .inl same⟩
  · constructor
    · simp only [run_append, Writer.run]
      exact (parted.run later).release
    · refine .inr ⟨earlier, request, later, rfl, breaks, ?_⟩
      intro front next back _ writer
      obtain ⟨received, jammed, _, _⟩ := parted.run front
      have spent : ((limited.run earlier).2.step request).2.Spent :=
        breaks.failed.imp id And.right
      exact ⟨spent.run front, idle_of_jammed jammed (spent.run front)⟩

end Writer

end XmlStream
