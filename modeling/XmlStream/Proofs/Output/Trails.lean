import XmlStream.Proofs.Output.Accrual
import XmlStream.Proofs.Output.Alongside

namespace XmlStream

/-! The trails that runs of calls leave: the steps that have led from one writer to another one, up to
where that is closed, and the text that the output has got by them. -/

namespace OutputBuffer

/-- An output has got a text, and perhaps what ends its encoding. -/
def Gets (origin : OutputBuffer) (text : String) (output : OutputBuffer) : Prop :=
  output.delivered = origin.delivered ++ (encoded origin.encoder text).2 ∨
    output.delivered = origin.delivered ++ (encoded origin.encoder text).2 ++
      switchBack (encoded origin.encoder text).1

variable {origin whole output after : OutputBuffer} {text : String}

theorem Extends.gets (extended : origin.Extends text output) : origin.Gets text output :=
  .inl extended.delivered

theorem Extends.gets_trans {more : String} (extended : origin.Extends text whole)
    (gets : whole.Gets more output) : origin.Gets (text ++ more) output := by
  rw [Gets, encoded_append]
  rw [Gets, extended.delivered, extended.encoder] at gets
  simpa only [ByteArray.append_assoc] using gets

theorem Gets.delivered (gets : origin.Gets text output) (noEncoder : origin.encoder = none) :
    output.delivered = origin.delivered ++ text.toUTF8 := by
  rw [Gets, noEncoder] at gets
  simpa [encoded, switchBack] using gets

theorem gets_of_finish {nothing : Unit} (extended : origin.Extends text whole)
    (finishes : finish whole = .ok nothing output) : origin.Gets text output := by
  rcases received_of_finish finishes with ⟨empty, received⟩
  have ended : whole.terminate.delivered = whole.delivered ++ switchBack whole.encoder := by
    cases found : whole.encoder <;>
      simp [terminate, found, switchBack, delivered, ByteArray.append_assoc]
  right
  rw [delivered, empty, received, ByteArray.append_empty, ended, extended.delivered, extended.encoder]

/-- A sink that has not got more than it has room for, and whether it can be flushed. -/
structure Steady (able : Bool) (output : OutputBuffer) : Prop where
  canFlush : output.sink.canFlush = able
  room : ∀ limit, output.sink.limit = some limit → output.sink.received.size ≤ limit

variable {able : Bool}

theorem Steady.push (steady : output.Steady able) : EndsIn (Steady able) (push output) := by
  have taken (limit : Nat) (found : output.sink.limit = some limit) :
      (output.sink.received ++ output.sink.fitting output.pending).size ≤ limit := by
    have room := steady.room limit found
    rw [ByteArray.size_append, Sink.fitting, found, ByteArray.size_extract]
    omega
  cases nothing : output.pending.isEmpty with
  | true =>
      rw [push_of_isEmpty nothing]
      exact steady
  | false =>
      by_cases full : (output.sink.fitting output.pending).size = output.pending.size
      · have fits := fitting_eq_of_size full
        rw [push_of_fitting nothing fits]
        rw [fits] at taken
        exact ⟨steady.canFlush, taken⟩
      · rw [push_of_full nothing full]
        exact ⟨steady.canFlush, taken⟩

theorem Steady.order (order : Order) (output : OutputBuffer) (steady : output.Steady able) :
    EndsIn (Steady able) (order.action output) := by
  cases order with
  | write text =>
      have sink : (output.append (text output.encoding?)).sink = output.sink := by
        cases found : output.encoder <;> simp [append, found]
      have appended : (output.append (text output.encoding?)).Steady able :=
        ⟨sink ▸ steady.canFlush, sink ▸ steady.room⟩
      simp only [Order.action, write_eq]
      split
      · exact appended.push
      · exact appended
  | flush =>
      refine endsIn_bind steady.push fun _ middle still => ?_
      simp only [onSink, Sink.flush]
      cases middle.sink.canFlush <;> exact still

theorem canFlush_of_finish {nothing : Unit} (finishes : finish output = .ok nothing after) :
    output.sink.canFlush = true := by
  have same : output.terminate.sink = output.sink := adds_terminate.sink output
  simp only [finish, flush, bind_eq_ok, modify_eq_ok] at finishes
  rcases finishes with ⟨_, _, rfl, _, middle, pushed, flushed⟩
  have kept := (extends_of_push pushed).1.canFlush
  rw [same] at kept
  rw [← kept]
  by_contra unable
  simp [onSink, Sink.flush, unable] at flushed

end OutputBuffer

namespace Writer

variable {before after origin : Writer} {call : Call} {own : List Event} {fine : Event → Prop}

theorem all_of_own {Fits : Event → Prop} {events : List Event}
    (owned : events.filter (!·.completes) = own) (ofOwn : ∀ event ∈ own, Fits event)
    (ofCompletion : ∀ event : Event, event.completes = true → Fits event) :
    ∀ event ∈ events, Fits event := by
  intro event member
  by_cases completes : event.completes = true
  · exact ofCompletion event completes
  · refine ofOwn event ?_
    rw [← owned]
    exact List.mem_filter.mpr ⟨member, by simpa using completes⟩

theorem concludes_shut {able : Bool} {nothing : Unit} (ready : before.Ready) (live : ¬before.Spent)
    (steady : before.output.Steady able) (ok : shut before = .ok nothing after) :
    ∃ events text last, before.Concludes events text last before.completed ∧
      OutputBuffer.finish before.completed.output = .ok () after.output ∧
      after.elements = before.completed.elements := by
  have notClosed : before.phase ≠ .closed := (not_or.mp live).2
  rw [shut_eq, if_neg notClosed] at ok
  have hung := ok
  simp only [hangUp, bind_eq_ok, modify_eq_ok] at hung
  rcases hung with ⟨_, _, rfl, hung⟩
  rcases onOutput_ok hung with ⟨output, finishes, rfl⟩
  have finishes : OutputBuffer.finish before.completed.output = .ok () output := finishes
  have flushable : before.output.sink.canFlush = true := by
    have stillSteady : before.completed.output.Steady able :=
      completed_of_endsIn (scripted_completeAll.endsIn OutputBuffer.Steady.order steady)
    rw [steady.canFlush, ← stillSteady.canFlush]
    exact OutputBuffer.canFlush_of_finish finishes
  cases limited : before.output.sink.limit with
  | none =>
      rcases concludes_completed ready live ⟨limited, flushable⟩ with
        ⟨events, text, last, concludes⟩
      exact ⟨events, text, last, concludes, finishes, rfl⟩
  | some limit =>
      -- The writer is compared to one whose sink has no limit.
      let endless : Writer := { before with output.sink.limit := none }
      have twins : before.Twins limit endless := by
        refine ⟨rfl, ?_, rfl, steady.room limit limited⟩
        show before.output = { before.output with sink.limit := some limit }
        rw [← limited]
      have readyToo : endless.Ready :=
        ⟨⟨ready.sound.bindings, ready.sound.lastToken⟩, ready.placed, ready.layered, ready.carried⟩
      have liveToo : ¬endless.Spent := live
      rcases concludes_completed readyToo liveToo ⟨rfl, flushable⟩ with
        ⟨events, text, last, path, completes, grown, elements⟩
      rcases twins.completed with twinsToo | ⟨received, jammed, _⟩
      · have same : before.completed.elements = last.elements := by
          rw [twinsToo.same]
          exact elements
        refine ⟨events, text, last, ⟨path, completes, ?_, same⟩, finishes, rfl⟩
        rw [twinsToo.output.same]
        exact ⟨grown.delivered, grown.encoder, limited.symm, grown.canFlush⟩
      · rcases jammed_hangUp jammed with ⟨_, fails, _⟩
        rw [fails] at ok
        cases ok

theorem steady_create {settings : Settings} (limit : Option Nat) (canFlush : Bool)
    (encoder : Option Encoder) :
    (create { sink := { limit, canFlush }, encoder } settings).output.Steady canFlush :=
  ⟨rfl, fun _ _ => Nat.zero_le _⟩

/-- The steps that have led from one writer to another one, or to where that one was closed. All events
on the way are fine. -/
inductive Trail (fine : Event → Prop) (origin writer : Writer) : Prop
  | live (events : List Event) (text : String) (path : origin.draft.Path events text writer.draft)
      (all : ∀ event ∈ events, fine event) (extended : origin.output.Extends text writer.output)
      (steady : writer.output.Steady origin.output.sink.canFlush) (ready : writer.Ready)
      (goesOn : ¬writer.Spent)
  | closed (events : List Event) (text : String) (last : Draft)
      (path : origin.draft.Path events text last) (all : ∀ event ∈ events, fine event)
      (gets : origin.output.Gets text writer.output) (closed : writer.phase = .closed)

theorem Trail.perform {nothing : Unit} (trail : Trail fine origin before)
    (ofCompletion : ∀ event : Event, event.completes = true → fine event)
    (ofOwn : ∀ own, Owns before call own → ∀ event ∈ own, fine event)
    (ok : perform call before = .ok nothing after) : Trail fine origin after := by
  cases trail with
  | closed events text last path all gets closed =>
      rcases closed_of_perform closed ok with ⟨_, closedToo, same, _⟩
      exact .closed events text last path all (same ▸ gets) closedToo
  | live events text path all extended steady ready goesOn =>
      by_cases isClose : call = .close
      · subst isClose
        rcases concludes_shut ready goesOn steady ok with ⟨closing, more, last, concludes, finishes, _⟩
        refine .closed (events ++ closing) _ last (path.append concludes.path) ?_
          (OutputBuffer.gets_of_finish (extended.trans concludes.output) finishes) (shut_ok ok)
        exact List.forall_mem_append.mpr ⟨all, fun event member =>
          ofCompletion event (concludes.events event member)⟩
      · rcases perform_ok ready isClose ok with ⟨own, owns, does⟩
        have readyAfter := does.ready ready
        rcases does with ⟨further, more, runs, owned⟩
        have allToo := all_of_own owned (ofOwn own owns) ofCompletion
        have performs := ((scripted_perform isClose).mono False.elim).endsIn
          OutputBuffer.Steady.order steady
        rw [ok] at performs
        have live : before.draft.Live := not_or.mp goesOn
        exact .live (events ++ further) _ (path.append runs.path)
          (List.forall_mem_append.mpr ⟨all, allToo⟩) (extended.trans runs.output) performs readyAfter
          (not_or.mpr (live.path runs.path))

theorem Trail.run {calls : List Call} (trail : Trail fine origin before)
    (ofCompletion : ∀ event : Event, event.completes = true → fine event)
    (ofOwn : ∀ call ∈ calls, ∀ writer own, Owns writer call own → ∀ event ∈ own, fine event)
    (accepts : before.Accepts calls) : Trail fine origin (before.run calls).2 := by
  induction calls generalizing before with
  | nil => exact trail
  | cons call rest induction =>
      rcases accepts_cons.mp accepts with ⟨ok, acceptsRest⟩
      have next := trail.perform ofCompletion (ofOwn call List.mem_cons_self before) (step_ok ok)
      exact induction next (fun other member => ofOwn other (List.mem_cons_of_mem _ member)) acceptsRest

theorem trail_of_run {limit : Option Nat} {canFlush : Bool} {encoder : Option Encoder}
    {settings : Settings} {calls : List Call}
    (ofCompletion : ∀ event : Event, event.completes = true → fine event)
    (ofOwn : ∀ call ∈ calls, ∀ writer own, Owns writer call own → ∀ event ∈ own, fine event)
    (accepts : (create { sink := { limit, canFlush }, encoder } settings).Accepts calls) :
    let writer := create { sink := { limit, canFlush }, encoder } settings
    Trail fine writer (writer.run calls).2 := by
  intro writer
  have start : Trail fine writer writer :=
    .live [] "" (.nil _) (by simp) (.refl _) (steady_create limit canFlush encoder)
      (ready_create _ _) (by simp [Spent, writer, create])
  exact start.run ofCompletion ofOwn accepts

theorem Trail.ends (trail : Trail fine origin after) :
    ∃ events text last, origin.draft.Path events text last ∧ (∀ event ∈ events, fine event) ∧
      origin.output.Gets text after.output := by
  cases trail with
  | live events text path all extended => exact ⟨events, text, _, path, all, extended.gets⟩
  | closed events text last path all gets => exact ⟨events, text, last, path, all, gets⟩

end Writer

end XmlStream
