import XmlStream.Proofs.Simulation.Completing

namespace XmlStream.Writer

/-! The invariant of writers that have not failed and are not closed, and what it is good
for: whatever is open can be completed, unless the value that is being written is refused. -/

variable {before after : Writer}

/-- The parts of a writer fit together. -/
structure Consistent (writer : Writer) : Prop where
  outside : writer.phase = .start ∨ writer.phase = .prolog ∨ writer.phase = .afterDoctype ∨
    writer.phase = .topAttribute ∨ writer.phase = .epilog → writer.depth = 0
  inside : writer.phase = .element ∨ writer.phase = .attribute → 0 < writer.depth
  document : writer.mode = .document → writer.phase ≠ .start ∧ writer.phase ≠ .topAttribute ∧
    (writer.phase = .content → 0 < writer.depth)
  lastToken : writer.phase = .element → writer.lastToken ≠ some .text
  oldest : writer.bindings.scope.head? = some Draft.xmlBinding
  marks : ∀ element ∈ writer.elements.opened,
    1 ≤ element.bindingMark ∧ element.bindingMark ≤ writer.bindings.size
  nested : (writer.elements.opened.map (·.bindingMark)).Pairwise (· ≥ ·)
  /-- No element binds a prefix twice. -/
  distinct : ∀ tier ∈ writer.bindings.scope.tiers (writer.elements.opened.map (·.bindingMark)),
    (tier.map (·.nsPrefix)).Nodup
  undeclared : ∀ position binding, writer.bindings.scope[position]? = some binding →
    binding.declared = false →
      (writer.phase = .element ∨ writer.phase = .attribute) ∧
        writer.top.bindingMark ≤ position
  bare : writer.depth = 0 → writer.bindings.scope = [Draft.xmlBinding]
  surroundings : writer.elements.outside.defaultUri = "" ∧
    writer.elements.outside.defaultNamespace = .unset
  /-- Bytes are left over only of a payload that still has to be ended. -/
  leftOver : writer.carry.bytes ≠ [] → writer.unflushed = true
  payloadPhase : writer.unflushed = true → Draft.TakesPayload writer.mode writer.phase

theorem nodup_of_mem_tiers {scope : Scope} {marks : List Nat} (tiered : scope.Tiered marks)
    {tier : Scope} (member : tier ∈ scope.tiers marks) : (tier.map (·.nsPrefix)).Nodup := by
  induction marks generalizing scope with
  | nil =>
      have only : scope = [Draft.xmlBinding] := tiered
      rw [List.mem_singleton.mp member, only]
      exact List.nodup_singleton _
  | cons mark outer induction =>
      rcases List.mem_cons.mp member with rfl | member
      · exact tiered.2.1
      · exact induction tiered.2.2.2 member

theorem Ready.consistent (ready : before.Ready) (tiered : before.draft.Tiered) :
    before.Consistent where
  outside := ready.placed.outside
  inside := ready.placed.inside
  document := ready.placed.document
  lastToken := ready.sound.lastToken
  oldest := by
    have first := ready.layered.first
    rw [draft_scope] at first
    cases found : before.bindings.scope with
    | nil => simp [found] at first
    | cons binding rest => simpa [found] using first
  marks := by
    intro element member
    have marked := ready.layered.marked
    rw [Draft.Marked, List.pairwise_cons] at marked
    refine ⟨ready.layered.positive element member, ?_⟩
    rw [← before.bindings.length_scope]
    exact marked.1 _ (List.mem_map_of_mem member)
  nested := by
    have marked := ready.layered.marked
    rw [Draft.Marked, List.pairwise_cons] at marked
    exact marked.2
  distinct tier := nodup_of_mem_tiers tiered.tiers
  undeclared := by
    intro position binding stands undeclared
    have member := List.mem_of_getElem? stands
    have inTag : before.phase = .element ∨ before.phase = .attribute := by
      by_contra between
      rw [not_or] at between
      have declared := tiered.declared between.1 between.2 binding member
      rw [declared] at undeclared
      cases undeclared
    refine ⟨inTag, ?_⟩
    rcases Draft.marks_eq_cons (ready.placed.inside inTag) with ⟨outer, marks⟩
    have tiers := tiered.tiers
    rw [marks] at tiers
    by_contra older
    have outside : binding ∈ before.bindings.scope.take before.top.bindingMark :=
      List.mem_of_getElem? (i := position) (by rwa [List.getElem?_take_of_lt (by omega)])
    have declared := tiers.2.2.1 binding outside
    rw [declared] at undeclared
    cases undeclared
  bare := tiered.scope_eq
  surroundings := ⟨ready.layered.outside, tiered.outside⟩
  leftOver some := ready.carried fun nothing => some (by
    rw [show before.carry = .empty from nothing]
    rfl)
  payloadPhase := ready.placed.takesPayload

/-- What is open can be completed, but for a value that is refused. -/
structure Completable (writer : Writer) : Prop where
  completes : (∃ after, completeAll writer = .ok () after ∧ after.depth = 0 ∧
      after.carry = .empty ∧ after.unflushed = false) ∨
    ∃ error after, completeAll writer = .error error after ∧ writer.Refuses error
  ends : (writer.mode = .document → writer.phase ≠ .prolog ∧ writer.phase ≠ .afterDoctype) →
    (∃ after, finishDocument writer = .ok () after) ∨
      ∃ error after, finishDocument writer = .error error after ∧ writer.Refuses error
  closes : ∃ after, shut writer = .ok () after ∧ after.phase = .closed ∧
    after.output.pending = .empty ∧ writer.release = after

theorem finish_of_unfailing {output : OutputBuffer} (unfailing : output.sink.Unfailing) :
    ∃ after, OutputBuffer.finish output = .ok () after ∧ after.pending = .empty ∧
      after.sink.Unfailing := by
  have kept : output.terminate.sink = output.sink := OutputBuffer.adds_terminate.sink output
  have unfailingStill : output.terminate.sink.Unfailing := by rwa [kept]
  rcases OutputBuffer.flush_of_unfailing unfailingStill with ⟨after, flushes, empty, still⟩
  refine ⟨after, ?_, empty, still⟩
  simp [OutputBuffer.finish, Bind.bind, EStateM.bind, modify_run, flushes]

theorem unfailing_completed (unfailing : before.output.sink.Unfailing) :
    before.completed.output.sink.Unfailing :=
  @completed_of_endsIn (fun output => output.sink.Unfailing) before
    (scripted_completeAll.endsIn OutputBuffer.order_of_unfailing unfailing)

theorem Ready.completable (ready : before.Ready) (live : ¬before.Spent)
    (unfailing : before.output.sink.Unfailing) : before.Completable where
  completes := by
    cases result : completeAll before with
    | ok _ after =>
        rcases completeAll_ok ready.sound result with ⟨_, _, empties⟩
        have carried := ready.carried.path empties.runs.path
        exact .inl ⟨after, rfl, empties.depth, carried.carry_eq_empty empties.payload,
          Draft.payload_eq_none.mp empties.payload⟩
    | error error after =>
        exact .inr ⟨error, after, rfl, (completeAll_error ready live unfailing result).1⟩
  ends := by
    intro whole
    cases result : finishDocument before with
    | ok _ after => exact .inl ⟨after, rfl⟩
    | error error after =>
        refine .inr ⟨error, after, rfl, ?_⟩
        have goesOn : (before.phase = .failed || (before.mode = .document &&
            (before.phase = .prolog || before.phase = .afterDoctype))) = false := by
          have notFailed : before.phase ≠ .failed := fun failed => live (.inl failed)
          cases mode : before.mode <;> simp_all
        simp only [finishDocument, bind_eq_error, get_eq_error, get_eq_ok, false_or] at result
        rcases result with ⟨_, _, ⟨rfl, rfl⟩, fails⟩
        simp only [goesOn, Bool.false_eq_true, if_false, bind_eq_error, modify_eq_error, false_or,
          modify_eq_ok] at fails
        rcases fails with fails | ⟨_, middle, completed, _, _, rfl, fails⟩
        · exact (completeAll_error ready live unfailing fails).1
        · have still := scripted_completeAll.unfailing unfailing completed
          rcases OutputBuffer.flush_of_unfailing still with ⟨output, flushes, _⟩
          rcases onOutput_error fails with ⟨_, _, _, fails, _⟩
          rw [show OutputBuffer.flush middle.output = _ from flushes] at fails
          cases fails
  closes := by
    rcases finish_of_unfailing (unfailing_completed unfailing) with
      ⟨output, finishes, empty, stillLast⟩
    have shuts : shut before = .ok () { before.completed with phase := .closed, output } := by
      rw [shut_eq, if_neg fun closed => live (.inr closed)]
      simp [hangUp, onOutput, finishes]
    refine ⟨_, shuts, rfl, empty, ?_⟩
    have flushes : OutputBuffer.flush output = .ok () output := by
      have nothing : output.pending.isEmpty = true := by rw [empty]; rfl
      simp [OutputBuffer.flush, OutputBuffer.push_of_isEmpty nothing, Bind.bind, EStateM.bind,
        OutputBuffer.onSink, Sink.flush, stillLast.canFlush]
    simp [release, shuts, OutputBuffer.release, flushes]

theorem tiered_create (output : OutputBuffer) (settings : Settings) :
    (create output settings).draft.Tiered := by
  have only : (create output settings).draft.scope = [Draft.xmlBinding] := rfl
  refine ⟨only, fun _ _ => ?_, rfl⟩
  rw [only]
  simp [Draft.xmlBinding]

/-- Every writer that calls lead to is consistent, unless it has failed or is closed. At the
start it has written nothing since it was made or since a document was ended, and as long as
the sink does not fail, all that is open can be completed. -/
theorem consistent_of_run (output : OutputBuffer) (settings : Settings) (calls : List Call)
    (writer : Writer) (reached : writer = ((create output settings).run calls).2)
    (live : ¬(writer.phase = .failed ∨ writer.phase = .closed)) :
    writer.Consistent ∧
      (writer.phase = .start → ∃ earlier later, calls = earlier ++ later ∧
        (create output settings).Since earlier ∧
        writer.output.delivered = ((create output settings).run earlier).2.output.delivered) ∧
      (output.sink.Unfailing → writer.Completable) := by
  subst reached
  have fresh := ready_create output settings
  have kept := run_keeps
    (fun writer => writer.draft.Tiered ∧ ∃ text, output.Extends text writer.output)
    (fun first call own second ready _ does holds => by
      rcases does with ⟨_, more, runs, _⟩
      rcases holds with ⟨tiered, text, extended⟩
      exact ⟨tiered.path ready.placed runs.path, _, extended.trans runs.output⟩)
    fresh ⟨tiered_create output settings, "", .refl output⟩ calls
  rcases kept with spent | ⟨ready, tiered, text, extended⟩
  · exact absurd spent live
  · refine ⟨ready.consistent tiered, delivered_of_start fresh calls, fun unfailing => ?_⟩
    exact ready.completable live
      ⟨extended.limit.trans unfailing.limit, extended.canFlush.trans unfailing.canFlush⟩

theorem consistent_of_run_declaring :
    let calls : List Call :=
      [.startElement { nsPrefix := some "p", localName := "a", uri := some "urn:x" },
        .startAttribute { nsPrefix := some "xmlns", localName := "q" }, .text "urn:y"]
    let writer := ((create { sink := {} }).run calls).2
    writer.phase = .attribute ∧ writer.Consistent ∧ writer.Completable := by
  intro calls writer
  have phase : writer.phase = .attribute := by decide +kernel
  have live : ¬(writer.phase = .failed ∨ writer.phase = .closed) := by simp [phase]
  have holds := consistent_of_run { sink := {} } {} calls writer rfl live
  exact ⟨phase, holds.1, holds.2.2 ⟨rfl, rfl⟩⟩

end XmlStream.Writer
