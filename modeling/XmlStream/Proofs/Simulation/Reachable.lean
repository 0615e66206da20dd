import XmlStream.Proofs.Draft.Tiered
import XmlStream.Proofs.Simulation.Runs

namespace XmlStream

/-! What holds of every writer that calls lead to, unless it has failed or is closed. -/

namespace Draft

theorem Step.start {before after : Draft} {event : Event} {text : String}
    (placed : before.Placed) (step : before.Step event text after) (goesOn : event ≠ .finish)
    (start : after.phase = .start) : before.phase = .start ∧ text = "" := by
  cases step with
  | xmlDeclaration => cases start
  | doctype _ _ _ _ _ _ _ _ leads => exact absurd start (next?_ne_start leads)
  | comment _ _ _ _ _ leads => exact absurd start (next?_ne_start leads)
  | instruction _ _ _ _ _ _ _ leads => exact absurd start (next?_ne_start leads)
  | cdata _ _ _ _ leads => exact absurd start (next?_ne_start leads)
  | endAttribute _ _ leads => exact absurd start (next?_ne_start leads)
  | line _ _ _ notStart => exact absurd start notStart
  | startElement _ _ found _ _ _ _ _ _ names =>
      have phase : found.phase = .element := (names.frames (before.depth_push_pos .element)).phase
      exact absurd (phase.symm.trans start) (by simp)
  | startAttribute _ nsPrefix _ next found _ _ _ leads names =>
      have frames := names.frames.trans (found.frames_noteAttribute nsPrefix)
      have phase : (found.noteAttribute nsPrefix).phase = next := frames.phase
      exact absurd (phase.symm.trans start) (next?_ne_start leads)
  | endStartTag => cases start
  | endEmptyTag => exact absurd start before.phaseAfterElement_ne_start
  | endTag => exact absurd start before.phaseAfterElement_ne_start
  | write _ next _ leads =>
      exact absurd ((before.enterText_phase next).symm.trans start) (next?_ne_start leads)
  | qualify _ _ next found _ _ _ _ leads finds =>
      have phase := (finds.frames_noted next).phase
      rw [enterText_phase] at phase
      exact absurd (phase.symm.trans start) (next?_ne_start leads)
  | feed _ next _ leads =>
      exact absurd ((before.enterText_phase next).symm.trans start) (next?_ne_start leads)
  | endPayload pending =>
      have still : before.phase = .start := start
      have taken := placed.takesPayload pending
      simp [still, TakesPayload] at taken
  | configure => exact ⟨start, rfl⟩
  | finish => exact absurd rfl goesOn

theorem Path.start {before after : Draft} {events : List Event} {text : String}
    (placed : before.Placed) (path : before.Path events text after)
    (goesOn : ∀ event ∈ events, event ≠ .finish) (start : after.phase = .start) :
    before.phase = .start ∧ text = "" := by
  induction path with
  | nil => exact ⟨start, rfl⟩
  | cons step _ induction =>
      rcases induction (placed.step step)
        (fun event member => goesOn event (List.mem_cons_of_mem _ member)) start with
        ⟨startToo, rfl⟩
      rcases step.start placed (goesOn _ List.mem_cons_self) startToo with ⟨here, rfl⟩
      exact ⟨here, rfl⟩

theorem next?_live {mode : Mode} {token : Token} {phase next : Phase}
    (leads : mode.next? token phase = some next) :
    next ≠ .failed ∧ next ≠ .closed := by
  have all : (mode.next? token phase).all (fun next => next ≠ .failed ∧ next ≠ .closed) = true := by
    cases mode <;> cases token <;> cases phase <;> rfl
  rw [leads] at all
  exact of_decide_eq_true all

def Live (draft : Draft) : Prop := draft.phase ≠ .failed ∧ draft.phase ≠ .closed

theorem Live.step {draft after : Draft} {event : Event} {text : String} (live : draft.Live)
    (step : draft.Step event text after) : after.Live := by
  have ended : draft.phaseAfterElement ≠ .failed ∧ draft.phaseAfterElement ≠ .closed := by
    unfold phaseAfterElement
    split <;> simp
  have entered (next : Phase) (lives : next ≠ .failed ∧ next ≠ .closed) :
      (draft.enterText next).Live := by
    rwa [Live, enterText_phase]
  cases step with
  | xmlDeclaration | endStartTag | finish => exact ⟨by simp [reset], by simp [reset]⟩
  | line | configure | endPayload => exact live
  | doctype _ _ _ _ _ _ _ _ leads => exact next?_live leads
  | comment _ _ _ _ _ leads => exact next?_live leads
  | instruction _ _ _ _ _ _ _ leads => exact next?_live leads
  | cdata _ _ _ _ leads => exact next?_live leads
  | startElement _ _ found _ _ _ _ _ _ names =>
      have phase : found.phase = .element := (names.frames (draft.depth_push_pos .element)).phase
      simp [Live, modifyTop, phase]
  | startAttribute _ nsPrefix _ next found _ _ _ leads names =>
      have frames := names.frames.trans (found.frames_noteAttribute nsPrefix)
      have phase : (found.noteAttribute nsPrefix).phase = next := frames.phase
      have lives := next?_live leads
      rwa [← phase] at lives
  | endAttribute _ _ leads => exact next?_live leads
  | endEmptyTag | endTag => exact ended
  | write _ next _ leads => exact entered next (next?_live leads)
  | feed _ next _ leads => exact entered next (next?_live leads)
  | qualify _ _ next found _ _ _ _ leads finds =>
      have phase := (finds.frames_noted next).phase.trans (draft.enterText_phase next)
      have lives := next?_live leads
      rwa [← phase] at lives

theorem Live.path {draft last : Draft} {events : List Event} {text : String} (live : draft.Live)
    (path : draft.Path events text last) : last.Live := by
  induction path with
  | nil => exact live
  | cons step _ induction => exact induction (live.step step)

end Draft

namespace Writer

variable {before after : Writer}

theorem Owns.ne_finish {call : Call} {own : List Event} (owns : Owns before call own)
    (goesOn : call ≠ .endDocument) : ∀ event ∈ own, event ≠ .finish := by
  cases owns with
  | finish => exact absurd rfl goesOn
  | attributeString _ _ _ _ _ adds => rcases adds with rfl | ⟨_, rfl⟩ <;> simp
  | elementString _ _ _ _ _ _ _ adds => rcases adds with rfl | ⟨_, _, rfl⟩ <;> simp
  | _ => simp

theorem Does.start {call : Call} {own : List Event} (ready : before.Ready)
    (owns : Owns before call own) (does : before.Does own after) (goesOn : call ≠ .endDocument)
    (start : after.phase = .start) :
    before.phase = .start ∧ after.output.delivered = before.output.delivered := by
  rcases does with ⟨events, text, runs, rfl⟩
  have others : ∀ event ∈ events, event ≠ .finish := by
    intro event member isFinish
    subst isFinish
    exact owns.ne_finish goesOn .finish (List.mem_filter.mpr ⟨member, rfl⟩) rfl
  rcases runs.path.start ready.placed others start with ⟨startToo, rfl⟩
  refine ⟨startToo, ?_⟩
  have delivered := runs.output.delivered
  have same := (OutputBuffer.Extends.refl before.output).delivered
  rw [← same] at delivered
  exact delivered

/-- The calls of a run since which nothing has been ended: none, or those up to the last end
of a document. -/
def Since (writer : Writer) (earlier : List Call) : Prop :=
  earlier = [] ∨ ∃ front, earlier = front ++ [.endDocument] ∧
    ((writer.run front).2.step .endDocument).1.isOk = true

theorem run_concat (writer : Writer) (calls : List Call) (call : Call) :
    (writer.run (calls ++ [call])).2 = ((writer.run calls).2.step call).2 := by
  rw [run_append]
  rfl

theorem Since.ready {output : OutputBuffer} {settings : Settings} {calls : List Call}
    (since : (create output settings).Since calls) :
    ((create output settings).run calls).2.Ready ∧
      ((create output settings).run calls).2.phase = .start := by
  rcases since with rfl | ⟨front, rfl, ok⟩
  · exact ⟨ready_create output settings, rfl⟩
  · rw [run_concat]
    have performed := step_ok ok
    have ready := ((run_extends (ready_create output settings) front).resolve_left
      (not_spent_of_endDocument performed)).1
    have finishes := (guarded_ok performed).2
    exact ⟨(finishDocument_ok ready.sound ready.placed finishes).ready ready,
      (start_of_finishDocument finishes).2.1⟩

theorem step_start {call : Call} (ready : before.Ready) (start : (before.step call).2.phase = .start)
    (goesOn : ¬(call = .endDocument ∧ (before.step call).1.isOk = true)) :
    before.phase = .start ∧
      (before.step call).2.output.delivered = before.output.delivered := by
  by_cases ok : (before.step call).1.isOk = true
  · have performed := step_ok ok
    by_cases closes : call = .close
    · subst closes
      have closed := shut_ok performed
      rw [start] at closed
      cases closed
    · rcases perform_ok ready closes performed with ⟨own, owns, does⟩
      exact does.start ready owns (fun ends => goesOn ⟨ends, ok⟩) start
  · rcases step_error ok with ⟨error, fails⟩
    rcases perform_error fails with ⟨same, _⟩ | failed | ⟨closed, _⟩
    · rw [same] at start ⊢
      exact ⟨start, rfl⟩
    · simp [start] at failed
    · simp [start] at closed

theorem delivered_of_start (ready : before.Ready) (calls : List Call)
    (start : (before.run calls).2.phase = .start) :
    ∃ earlier later, calls = earlier ++ later ∧ before.Since earlier ∧
      (before.run calls).2.output.delivered = (before.run earlier).2.output.delivered := by
  -- From the last call on backwards, up to the last end of a document.
  induction calls using List.reverseRecOn with
  | nil => exact ⟨[], [], rfl, .inl rfl, rfl⟩
  | append_singleton front call induction =>
      by_cases ends : call = .endDocument ∧ ((before.run front).2.step call).1.isOk = true
      · rcases ends with ⟨rfl, ok⟩
        exact ⟨front ++ [.endDocument], [], by simp, .inr ⟨front, rfl, ok⟩, rfl⟩
      · rw [run_concat] at start ⊢
        rcases run_keeps (fun _ => True) (fun _ _ _ _ _ _ _ _ => trivial) ready trivial front with
          spent | ⟨readyThere, _⟩
        · rcases spent.step call with failed | closed
          · simp [start] at failed
          · simp [start] at closed
        · rcases step_start readyThere start ends with ⟨startThere, same⟩
          rcases induction startThere with ⟨earlier, later, rfl, since, kept⟩
          exact ⟨earlier, later ++ [call], by simp, since, same.trans kept⟩

end Writer

end XmlStream
