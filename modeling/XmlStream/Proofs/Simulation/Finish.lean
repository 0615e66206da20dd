import XmlStream.Proofs.Simulation.Markup

namespace XmlStream.Writer

/-! The end of a document or fragment: everything that is open is completed, and the
writer begins anew. -/

variable {before after : Writer}

structure Empties (before : Writer) (events : List Event) (text : String) (after : Writer) :
    Prop where
  runs : before.Runs events text after
  events : ∀ event ∈ events, event.completes
  depth : after.depth = 0
  mode : after.mode = before.mode
  phase : after.phase = before.phase ∨ after.phase = .content ∨ after.phase = .epilog
  notTop : after.phase ≠ .topAttribute
  payload : after.payload = none

theorem phaseAfterElement_cases (draft : Draft) :
    draft.phaseAfterElement = .content ∨ draft.phaseAfterElement = .epilog := by
  unfold Draft.phaseAfterElement
  split <;> simp

theorem closeElements_ok {count : Nat} {nothing : Unit} (sound : before.Sound)
    (counts : before.depth = count) (noPayload : before.payload = none)
    (notTop : before.phase ≠ .topAttribute)
    (ok : closeElements count before = .ok nothing after) :
    ∃ events text, Empties before events text after := by
  induction count generalizing before with
  | zero =>
      simp only [closeElements, pure_eq_ok, true_and] at ok
      subst ok
      exact ⟨[], "", .refl sound, by simp, counts, rfl, .inl rfl, notTop, noPayload⟩
  | succ count induction =>
      simp only [closeElements, bind_eq_ok] at ok
      obtain ⟨_, middle, closed, ok⟩ := ok
      obtain ⟨_, _, ends⟩ := closeElement_ok sound.bindings closed
      have depth : middle.depth = count := by
        have less := ends.depth
        omega
      have phase : middle.phase = .content ∨ middle.phase = .epilog := by
        rw [ends.phase]
        exact phaseAfterElement_cases _
      have notTop : middle.phase ≠ .topAttribute := by
        obtain phase | phase := phase <;> simp [phase]
      obtain ⟨_, _, rest⟩ := induction ends.runs.sound depth ends.payload notTop ok
      refine ⟨_, _, ends.runs.trans rest.runs, ?_, rest.depth, rest.mode.trans ends.mode, ?_,
        rest.notTop, rest.payload⟩
      · intro event member
        exact (List.mem_append.mp member).elim (ends.events event) (rest.events event)
      · obtain same | other := rest.phase
        · rw [same]
          exact .inr phase
        · exact .inr other

theorem Completes.sound_of_eq {events : List Event} {text : String}
    (completes : Completes before.draft before events text after.draft after)
    (sound : before.Sound) : after.Sound where
  bindings := completes.sound sound.bindings
  lastToken := by
    rw [completes.keeps.phase, completes.keeps.lastToken]
    exact sound.lastToken

theorem completeAll_ok {nothing : Unit} (sound : before.Sound)
    (ok : completeAll before = .ok nothing after) :
    ∃ events text, Empties before events text after := by
  simp only [completeAll, bind_eq_ok, get_eq_ok, ite_eq_ok] at ok
  obtain ⟨_, paid, finished, _, _, ⟨rfl, rfl⟩, ok⟩ := ok
  obtain ⟨events, text, completes, noPayload, _⟩ := finishPayload_ok finished
  have soundPaid := completes.sound_of_eq sound
  have first : before.Runs events text paid := ⟨completes.path, completes.output, soundPaid⟩
  obtain ⟨onTop, _, middle, ended, _, _, ⟨rfl, rfl⟩, ok⟩ | ⟨notTop, _, _, ⟨rfl, rfl⟩, ok⟩ := ok
  · obtain ⟨_, _, second, ends, leads, mode, depth⟩ :=
      advance_endAttribute_ok soundPaid.bindings ended
    have phase : middle.phase = .epilog := by
      rw [onTop] at leads
      cases mode : paid.mode <;> rw [mode] at leads
      · exact (Option.some.inj leads).symm
      · cases leads
    have noPayload := payload_of_completes second.path ends noPayload
    obtain ⟨_, _, third⟩ := closeElements_ok second.sound rfl noPayload (by simp [phase]) ok
    refine ⟨_, _, (first.trans second).trans third.runs, ?_, third.depth, ?_, ?_, third.notTop,
      third.payload⟩
    · intro event member
      simp only [List.mem_append] at member
      obtain (member | member) | member := member
      · exact completes.events event member
      · exact ends event member
      · exact third.events event member
    · rw [third.mode, mode, completes.keeps.mode]
    · obtain same | other := third.phase
      · exact .inr (.inr (same.trans phase))
      · exact .inr other
  · obtain ⟨_, _, second⟩ := closeElements_ok soundPaid rfl noPayload notTop ok
    refine ⟨_, _, first.trans second.runs, ?_, second.depth, ?_, ?_, second.notTop,
      second.payload⟩
    · intro event member
      exact (List.mem_append.mp member).elim (completes.events event) (second.events event)
    · rw [second.mode, completes.keeps.mode]
    · rw [← completes.keeps.phase]
      exact second.phase

def restarted (writer : Writer) : Writer :=
  { writer with
    bindings := writer.bindings.popTo 1
    elements := {}
    mode := .fragment
    phase := .start
    lastToken := none }

theorem finishDocument_ok {nothing : Unit} (sound : before.Sound) (placed : before.draft.Placed)
    (ok : finishDocument before = .ok nothing after) : before.Does [.finish] after := by
  simp only [finishDocument, bind_eq_ok, get_eq_ok, refuse_bind_eq_ok, modify_eq_ok] at ok
  obtain ⟨_, _, ⟨rfl, rfl⟩, whole, _, middle, completed, _, _, rfl, flushed⟩ := ok
  obtain ⟨output, flushes, rfl⟩ := onOutput_ok flushed
  obtain ⟨events, text, empties⟩ := completeAll_ok sound completed
  have placedMiddle := placed.path empties.runs.path
  have outside : middle.draft.depth = 0 := empties.depth
  have between : middle.draft.Between := by
    refine ⟨fun inTag => ?_, fun inValue => ?_, empties.notTop⟩
    · exact absurd (placedMiddle.inside (.inl inTag)) (by omega)
    · exact absurd (placedMiddle.inside (.inr inValue)) (by omega)
  have complete : middle.draft.mode = .document →
      middle.draft.phase ≠ .prolog ∧ middle.draft.phase ≠ .afterDoctype := by
    intro document
    have rooted : before.phase ≠ .prolog ∧ before.phase ≠ .afterDoctype := by
      have document : before.mode = .document := empties.mode.symm.trans document
      simp only [document, Bool.or_eq_true, Bool.and_eq_true, decide_eq_true_eq, true_and] at whole
      tauto
    obtain phase | phase | phase := empties.phase <;> simp [phase, rooted]
  have step : middle.draft.Step .finish _ _ :=
    .finish between outside complete empties.payload
  have result : middle.restarted.draft = middle.draft.reset := by
    simp only [draft, restarted, Bindings.scope_popTo]
    rfl
  rw [← result] at step
  have runs : middle.Runs [.finish] "" { middle.restarted with output } :=
    ⟨.single step, (OutputBuffer.extends_of_flush flushes).1,
      empties.runs.sound.bindings.popTo 1, by simp [restarted]⟩
  refine ⟨_, _, empties.runs.trans runs, ?_⟩
  rw [List.filter_append, filter_completes empties.events]
  rfl

theorem start_of_finishDocument {nothing : Unit}
    (ok : finishDocument before = .ok nothing after) :
    after.output.pending = .empty ∧ after.phase = .start ∧ after.lastToken = none := by
  simp only [finishDocument, bind_eq_ok, get_eq_ok, refuse_bind_eq_ok, modify_eq_ok] at ok
  obtain ⟨_, _, ⟨rfl, rfl⟩, _, _, _, _, _, _, rfl, flushed⟩ := ok
  obtain ⟨output, flushes, rfl⟩ := onOutput_ok flushed
  exact ⟨(OutputBuffer.extends_of_flush flushes).2, rfl, rfl⟩

end XmlStream.Writer
