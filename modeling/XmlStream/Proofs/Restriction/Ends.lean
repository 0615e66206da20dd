import XmlStream.Proofs.Restriction.Steps

namespace XmlStream

/-! The ends of elements and of documents. The end of the root element leads a document to its epilog,
and the fragment beside it on. -/

namespace Writer

open OutputBuffer (Shares)

variable {earlier own : ByteArray} {first second writer : Writer} {token : Token}

def makeRoomForEnd (token : Token) : Action Token := do
  finishPayload
  makeRoom token .content

theorem blind_makeRoomForEnd (token : Token) :
    Blind (Shares earlier own) Within Eq (makeRoomForEnd token) :=
  .bind blind_finishPayload fun _ => blind_makeRoom token .content

def leaveFor (next : Phase) (written : Token) : Action Unit := do
  modify fun writer => { writer with phase := next, lastToken := some written }
  leaveElement

theorem advance_endToken {separate : Bool} {next : Phase}
    (leads : writer.nextPhase? (endToken separate) = some next) :
    advance (endToken separate) writer =
      (makeRoomForEnd (endToken separate) >>= fun written =>
        modify fun writer => { writer with phase := next, lastToken := some written }) writer := by
  rw [advance_eq leads, makeRoomForEnd, bind_assoc]
  cases separate <;> rfl

theorem closeElement_of_leads {separate : Bool} {next : Phase}
    (opened : ¬(writer.depth = 0 && writer.phase ≠ .failed) = true)
    (leads : writer.nextPhase? (endToken separate) = some next) :
    closeElement separate writer =
      (makeRoomForEnd (endToken separate) >>= leaveFor next) writer := by
  have goes := advance_endToken leads
  have split : (makeRoomForEnd (endToken separate) >>= leaveFor next) writer =
      ((makeRoomForEnd (endToken separate) >>= fun written =>
        modify fun writer => { writer with phase := next, lastToken := some written }) >>=
          fun _ => leaveElement) writer := by
    rw [bind_assoc]
    rfl
  rw [closeElement_eq, if_neg opened, split]
  simp only [Bind.bind, EStateM.bind] at goes ⊢
  rw [goes]

def CanEnd (phase : Phase) : Prop := phase = .attribute ∨ phase = .element ∨ phase = .content

theorem nextPhase?_endToken (separate : Bool) (writer : Writer) :
    (CanEnd writer.phase ∧
        writer.nextPhase? (endToken separate) = some writer.draft.phaseAfterElement) ∨
      ¬CanEnd writer.phase ∧ writer.nextPhase? (endToken separate) = none := by
  cases leads : writer.nextPhase? (endToken separate) with
  | some next =>
      obtain ⟨canEnd, rfl⟩ := phases_of_nextPhase? (isEnd_endToken separate) leads
      exact .inl ⟨canEnd, rfl⟩
  | none =>
      refine .inr ⟨fun canEnd => ?_, rfl⟩
      have goes : writer.mode.next? (endToken separate) writer.phase = some .content := by
        obtain phase | phase | phase := canEnd <;> rw [phase] <;> cases separate <;>
          cases writer.mode <;> rfl
      simp only [nextPhase?, goes] at leads
      split at leads <;> cases leads

theorem leaveFor_ok (akin : Akin (Shares earlier own) Within Eq first second) (next : Phase)
    (written : Token) :
    ∃ after afterToo, leaveFor next written first = .ok () after ∧
      leaveFor .content written second = .ok () afterToo ∧
      Akin (Shares earlier own) (Posed next .content) Eq after afterToo := by
  obtain ⟨_, posed, _⟩ := akin.stance
  have moved : Akin (Shares earlier own) (Posed next .content) Eq
      { first with phase := next, lastToken := some written }
      { second with phase := .content, lastToken := some written } :=
    { akin with stance := ⟨⟨posed.mode, posed.modeToo, rfl, rfl⟩, rfl⟩ }
  obtain ⟨_, after, leaves, _⟩ := sure_leaveElement moved.output.unfailing
  obtain ⟨afterToo, leavesToo, left⟩ := blind_leaveElement.permits moved leaves
  exact ⟨after, afterToo, leaves, leavesToo, left⟩

theorem restricts_of_closeElement {separate : Bool} {after afterToo : Writer}
    (akin : Akin (Shares earlier own) Within Eq first second)
    (closes : closeElement separate first = .ok () after)
    (left : Akin (Shares earlier own) (Posed first.draft.phaseAfterElement .content) Eq after afterToo) :
    Restricts (Shares earlier own) after afterToo := by
  obtain ⟨_, posed, _⟩ := akin.stance
  obtain ⟨_, _, ends⟩ := closeElement_ok akin.sound closes
  by_cases root : first.depth = 1
  · have leads : first.draft.phaseAfterElement = .epilog := if_pos ⟨posed.mode, root⟩
    rw [leads] at left
    have none : after.elements.opened = [] :=
      List.length_eq_zero_iff.mp (Nat.succ.inj (ends.depth.trans root))
    exact .after { left with elements := ⟨by rw [left.elements]; exact .refl _, none⟩ }
  · have leads : first.draft.phaseAfterElement = .content := if_neg fun ends => root ends.2
    rw [leads] at left
    exact .within { left with stance := ⟨.content, left.stance, by decide⟩ }

theorem closeElement_of_none {separate : Bool} (none : writer.elements.opened = [])
    (live : writer.phase ≠ .failed) :
    closeElement separate writer = .error .noOpenElement writer := by
  have depth : writer.depth = 0 := List.length_eq_zero_iff.mpr none
  simp [closeElement_eq, depth, live]

theorem agree_closeElement_inside {separate : Bool}
    (akin : Akin (Shares earlier own) Within Eq first second)
    (inside : ¬(first.depth = 0 && first.phase ≠ .failed) = true)
    (leads : first.nextPhase? (endToken separate) = some first.draft.phaseAfterElement)
    (leadsToo : second.nextPhase? (endToken separate) = some .content) :
    Agree (Restricts (Shares earlier own)) (closeElement separate first)
      (closeElement separate second) := by
  have insideToo := inside
  rw [akin.depth, akin.phase] at insideToo
  have closes := closeElement_of_leads inside leads
  have closesToo := closeElement_of_leads insideToo leadsToo
  have agrees := blind_makeRoomForEnd (endToken separate) akin
  simp only [Bind.bind, EStateM.bind] at closes closesToo
  generalize makeRoomForEnd (endToken separate) first = result at agrees closes
  generalize makeRoomForEnd (endToken separate) second = resultToo at agrees closesToo
  cases agrees with
  | error error akin =>
      rw [closes, closesToo]
      exact .error _ (.within akin)
  | ok written room =>
      obtain ⟨after, afterToo, leaves, leavesToo, left⟩ :=
        leaveFor_ok room first.draft.phaseAfterElement written
      have closes := closes.trans leaves
      rw [closes, closesToo.trans leavesToo]
      exact .ok _ (restricts_of_closeElement akin closes left)

theorem closeElement_of_stuck {separate : Bool}
    (inside : ¬(writer.depth = 0 && writer.phase ≠ .failed) = true)
    (leads : writer.nextPhase? (endToken separate) = none) :
    closeElement separate writer =
      .error (.misplaced (endToken separate) writer.phase) writer := by
  rw [closeElement_eq, if_neg inside]
  simp only [advance, Bind.bind, EStateM.bind, get_run, leads]
  rfl

theorem mirrors_closeElement (separate : Bool) :
    Mirrors (Restricts (Shares earlier own)) (closeElement separate) (closeElement separate) := by
  intro first second restricts
  cases restricts with
  | fresh akin noElement noPayload plain =>
      obtain ⟨phase, phaseToo⟩ := akin.stance.phases
      rw [closeElement_of_none (akin.elements ▸ noElement) (by simp [phase]),
        closeElement_of_none noElement (by simp [phaseToo])]
      exact .error _ (.fresh akin noElement noPayload plain)
  | after akin =>
      obtain ⟨phase, phaseToo⟩ := akin.stance.phases
      have noElement := akin.elements.noElement
      rw [closeElement_of_none noElement (by simp [phase]),
        closeElement_of_none (akin.elements.opened ▸ noElement) (by simp [phaseToo])]
      exact .error _ (.after akin)
  | within akin =>
      by_cases outside : (first.depth = 0 && first.phase ≠ .failed) = true
      · have outsideToo := outside
        rw [akin.depth, akin.phase] at outsideToo
        rw [closeElement_eq, closeElement_eq, if_pos outside, if_pos outsideToo]
        exact .error _ (.within akin)
      have inside := outside
      rw [akin.depth, akin.phase] at inside
      have same := akin.phase
      obtain ⟨canEnd, leads⟩ | ⟨stuck, leads⟩ := nextPhase?_endToken separate first <;>
        obtain ⟨canEndToo, leadsToo⟩ | ⟨stuckToo, leadsToo⟩ := nextPhase?_endToken separate second
      · have fragment : second.draft.phaseAfterElement = .content := by
          obtain ⟨_, posed, _⟩ := akin.stance
          simp [Draft.phaseAfterElement, posed.modes.2]
        exact agree_closeElement_inside akin outside leads (fragment ▸ leadsToo)
      · exact absurd (same ▸ canEnd) stuckToo
      · exact absurd (same ▸ canEndToo) stuck
      · rw [closeElement_of_stuck outside leads, closeElement_of_stuck inside leadsToo, same]
        exact .error _ (.within akin)

theorem mirrors_closeElements (count : Nat) :
    Mirrors (Restricts (Shares earlier own)) (closeElements count) (closeElements count) := by
  induction count with
  | zero => exact .pure _
  | succ count induction => exact .bind (mirrors_closeElement false) fun _ => induction

theorem mirrors_finishPayload :
    Mirrors (Restricts (Shares earlier own)) finishPayload finishPayload := by
  intro first second restricts
  cases restricts with
  | within akin => exact (blind_finishPayload akin).mono fun _ _ => .within
  | fresh akin noElement noPayload plain =>
      rw [finishPayload_of_none (akin.payload.trans noPayload), finishPayload_of_none noPayload]
      exact .ok _ (.fresh akin noElement noPayload plain)
  | after akin => exact (blind_finishPayload akin).mono fun _ _ => .after

theorem mirrors_completeAll :
    Mirrors (Restricts (Shares earlier own)) completeAll completeAll := by
  refine .bind mirrors_finishPayload fun _ => .get_bind fun first second restricts => ?_
  rw [if_neg restricts.inner.2.1, if_neg restricts.phaseToo_ne.1]
  refine .get_bind fun first second restricts => ?_
  rw [restricts.depth]
  exact mirrors_closeElements _

/-! ## Documents -/

theorem Restricts.reset (restricts : Restricts (Shares earlier own) first second) :
    Akin (Shares earlier own) Eq Eq
      { first with
        bindings := first.bindings.popTo 1
        elements := {}, mode := .fragment, phase := .start, lastToken := none }
      { second with
        bindings := second.bindings.popTo 1
        elements := {}, mode := .fragment, phase := .start, lastToken := none } := by
  cases restricts with
  | within akin | fresh akin | after akin =>
      exact { akin.popTo 1 with elements := rfl, stance := rfl }

theorem permits_finishDocument :
    Permits (Restricts (Shares earlier own)) (Akin (Shares earlier own) Eq Eq) finishDocument
      finishDocument := by
  refine .get_bind fun first second restricts => .refuse (fun refused => ?_) ?_
  · simp only [restricts.modes.2, reduceCtorEq, decide_false, Bool.false_and, Bool.or_false,
      decide_eq_true_eq] at refused
    simp [(restricts.phase_iff (.inl rfl)).mpr refused]
  · refine .bind mirrors_completeAll.permits fun _ => .bind (.change fun _ _ => ?_) fun _ =>
      (blind_onOutput OutputBuffer.Faithful.flush).permits
    exact Restricts.reset

theorem Restricts.ended (restricts : Restricts (Shares earlier own) first second) :
    Akin (Shares earlier own) Ended UpToMixed { first with phase := .closed }
      { second with phase := .closed } := by
  have elements := restricts.upToMixed
  cases restricts with
  | within akin | fresh akin | after akin =>
      exact { akin with elements, stance := ⟨rfl, rfl⟩ }

theorem Restricts.withOutput {output outputToo : OutputBuffer}
    (restricts : Restricts (Shares earlier own) first second)
    (shares : Shares earlier own output outputToo) (log logToo : Array LogEvent) :
    Restricts (Shares earlier own) { first with output, log }
      { second with output := outputToo, log := logToo } := by
  cases restricts with
  | within akin => exact .within { akin with output := shares }
  | fresh akin noElement noPayload plain =>
      exact .fresh { akin with output := shares } noElement noPayload plain
  | after akin => exact .after { akin with output := shares }

theorem mirrors_report (event : LogEvent) :
    Mirrors (Restricts (Shares earlier own)) (report event) (report event) :=
  .change fun _ _ restricts => restricts.withOutput restricts.output _ _

theorem mirrors_flush :
    Mirrors (Restricts (Shares earlier own)) (onOutput OutputBuffer.flush)
      (onOutput OutputBuffer.flush) := by
  intro first second restricts
  obtain ⟨after, flushes, _⟩ := OutputBuffer.flush_of_unfailing restricts.output.unfailing
  obtain ⟨afterToo, flushesToo, shares⟩ :=
    OutputBuffer.Faithful.flush.permits restricts.output flushes
  simp only [onOutput, flushes, flushesToo]
  exact .ok _ (restricts.withOutput shares _ _)

theorem permits_shut :
    Permits (Restricts (Shares earlier own)) (Akin (Shares earlier own) Ended UpToMixed) shut
      shut := by
  refine .get_bind fun first second restricts => ?_
  rw [if_pos restricts.inner.2.2, if_pos restricts.phaseToo_ne.2]
  refine .bind (Mirrors.tryCatch mirrors_completeAll fun error => mirrors_report _).permits fun _ => ?_
  refine .bind (.change fun _ _ => Restricts.ended) fun _ => ?_
  exact (blind_onOutput OutputBuffer.Faithful.finish).permits

end Writer

end XmlStream
