import XmlStream.Proofs.Restriction.Stances

namespace XmlStream

/-! What is written one at a time: a token that can stand in a document can stand in the
fragment beside it, and what is written for it is the same. -/

theorem Mode.next?_of_document {token : Token} {phase next : Phase}
    (leads : Mode.document.next? token phase = some next) (mode : Mode) :
    mode.next? token phase = some next := by
  have allowed : token.next? phase = some next := by
    simp only [Mode.next?, Option.ite_none_right_eq_some] at leads
    exact leads.2
  cases mode with
  | document => exact leads
  | fragment => exact allowed

theorem Mode.inner_of_document {token : Token} {phase next : Phase}
    (leads : Mode.document.next? token phase = some next) : Writer.Inner next := by
  have all : (Mode.document.next? token phase).all (fun next => Writer.Inner next) = true := by
    cases token <;> cases phase <;> rfl
  rw [leads] at all
  exact of_decide_eq_true all

def Token.isOuter : Token → Bool
  | .processingInstruction | .comment | .raw | .whitespace => true
  | _ => false

theorem Token.isOuter_of_epilog {token : Token} {next : Phase}
    (leads : Mode.document.next? token .epilog = some next) :
    token.isOuter = true ∧ next = .epilog := by
  have all : (Mode.document.next? token .epilog).all (fun next =>
      token.isOuter = true ∧ next = .epilog) = true := by
    cases token <;> rfl
  rw [leads] at all
  exact of_decide_eq_true all

namespace Writer

open OutputBuffer (Shares)

variable {earlier own : ByteArray} {first second writer : Writer} {token : Token}

theorem nextPhase?_eq (other : token ≠ .endElement ∧ token ≠ .separateEnd) (writer : Writer) :
    writer.nextPhase? token = writer.mode.next? token writer.phase := by
  cases leads : writer.mode.next? token writer.phase <;> simp [nextPhase?, leads, other.1, other.2]

/-! ## Tokens -/

theorem permits_advance_within (other : token ≠ .endElement ∧ token ≠ .separateEnd) :
    Permits (Akin (Shares earlier own) Within Eq) (Akin (Shares earlier own) Within Eq)
      (advance token) (advance token) := by
  intro first second akin value after ok
  obtain ⟨next, _, _, _, leads, _⟩ := advance_ok ok
  have document : Mode.document.next? token first.phase = some next := by
    obtain ⟨_, posed, _⟩ := akin.stance
    rwa [nextPhase?_eq other, posed.modes.1] at leads
  have leadsToo : second.nextPhase? token = some next := by
    rw [nextPhase?_eq other, ← akin.phase]
    exact Mode.next?_of_document document _
  have does : Blind (Shares earlier own) Within Eq
      ((if token ≠ .base64 then finishPayload else pure ()) >>= fun _ =>
        makeRoom token next >>= fun written =>
          modify fun writer => { writer with phase := next, lastToken := some written }) := by
    refine .bind (.ite blind_finishPayload (.pure _)) fun _ =>
      .bind (blind_makeRoom token next) fun written => .change fun first second akin => ?_
    obtain ⟨_, posed, _⟩ := akin.stance
    exact { akin with
      stance := ⟨next, ⟨⟨posed.mode, posed.modeToo, rfl, rfl⟩, rfl⟩, Mode.inner_of_document document⟩ }
  rw [advance_eq leads] at ok
  rw [advance_eq leadsToo]
  exact does.permits akin ok

theorem advance_outside {next : Phase} (phase : writer.phase = .prolog ∨ writer.phase = .start)
    (noPayload : writer.payload = none) (plain : writer.indents = false)
    (leads : Mode.document.next? token .prolog = some next)
    (leadsHere : writer.nextPhase? token = some next) :
    advance token writer = .ok () { writer with phase := next, lastToken := some token } := by
  have makes : makeRoom token next writer = .ok token writer := by
    cases token <;> cases leads <;> obtain phase | phase := phase <;>
      simp [makeRoom, closeOpenTag, indentNext, get_bind_eq, phase, plain, pure, EStateM.pure]
  rw [advance_eq leadsHere]
  split <;> simp [Bind.bind, EStateM.bind, finishPayload_of_none noPayload, makes, modify_run, pure,
    EStateM.pure]

theorem permits_advance_fresh {after : Writer} {nothing : Unit}
    (akin : Akin (Shares earlier own) (Apart .prolog .start) Eq first second)
    (noPayload : second.payload = none) (plain : second.indents = false)
    (ok : advance token first = .ok nothing after) :
    ∃ afterToo, advance token second = .ok () afterToo ∧
      Akin (Shares earlier own) Within Eq after afterToo := by
  obtain ⟨next, _, _, _, leads, _⟩ := advance_ok ok
  obtain ⟨phase, phaseToo⟩ := akin.stance.phases
  obtain ⟨mode, modeToo⟩ := akin.stance.modes
  have other : token ≠ .endElement ∧ token ≠ .separateEnd := by
    constructor <;> rintro rfl <;> simp [nextPhase?, phase, Mode.next?, Token.next?] at leads
  have document : Mode.document.next? token .prolog = some next := by
    rwa [nextPhase?_eq other, phase, mode] at leads
  have fragment : second.nextPhase? token = some next := by
    rw [nextPhase?_eq other, phaseToo, modeToo]
    cases token <;> cases document <;> rfl
  rw [advance_outside (.inl phase) (akin.payload.trans noPayload) (akin.indents.trans plain) document
    leads] at ok
  cases ok
  refine ⟨_, advance_outside (.inr phaseToo) noPayload plain document fragment, ?_⟩
  exact { akin with
    stance := ⟨next, ⟨⟨mode, modeToo, rfl, rfl⟩, rfl⟩, Mode.inner_of_document document⟩ }

theorem mirrors_indentNext_after :
    Mirrors (Akin (Shares earlier own) (Posed .epilog .content) Rootless) indentNext indentNext := by
  refine .get_bind fun first second akin => ?_
  obtain ⟨phase, phaseToo⟩ := akin.stance.phases
  rw [phase, phaseToo, akin.indents]
  refine .ite (.get_bind fun first second akin => ?_) (.pure _)
  have noElement := akin.elements.noElement
  have depth : first.depth = 0 := List.length_eq_zero_iff.mpr noElement
  have depthToo : second.depth = 0 :=
    List.length_eq_zero_iff.mpr (akin.elements.opened.symm.trans noElement)
  rw [depth, depthToo]
  exact blind_emit _

theorem markMixed_after (token : Token) :
    Mirrors (Akin (Shares earlier own) (Posed .epilog .content) Rootless) (pure token)
      (markMixed >>= fun _ => pure token) := by
  intro first second akin
  refine .ok _ { akin with elements := ?_ }
  obtain ⟨⟨opened, outside⟩, noElement⟩ := akin.elements
  have noElementToo : second.elements.opened = [] := opened.symm.trans noElement
  refine ⟨⟨?_, ?_⟩, noElement⟩
  · simp [ElementStack.modifyTop, noElementToo, opened]
  · simp only [ElementStack.modifyTop, noElementToo]
    exact outside

theorem mirrors_makeRoom_after (outer : token.isOuter = true) :
    Mirrors (Akin (Shares earlier own) (Posed .epilog .content) Rootless) (makeRoom token .epilog)
      (makeRoom token .content) := by
  refine .get_bind fun first second akin => ?_
  have closes : Mirrors (Akin (Shares earlier own) (Posed .epilog .content) Rootless) closeOpenTag
      closeOpenTag := by
    refine .get_bind fun first second akin => ?_
    obtain ⟨phase, phaseToo⟩ := akin.stance.phases
    rw [phase, phaseToo]
    exact .pure _
  obtain ⟨phase, phaseToo⟩ := akin.stance.phases
  cases token with
  | processingInstruction | comment =>
      exact .bind closes fun _ => .bind mirrors_indentNext_after fun _ => .pure _
  | raw | whitespace =>
      simp only [phase, phaseToo, reduceCtorEq, decide_false, Bool.false_and, Bool.false_eq_true,
        if_false, if_true]
      exact markMixed_after _
  | _ => cases outer

theorem permits_advance_after {after : Writer} {nothing : Unit}
    (akin : Akin (Shares earlier own) (Posed .epilog .content) Rootless first second)
    (ok : advance token first = .ok nothing after) :
    token.isOuter = true ∧ ∃ afterToo, advance token second = .ok () afterToo ∧
      Akin (Shares earlier own) (Posed .epilog .content) Rootless after afterToo := by
  obtain ⟨next, _, _, _, leads, _⟩ := advance_ok ok
  obtain ⟨phase, phaseToo⟩ := akin.stance.phases
  obtain ⟨mode, modeToo⟩ := akin.stance.modes
  have other : token ≠ .endElement ∧ token ≠ .separateEnd := by
    constructor <;> rintro rfl <;> simp [nextPhase?, phase, Mode.next?, Token.next?] at leads
  have document : Mode.document.next? token .epilog = some next := by
    rwa [nextPhase?_eq other, phase, mode] at leads
  obtain ⟨outer, rfl⟩ := Token.isOuter_of_epilog document
  have leadsToo : second.nextPhase? token = some .content := by
    rw [nextPhase?_eq other, phaseToo, modeToo]
    cases token <;> cases outer <;> rfl
  refine ⟨outer, ?_⟩
  rw [advance_eq leads] at ok
  rw [advance_eq leadsToo]
  refine Mirrors.permits ?_ akin ok
  refine .bind (.ite blind_finishPayload (.pure _)) fun _ =>
    .bind (mirrors_makeRoom_after outer) fun written => .change fun first second akin => ?_
  exact { akin with stance := ⟨⟨akin.stance.mode, akin.stance.modeToo, rfl, rfl⟩, rfl⟩ }

def Begun (earlier own : ByteArray) (first second : Writer) : Prop :=
  Akin (Shares earlier own) Within Eq first second ∨
    Akin (Shares earlier own) (Posed .epilog .content) Rootless first second

theorem Begun.restricts (begun : Begun earlier own first second) :
    Restricts (Shares earlier own) first second :=
  begun.elim .within .after

/-- Whatever a document leaves room for leads into it, or stays behind its root element. -/
theorem permits_advance (other : token ≠ .endElement ∧ token ≠ .separateEnd) :
    Permits (Restricts (Shares earlier own)) (Begun earlier own) (advance token) (advance token) := by
  intro first second restricts value after ok
  cases restricts with
  | within akin =>
      obtain ⟨afterToo, does, akin⟩ := permits_advance_within other akin ok
      exact ⟨afterToo, does, .inl akin⟩
  | fresh akin _ noPayload plain =>
      obtain ⟨afterToo, does, akin⟩ := permits_advance_fresh akin noPayload plain ok
      exact ⟨afterToo, does, .inl akin⟩
  | after akin =>
      obtain ⟨_, afterToo, does, akin⟩ := permits_advance_after akin ok
      exact ⟨afterToo, does, .inr akin⟩

theorem permits_advance_inner (other : token ≠ .endElement ∧ token ≠ .separateEnd)
    (inner : token.isOuter = false) :
    Permits (Restricts (Shares earlier own)) (Akin (Shares earlier own) Within Eq) (advance token)
      (advance token) := by
  intro first second restricts value after ok
  cases restricts with
  | within akin => exact permits_advance_within other akin ok
  | fresh akin _ noPayload plain => exact permits_advance_fresh akin noPayload plain ok
  | after akin =>
      have outer := (permits_advance_after akin ok).1
      rw [inner] at outer
      cases outer

end Writer

end XmlStream
