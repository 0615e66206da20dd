import Mathlib.Tactic.ByContra
import Mathlib.Tactic.Tauto
import XmlStream.Proofs.Draft.Step

namespace XmlStream.Draft

/-! What holds of every draft: how its phase goes with its elements, and how its scope
goes with them. Every step preserves this. -/

theorem depth_push (draft : Draft) : draft.push.depth = draft.depth + 1 := by
  simp [push, depth, ElementStack.push, ElementStack.depth]

theorem depth_push_pos (draft : Draft) (next : Phase) : 0 < (draft.push.enter next).depth := by
  rw [enter_depth, depth_push]
  exact Nat.succ_pos _

def TakesPayload (mode : Mode) (phase : Phase) : Prop :=
  phase = .content ∨ phase = .attribute ∨
    mode = .fragment ∧ (phase = .topAttribute ∨ phase = .epilog)

instance (mode : Mode) (phase : Phase) : Decidable (TakesPayload mode phase) :=
  inferInstanceAs (Decidable (_ ∨ _ ∨ _))

/-- The phase of a draft fits its mode, the elements that are open, and what is pending. -/
structure Placed (draft : Draft) : Prop where
  inside : draft.phase = .element ∨ draft.phase = .attribute → 0 < draft.depth
  outside : draft.phase = .start ∨ draft.phase = .prolog ∨ draft.phase = .afterDoctype ∨
    draft.phase = .topAttribute ∨ draft.phase = .epilog → draft.depth = 0
  document : draft.mode = .document → draft.phase ≠ .start ∧ draft.phase ≠ .topAttribute ∧
    (draft.phase = .content → 0 < draft.depth)
  special : draft.special ≠ none → draft.phase = .attribute ∨ draft.phase = .topAttribute
  payload : draft.payload ≠ none → TakesPayload draft.mode draft.phase

theorem Placed.special_eq_none {draft : Draft} (placed : draft.Placed)
    (notAttribute : draft.phase ≠ .attribute) (notTop : draft.phase ≠ .topAttribute) :
    draft.special = none := by
  by_contra some
  obtain inValue | onTop := placed.special some
  · exact notAttribute inValue
  · exact notTop onTop

theorem Placed.payload_eq_none {draft : Draft} (placed : draft.Placed)
    (other : ¬TakesPayload draft.mode draft.phase) : draft.payload = none := by
  by_contra some
  exact other (placed.payload some)

theorem Placed.takesPayload {draft : Draft} (placed : draft.Placed)
    (pending : draft.unflushed = true) : TakesPayload draft.mode draft.phase :=
  placed.payload (by simp [payload_of_unflushed pending])

/-- No bytes wait without a payload that they belong to. -/
def Carried (draft : Draft) : Prop := draft.carry ≠ .empty → draft.unflushed = true

theorem Carried.carry_eq_empty {draft : Draft} (carried : draft.Carried)
    (noPayload : draft.payload = none) : draft.carry = .empty := by
  by_contra some
  have pending := carried some
  rw [payload_eq_none.mp noPayload] at pending
  cases pending

/-- A change of phase that opens and closes no element and no attribute. -/
def Moves (mode : Mode) (phase next : Phase) : Prop :=
  next = phase ∨ (phase = .start ∨ phase = .prolog) ∧
    (next = .prolog ∨ next = .afterDoctype ∨ next = .content ∧ mode = .fragment)

instance (mode : Mode) (phase next : Phase) : Decidable (Moves mode phase next) :=
  inferInstanceAs (Decidable (_ ∨ _))

theorem moves_of_markup {mode : Mode} {token : Token} {phase next : Phase}
    (markup : token = .doctype ∨ token = .comment ∨ token = .processingInstruction ∨
      token = .cdata)
    (notElement : phase ≠ .element) (notAttribute : phase ≠ .attribute)
    (leads : mode.next? token phase = some next) : Moves mode phase next := by
  have all : (mode.next? token phase).all (fun next =>
      phase = .element ∨ phase = .attribute ∨ Moves mode phase next) = true := by
    obtain rfl | rfl | rfl | rfl := markup <;> cases mode <;> cases phase <;> rfl
  rw [leads] at all
  exact ((of_decide_eq_true all).resolve_left notElement).resolve_left notAttribute

theorem moves_of_text {mode : Mode} {token : Token} {phase next : Phase}
    (textual : token = .text ∨ token = .raw ∨ token = .whitespace ∨ token = .base64)
    (notElement : phase ≠ .element)
    (leads : mode.next? token phase = some next) : Moves mode phase next := by
  have all : (mode.next? token phase).all (fun next =>
      phase = .element ∨ Moves mode phase next) = true := by
    obtain rfl | rfl | rfl | rfl := textual <;> cases mode <;> cases phase <;> rfl
  rw [leads] at all
  exact (of_decide_eq_true all).resolve_left notElement

theorem Placed.moves {before after : Draft} {next : Phase} (placed : before.Placed)
    (moves : Moves before.mode before.phase next) (phase : after.phase = next)
    (mode : after.mode = before.mode) (depth : after.depth = before.depth)
    (special : after.special ≠ none → before.special ≠ none)
    (payload : after.payload ≠ none →
      before.payload ≠ none ∨ TakesPayload before.mode next) : after.Placed := by
  obtain same | ⟨early, next⟩ := moves
  · rw [same] at phase
    exact
      { inside := by rw [phase, depth]; exact placed.inside
        outside := by rw [phase, depth]; exact placed.outside
        document := by rw [phase, depth, mode]; exact placed.document
        special := fun some => by rw [phase]; exact placed.special (special some)
        payload := fun some => by
          rw [phase, mode]
          obtain still | takes := payload some
          · exact placed.payload still
          · rwa [← same] }
  · have outside : before.depth = 0 := placed.outside (by tauto)
    have noSpecial : before.special = none := by
      apply placed.special_eq_none <;> obtain early | early := early <;> simp [early]
    have noPayload : before.payload = none := by
      apply placed.payload_eq_none
      obtain early | early := early <;> simp [early, TakesPayload]
    subst phase
    refine ⟨?_, fun _ => depth.trans outside, ?_, fun some => absurd noSpecial (special some),
      fun some => ?_⟩
    · obtain next | next | ⟨next, _⟩ := next <;> simp [next]
    · obtain next | next | ⟨next, fragment⟩ := next
      · simp [next]
      · simp [next]
      · simp [mode, fragment]
    · rw [mode]
      exact (payload some).resolve_left (fun still => still noPayload)

theorem depth_pop (draft : Draft) : draft.pop.depth = draft.depth - 1 := by
  simp [pop, depth, ElementStack.pop, ElementStack.depth]

@[simp] theorem depth_markMixed (draft : Draft) : draft.markMixed.depth = draft.depth :=
  draft.depth_modifyTop _

@[simp] theorem depth_capture (draft : Draft) (text : String) :
    (draft.capture text).depth = draft.depth := rfl

@[simp] theorem enterText_depth (draft : Draft) (next : Phase) :
    (draft.enterText next).depth = draft.depth := by
  unfold enterText
  split
  · simp
  · rfl

@[simp] theorem depth_settle (draft : Draft) : draft.settle.depth = draft.depth := by
  simp only [settle, depth]
  split
  · simp
  · rfl

theorem placed_phaseAfterElement {before after : Draft} (inside : 0 < before.depth)
    (depth : after.depth = before.depth - 1) (mode : after.mode = before.mode)
    (phase : after.phase = before.phaseAfterElement) (special : after.special = none)
    (payload : after.payload = none) : after.Placed := by
  unfold phaseAfterElement at phase
  split at phase
  · rename_i root
    refine ⟨by simp [phase], fun _ => by omega, ?_, fun some => absurd special some,
      fun some => absurd payload some⟩
    simp [phase]
  · rename_i notRoot
    refine ⟨by simp [phase], by simp [phase], ?_, fun some => absurd special some,
      fun some => absurd payload some⟩
    intro document
    rw [mode] at document
    refine ⟨by simp [phase], by simp [phase], fun _ => ?_⟩
    have notLast : before.depth ≠ 1 := fun last => notRoot ⟨document, last⟩
    omega

theorem next?_startAttribute {mode : Mode} {phase next : Phase} (notInside : phase ≠ .attribute)
    (leads : mode.next? .startAttribute phase = some next) :
    phase = .element ∧ next = .attribute ∨
      mode = .fragment ∧ phase = .start ∧ next = .topAttribute := by
  have all : (mode.next? .startAttribute phase).all (fun next =>
      phase = .attribute ∨ phase = .element ∧ next = .attribute ∨
        mode = .fragment ∧ phase = .start ∧ next = .topAttribute) = true := by
    cases mode <;> cases phase <;> rfl
  rw [leads] at all
  exact (of_decide_eq_true all).resolve_left notInside

theorem next?_endAttribute {mode : Mode} {phase next : Phase}
    (leads : mode.next? .endAttribute phase = some next) :
    phase = .attribute ∧ next = .element ∨
      mode = .fragment ∧ phase = .topAttribute ∧ next = .epilog := by
  have all : (mode.next? .endAttribute phase).all (fun next =>
      phase = .attribute ∧ next = .element ∨
        mode = .fragment ∧ phase = .topAttribute ∧ next = .epilog) = true := by
    cases mode <;> cases phase <;> rfl
  rw [leads] at all
  exact of_decide_eq_true all

theorem takesPayload_of_base64 {mode : Mode} {phase next : Phase}
    (leads : mode.next? .base64 phase = some next) : TakesPayload mode next := by
  have all : (mode.next? .base64 phase).all (fun next => TakesPayload mode next) = true := by
    cases mode <;> cases phase <;> rfl
  rw [leads] at all
  exact of_decide_eq_true all

theorem Placed.step {before after : Draft} {event : Event} {text : String}
    (placed : before.Placed) (step : before.Step event text after) : after.Placed := by
  cases step with
  | xmlDeclaration encoding standalone start =>
      have outside : before.depth = 0 := placed.outside (by simp [start])
      have noSpecial : before.special = none := by apply placed.special_eq_none <;> simp [start]
      have noPayload : before.payload = none := placed.payload_eq_none (by simp [start, TakesPayload])
      exact ⟨by simp, fun _ => outside, by simp, fun some => absurd noSpecial some,
        fun some => absurd noPayload some⟩
  | doctype name publicId systemId subset ids next usable identified leads =>
      have notInside : before.phase ≠ .element ∧ before.phase ≠ .attribute := by
        constructor <;> intro phase <;> rw [phase] at leads <;> cases mode : before.mode <;>
          rw [mode] at leads <;> cases leads
      exact placed.moves (moves_of_markup (by simp) notInside.1 notInside.2 leads) rfl rfl rfl id .inl
  | line => exact placed
  | comment content next between noDashes noDash leads =>
      exact placed.moves (moves_of_markup (by simp) between.1 between.2.1 leads) rfl rfl rfl id .inl
  | instruction target content next between noEnd notXml usable leads =>
      exact placed.moves (moves_of_markup (by simp) between.1 between.2.1 leads) rfl rfl rfl id .inl
  | cdata content next between noEnd leads =>
      exact placed.moves (moves_of_markup (by simp) between.1 between.2.1 leads) rfl rfl
        (by simp) id .inl
  | startElement request nsPrefix after between named notXmlns disabled leads noPayload names =>
      have frames := names.frames (before.depth_push_pos .element)
      -- Between tags no value is open that an attribute or a payload could stand in.
      have noSpecial : before.special = none := placed.special_eq_none between.2.1 between.2.2
      have depth : after.depth = before.depth + 1 := frames.depth.trans before.depth_push
      have phase : after.phase = .element := frames.phase
      refine ⟨fun _ => ?_, ?_, ?_, fun some => absurd (frames.special.trans noSpecial) some,
        fun some => absurd (frames.payload.trans noPayload) some⟩
      · rw [depth_modifyTop, depth]
        omega
      · simp [modifyTop, phase]
      · simp [modifyTop, phase]
  | startAttribute request nsPrefix kind next after notInside named disabled leads names =>
      have frames := names.frames.trans (after.frames_noteAttribute nsPrefix)
      have phase : (after.noteAttribute nsPrefix).phase = next := frames.phase
      have mode : (after.noteAttribute nsPrefix).mode = before.mode := frames.mode
      have depth : (after.noteAttribute nsPrefix).depth = before.depth := frames.depth
      have payload : (after.noteAttribute nsPrefix).payload = before.payload := frames.payload
      obtain ⟨inTag, rfl⟩ | ⟨fragment, start, rfl⟩ := next?_startAttribute notInside leads
      · have inside := placed.inside (.inl inTag)
        refine ⟨fun _ => ?_, by simp [phase], by simp [phase], by simp [phase],
          fun _ => .inr (.inl phase)⟩
        exact Nat.lt_of_lt_of_eq inside depth.symm
      · have outside := placed.outside (.inl start)
        have noPayload : before.payload = none :=
          placed.payload_eq_none (by simp [start, TakesPayload])
        refine ⟨by simp [phase], fun _ => depth.trans outside, ?_, by simp [phase],
          fun some => absurd (payload.trans noPayload) some⟩
        simp [mode, fragment]
  | endAttribute next after leads noPayload applies =>
      have kept : after.mode = before.mode ∧ after.depth = before.depth ∧ after.special = none ∧
          after.payload = none := by
        split at applies
        · exact ⟨applies.frames.mode, applies.frames.depth, applies.frames.special,
            applies.frames.payload.trans noPayload⟩
        · rename_i noSpecial
          subst applies
          exact ⟨rfl, rfl, noSpecial, noPayload⟩
      obtain ⟨mode, depth, noSpecial, noPayload⟩ := kept
      obtain ⟨inValue, rfl⟩ | ⟨fragment, onTop, rfl⟩ := next?_endAttribute leads
      · have inside := placed.inside (.inr inValue)
        refine ⟨fun _ => ?_, by simp, by simp, fun some => absurd noSpecial some,
          fun some => absurd noPayload some⟩
        exact Nat.lt_of_lt_of_eq inside depth.symm
      · have outside := placed.outside (by simp [onTop])
        refine ⟨by simp, fun _ => depth.trans outside, ?_, fun some => absurd noSpecial some,
          fun some => absurd noPayload some⟩
        simp [mode, fragment]
  | endStartTag inTag =>
      have inside := placed.inside (.inl inTag)
      have noSpecial : before.special = none := by apply placed.special_eq_none <;> simp [inTag]
      refine ⟨by simp, by simp, fun _ => ⟨by simp, by simp, fun _ => ?_⟩,
        fun some => absurd noSpecial some, fun _ => .inl rfl⟩
      rw [enter_depth, depth_settle]
      exact inside
  | endEmptyTag inTag inside =>
      refine placed_phaseAfterElement inside ?_ rfl rfl ?_ ?_
      · rw [enter_depth, depth_pop, depth_settle]
      · exact placed.special_eq_none (by simp [inTag]) (by simp [inTag])
      · exact placed.payload_eq_none (by simp [inTag, TakesPayload])
  | endTag inContent inside noPayload =>
      refine placed_phaseAfterElement inside ?_ rfl rfl ?_ noPayload
      · rw [enter_depth, depth_pop]
      · exact placed.special_eq_none (by simp [inContent]) (by simp [inContent])
  | write piece next closed leads blank named legal =>
      refine placed.moves (moves_of_text ?_ closed leads) ?_ ?_ ?_ ?_ ?_
      · cases piece <;> simp [Piece.token]
      · simp [capture]
      · simp [capture]
      · simp
      · simp [capture]
      · rw [capture_payload, enterText_payload]
        exact .inl
  | qualify uri nsPrefix next after closed enabled nonEmpty notDefault leads finds =>
      have frames := finds.frames_noted next
      refine placed.moves (moves_of_text (.inl rfl) closed leads) ?_ ?_ ?_ ?_ ?_
      · exact frames.phase.trans (by simp)
      · exact frames.mode.trans (by simp)
      · exact frames.depth.trans (by simp)
      · simp [capture, frames.special]
      · rw [capture_payload, frames.payload, enterText_payload]
        exact .inl
  | feed chunk next closed leads =>
      refine placed.moves (moves_of_text (by simp) closed leads) ?_ ?_ ?_ ?_ ?_
      · simp [capture]
      · simp [capture]
      · exact before.enterText_depth next
      · simp [capture]
      · exact fun _ => .inr (takesPayload_of_base64 leads)
  | endPayload pending =>
      exact placed.moves (.inl rfl) rfl rfl rfl (by simp [capture])
        fun some => absurd rfl some
  | configure setting atStart unquoted =>
      exact ⟨placed.inside, placed.outside, placed.document, placed.special, placed.payload⟩
  | finish between outside complete noPayload =>
      have noSpecial : before.special = none := placed.special_eq_none between.2.1 between.2.2
      exact ⟨by simp [reset], fun _ => rfl, by simp [reset], fun some => absurd noSpecial some,
        fun some => absurd noPayload some⟩

theorem Carried.frames {before after : Draft} (carried : before.Carried)
    (frames : before.Frames after) : after.Carried := by
  rwa [Carried, frames.carry, frames.unflushed]

theorem Carried.step {before after : Draft} {event : Event} {text : String}
    (carried : before.Carried) (step : before.Step event text after) : after.Carried := by
  have entered (next : Phase) : (before.enterText next).Carried := by
    rwa [Carried, enterText_carry, enterText_unflushed]
  cases step with
  | startElement request nsPrefix after between named notXmlns disabled leads noPayload names =>
      have opened : (before.push.enter .element).Carried := carried
      have named := opened.frames (names.frames (before.depth_push_pos .element))
      exact named
  | startAttribute request nsPrefix kind next after notInside named disabled leads names =>
      have begun : (before.enter next).Carried := carried
      have named := begun.frames (names.frames.trans (after.frames_noteAttribute nsPrefix))
      exact named
  | endAttribute next after leads noPayload applies =>
      have applied : after.Carried := by
        split at applies
        · have ended : Carried { before with special := none } := carried
          exact ended.frames applies.frames
        · exact applies ▸ carried
      exact applied
  | write piece next => exact entered next
  | qualify uri nsPrefix next after closed enabled nonEmpty notDefault leads finds =>
      have named := (entered next).frames (finds.frames_noted next)
      exact named
  | feed => exact fun _ => rfl
  | endPayload => exact fun some => absurd rfl some
  | _ => exact carried

theorem Carried.path {before after : Draft} {events : List Event} {text : String}
    (carried : before.Carried) (path : before.Path events text after) : after.Carried := by
  induction path with
  | nil => exact carried
  | cons step _ induction => exact induction (carried.step step)

theorem Placed.path {before after : Draft} {events : List Event} {text : String}
    (placed : before.Placed) (path : before.Path events text after) : after.Placed := by
  induction path with
  | nil => exact placed
  | cons step _ induction => exact induction (placed.step step)

end XmlStream.Draft
