import XmlStream.Proofs.Completion.Implicit
import XmlStream.Proofs.Output.Alongside
import XmlStream.Proofs.Restriction.Permits

namespace XmlStream

/-! A writer of a document beside a writer of a fragment that has got the same calls, but not
the one that began the document. They can be in different phases outside of the root element, and
hold the same apart from that. -/

namespace OutputBuffer

/-- Outputs of one text, each behind what it had before. Neither encodes, and neither fails. -/
structure Shares (earlier own : ByteArray) (first second : OutputBuffer) : Prop where
  encoder : first.encoder = none
  encoderToo : second.encoder = none
  unfailing : first.sink.Unfailing
  unfailingToo : second.sink.Unfailing
  text : ∃ text : String, first.delivered = earlier ++ text.toUTF8 ∧
    second.delivered = own ++ text.toUTF8

variable {earlier own : ByteArray} {first second after afterToo : OutputBuffer}

theorem Shares.extend {more : String} (shares : Shares earlier own first second)
    (extended : first.Extends more after) (extendedToo : second.Extends more afterToo) :
    Shares earlier own after afterToo := by
  rcases shares with ⟨encoder, encoderToo, unfailing, unfailingToo, text, delivered, deliveredToo⟩
  refine ⟨extended.encoder_of_none encoder, extendedToo.encoder_of_none encoderToo,
    extended.unfailing unfailing, extendedToo.unfailing unfailingToo, text ++ more, ?_, ?_⟩
  · rw [extended.delivered_of_none encoder, delivered]
    simp [ByteArray.append_assoc]
  · rw [extendedToo.delivered_of_none encoderToo, deliveredToo]
    simp [ByteArray.append_assoc]

theorem mirrors_write_of_shares (text : String) :
    Mirrors (Shares earlier own) (write text) (write text) := by
  intro first second shares
  rcases write_of_unfailing shares.unfailing text with ⟨after, writes, _⟩
  rcases write_of_unfailing shares.unfailingToo text with ⟨afterToo, writesToo, _⟩
  rw [writes, writesToo]
  exact .ok _ (shares.extend (extends_of_write writes) (extends_of_write writesToo))

theorem mirrors_flush_of_shares : Mirrors (Shares earlier own) flush flush := by
  intro first second shares
  rcases flush_of_unfailing shares.unfailing with ⟨after, flushes, _⟩
  rcases flush_of_unfailing shares.unfailingToo with ⟨afterToo, flushesToo, _⟩
  rw [flushes, flushesToo]
  exact .ok _ (shares.extend (extends_of_flush flushes).1 (extends_of_flush flushesToo).1)

theorem terminate_of_none {output : OutputBuffer} (encoder : output.encoder = none) :
    output.terminate = output := by
  simp only [terminate, encoder]

instance : Faithful (Shares earlier own) where
  encoding? first second shares := by rw [encoding?, encoding?, shares.encoder, shares.encoderToo]
  write := mirrors_write_of_shares
  flush := mirrors_flush_of_shares
  finish := by
    refine .bind (.change fun first second shares => ?_) fun _ => mirrors_flush_of_shares
    rwa [terminate_of_none shares.encoder, terminate_of_none shares.encoderToo]

end OutputBuffer

namespace Writer

open OutputBuffer (Shares)

/-! ## Stances -/

structure Apart (phase otherPhase : Phase) (own other : Stance) : Prop where
  mode : own.mode = .document
  modeToo : other.mode = .fragment
  phase : own.phase = phase
  phaseToo : other.phase = otherPhase

structure Posed (phase otherPhase : Phase) (own other : Stance) : Prop
    extends Apart phase otherPhase own other where
  lastToken : own.lastToken = other.lastToken

abbrev Inner (phase : Phase) : Prop :=
  phase ≠ .start ∧ phase ≠ .topAttribute ∧ phase ≠ .closed

def Within (own other : Stance) : Prop := ∃ phase, Posed phase phase own other ∧ Inner phase

structure Ended (own other : Stance) : Prop where
  phase : own.phase = .closed
  phaseToo : other.phase = .closed

instance (phase otherPhase : Phase) : AfterToken (Posed phase otherPhase) where
  lastToken _ _ := Posed.lastToken

instance : InPhase Within where
  phase := by
    rintro own other ⟨phase, posed, _⟩
    rw [posed.phase, posed.phaseToo]

instance : AfterToken Within where
  lastToken := by
    rintro own other ⟨phase, posed, _⟩
    exact posed.lastToken

theorem Apart.phases {phase otherPhase : Phase} {first second : Writer}
    (apart : Apart phase otherPhase first.stance second.stance) :
    first.phase = phase ∧ second.phase = otherPhase :=
  ⟨apart.phase, apart.phaseToo⟩

theorem Apart.modes {phase otherPhase : Phase} {first second : Writer}
    (apart : Apart phase otherPhase first.stance second.stance) :
    first.mode = .document ∧ second.mode = .fragment :=
  ⟨apart.mode, apart.modeToo⟩

/-! ## Elements -/

/-- The same elements, except that text may have been noted outside of all. -/
structure UpToMixed (own other : ElementStack) : Prop where
  opened : own.opened = other.opened
  outside : { own.outside with mixed := false } = { other.outside with mixed := false }

structure Rootless (own other : ElementStack) : Prop extends UpToMixed own other where
  noElement : own.opened = []

theorem UpToMixed.refl (elements : ElementStack) : UpToMixed elements elements := ⟨rfl, rfl⟩

theorem UpToMixed.space {own other : ElementStack} (same : UpToMixed own other) :
    own.space = other.space := by
  have outside := congrArg OpenElement.space same.outside
  simp only [ElementStack.space, ElementStack.outwards, same.opened, List.map_append, List.map_cons]
  rw [show own.outside.space = other.outside.space from outside]

theorem UpToMixed.language {own other : ElementStack} (same : UpToMixed own other) :
    own.language = other.language := by
  have outside := congrArg OpenElement.language same.outside
  simp only [ElementStack.language, ElementStack.outwards, same.opened, List.findSome?_append,
    List.findSome?_cons]
  rw [show own.outside.language = other.outside.language from outside]

theorem UpToMixed.top {own other : ElementStack} (same : UpToMixed own other) :
    own.top.defaultUri = other.top.defaultUri ∧
      own.top.defaultNamespace = other.top.defaultNamespace := by
  have uri := congrArg OpenElement.defaultUri same.outside
  have origin := congrArg OpenElement.defaultNamespace same.outside
  simp only [ElementStack.top, same.opened]
  cases other.opened with
  | nil => exact ⟨uri, origin⟩
  | cons innermost rest => exact ⟨rfl, rfl⟩

/-! ## Writers -/

variable {Outputs : OutputBuffer → OutputBuffer → Prop} {first second : Writer}

/-- A writer of a document and one of a fragment: both inside of what they write, or both before
it, or both after the root element. -/
inductive Restricts (Outputs : OutputBuffer → OutputBuffer → Prop) (first second : Writer) : Prop
  | within (akin : Akin Outputs Within Eq first second)
  /-- What comes next is not put on a line of its own here. -/
  | fresh (akin : Akin Outputs (Apart .prolog .start) Eq first second)
      (noElement : second.elements.opened = []) (noPayload : second.payload = none)
      (plain : second.indents = false)
  | after (akin : Akin Outputs (Posed .epilog .content) Rootless first second)

namespace Restricts

theorem settings (restricts : Restricts Outputs first second) : first.settings = second.settings := by
  cases restricts with
  | within akin | fresh akin | after akin => exact akin.settings

instance : SameSettings (Restricts Outputs) where
  settings _ _ := settings

theorem output (restricts : Restricts Outputs first second) : Outputs first.output second.output := by
  cases restricts with
  | within akin | fresh akin | after akin => exact akin.output

theorem upToMixed (restricts : Restricts Outputs first second) :
    UpToMixed first.elements second.elements := by
  cases restricts with
  | within akin | fresh akin =>
      rw [akin.elements]
      exact .refl _
  | after akin => exact akin.elements.toUpToMixed

theorem depth (restricts : Restricts Outputs first second) : first.depth = second.depth := by
  rw [Writer.depth, Writer.depth, ElementStack.depth, ElementStack.depth, restricts.upToMixed.opened]

theorem modes (restricts : Restricts Outputs first second) :
    first.mode = .document ∧ second.mode = .fragment := by
  cases restricts with
  | within akin =>
      rcases akin.stance with ⟨_, posed, _⟩
      exact posed.modes
  | fresh akin => exact akin.stance.modes
  | after akin => exact akin.stance.modes

theorem phases (restricts : Restricts Outputs first second) :
    first.phase = second.phase ∧ Inner second.phase ∨
      first.phase = .prolog ∧ second.phase = .start ∨
        first.phase = .epilog ∧ second.phase = .content := by
  cases restricts with
  | within akin =>
      rcases akin.stance with ⟨_, posed, inner⟩
      rcases posed.phases with ⟨own, other⟩
      exact .inl ⟨own.trans other.symm, other ▸ inner⟩
  | fresh akin => exact .inr (.inl akin.stance.phases)
  | after akin => exact .inr (.inr akin.stance.phases)

theorem phase_iff (restricts : Restricts Outputs first second) {phase : Phase}
    (special : phase = .failed ∨ phase = .attribute) :
    first.phase = phase ↔ second.phase = phase := by
  rcases restricts.phases with ⟨same, _⟩ | ⟨own, other⟩ | ⟨own, other⟩
  · rw [same]
  all_goals
    rw [own, other]
    rcases special with rfl | rfl <;> simp

theorem inner (restricts : Restricts Outputs first second) : Inner first.phase := by
  rcases restricts.phases with ⟨same, inner⟩ | ⟨own, _⟩ | ⟨own, _⟩
  · rwa [same]
  all_goals
    rw [own]
    decide

theorem phaseToo_ne (restricts : Restricts Outputs first second) :
    second.phase ≠ .topAttribute ∧ second.phase ≠ .closed := by
  rcases restricts.phases with ⟨_, inner⟩ | ⟨_, other⟩ | ⟨_, other⟩
  · exact inner.2
  all_goals simp [other]

end Restricts

theorem Akin.answer_of_upToMixed {Stances : Stance → Stance → Prop}
    {Elements : ElementStack → ElementStack → Prop} (akin : Akin Outputs Stances Elements first second)
    (elements : UpToMixed first.elements second.elements) (question : Query) :
    first.answer question = second.answer question := by
  cases question with
  | settings => simp only [Writer.answer, akin.settings]
  | space => simp only [Writer.answer, elements.space]
  | language => simp only [Writer.answer, elements.language]
  | lookupPrefix uri =>
      have uris : first.top.defaultUri = second.top.defaultUri := elements.top.1
      have origins : first.top.defaultNamespace = second.top.defaultNamespace := elements.top.2
      simp only [Writer.answer, lookupPrefix, uris, origins, akin.findPrefix?]

theorem Restricts.answer (restricts : Restricts Outputs first second) (question : Query) :
    first.answer question = second.answer question := by
  have elements := restricts.upToMixed
  cases restricts with
  | within akin | fresh akin | after akin => exact akin.answer_of_upToMixed elements question

end Writer

end XmlStream
