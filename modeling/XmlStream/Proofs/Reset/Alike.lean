import XmlStream.Proofs.Bindings.Lookup
import XmlStream.Proofs.Reset.Mirror
import XmlStream.Proofs.Simulation.Writing

namespace XmlStream

/-! Writers that hold the same, and writers that cannot be told apart: of these one has written
some bytes before. They may find their bindings in different ways. -/

namespace OutputBuffer

/-- An output like another one, behind bytes that have been written before. -/
structure Continues (earlier : ByteArray) (first second : OutputBuffer) : Prop where
  encoder : first.encoder = second.encoder
  pending : first.pending = second.pending
  received : first.sink.received = earlier ++ second.sink.received
  unlimited : first.sink.limit = none
  unlimitedToo : second.sink.limit = none
  canFlush : first.sink.canFlush = second.sink.canFlush

variable {earlier : ByteArray}

theorem Continues.append {first second : OutputBuffer}
    (continues : Continues earlier first second) (text : String) :
    Continues earlier (first.append text) (second.append text) := by
  have encoder := continues.encoder
  cases found : second.encoder <;> rw [found] at encoder <;>
    constructor <;> simp [OutputBuffer.append, encoder, found, continues.pending,
      continues.received, continues.unlimited, continues.unlimitedToo, continues.canFlush]

theorem Continues.terminate {first second : OutputBuffer}
    (continues : Continues earlier first second) :
    Continues earlier first.terminate second.terminate := by
  have encoder := continues.encoder
  cases found : second.encoder <;> rw [found] at encoder <;>
    constructor <;> simp [OutputBuffer.terminate, encoder, found, continues.pending,
      continues.received, continues.unlimited, continues.unlimitedToo, continues.canFlush]

theorem mirrors_onSink_write (bytes : ByteArray) :
    Mirrors (Continues earlier) (onSink (Sink.write bytes)) (onSink (Sink.write bytes)) := by
  intro first second continues
  simp only [onSink, Sink.write, Sink.fitting, continues.unlimited, continues.unlimitedToo,
    if_true]
  refine .ok _ ⟨continues.encoder, continues.pending, ?_, rfl, rfl, continues.canFlush⟩
  rw [continues.received, ByteArray.append_assoc]

theorem mirrors_push : Mirrors (Continues earlier) push push := by
  refine .get_bind fun first second continues => ?_
  rw [continues.pending]
  refine .ite (.pure _) (.bind (mirrors_onSink_write _) fun _ => .change ?_)
  intro first second continues
  exact { continues with pending := rfl }

theorem mirrors_flush : Mirrors (Continues earlier) flush flush := by
  refine .bind mirrors_push fun _ first second continues => ?_
  simp only [onSink, Sink.flush, continues.canFlush]
  cases able : second.sink.canFlush with
  | true => exact .ok _ continues
  | false => exact .error _ continues

theorem mirrors_write (text : String) : Mirrors (Continues earlier) (write text) (write text) := by
  refine .bind (.change fun _ _ continues => continues.append text) fun _ =>
    .get_bind fun first second continues => ?_
  rw [continues.pending]
  exact .ite mirrors_push (.pure _)

theorem mirrors_finish : Mirrors (Continues earlier) finish finish :=
  .bind (.change fun _ _ continues => continues.terminate) fun _ => mirrors_flush

class Faithful (Outputs : OutputBuffer → OutputBuffer → Prop) : Prop where
  encoding? : ∀ first second, Outputs first second → first.encoding? = second.encoding?
  write : ∀ text, Mirrors Outputs (write text) (write text)
  flush : Mirrors Outputs flush flush
  finish : Mirrors Outputs finish finish

instance : Faithful (Continues earlier) where
  encoding? first second continues := by rw [encoding?, encoding?, continues.encoder]
  write := mirrors_write
  flush := mirrors_flush
  finish := mirrors_finish

end OutputBuffer

namespace Writer

structure Stance where
  phase : Phase
  mode : Mode
  lastToken : Option Token

def stance (writer : Writer) : Stance := ⟨writer.phase, writer.mode, writer.lastToken⟩

class InPhase (Stances : Stance → Stance → Prop) : Prop where
  phase : ∀ own other, Stances own other → own.phase = other.phase

class AfterToken (Stances : Stance → Stance → Prop) : Prop where
  lastToken : ∀ own other, Stances own other → own.lastToken = other.lastToken

instance : InPhase Eq where
  phase _ _ := congrArg Stance.phase

instance : AfterToken Eq where
  lastToken _ _ := congrArg Stance.lastToken

class SameSettings (Related : Writer → Writer → Prop) : Prop where
  settings : ∀ first second, Related first second → first.settings = second.settings

/-- Two writers that hold the same, as far as it can be seen. Their outputs, their stances and
their elements are related. -/
structure Akin (Outputs : OutputBuffer → OutputBuffer → Prop) (Stances : Stance → Stance → Prop)
    (Elements : ElementStack → ElementStack → Prop) (first second : Writer) : Prop where
  output : Outputs first.output second.output
  stance : Stances first.stance second.stance
  elements : Elements first.elements second.elements
  settings : first.settings = second.settings
  scope : first.bindings.scope = second.bindings.scope
  sound : first.bindings.Sound
  soundToo : second.bindings.Sound
  special : first.special = second.special
  carry : first.carry = second.carry
  unflushed : first.unflushed = second.unflushed

/-- Two writers that cannot be told apart, but that one has written some bytes before. -/
abbrev Alike (earlier : ByteArray) : Writer → Writer → Prop :=
  Akin (OutputBuffer.Continues earlier) Eq Eq

namespace Akin

variable {Outputs : OutputBuffer → OutputBuffer → Prop} {Stances : Stance → Stance → Prop}
  {Elements : ElementStack → ElementStack → Prop} {first second : Writer}

instance : SameSettings (Akin Outputs Stances Elements) where
  settings _ _ := Akin.settings

theorem payload (akin : Akin Outputs Stances Elements first second) :
    first.payload = second.payload :=
  payload_congr akin.carry akin.unflushed

theorem phase [InPhase Stances] (akin : Akin Outputs Stances Elements first second) :
    first.phase = second.phase :=
  InPhase.phase _ _ akin.stance

theorem lastToken [AfterToken Stances] (akin : Akin Outputs Stances Elements first second) :
    first.lastToken = second.lastToken :=
  AfterToken.lastToken _ _ akin.stance

theorem mode (akin : Akin Outputs Eq Elements first second) : first.mode = second.mode :=
  congrArg Stance.mode akin.stance

theorem indents (akin : Akin Outputs Stances Elements first second) :
    first.indents = second.indents := by
  rw [Writer.indents, Writer.indents, akin.settings]

theorem textPosition [InPhase Stances] (akin : Akin Outputs Stances Elements first second) :
    first.textPosition = second.textPosition := by
  rw [Writer.textPosition, Writer.textPosition, akin.phase, akin.settings]

theorem lookup? (akin : Akin Outputs Stances Elements first second) (nsPrefix : String) :
    first.bindings.lookup? nsPrefix = second.bindings.lookup? nsPrefix := by
  rw [akin.sound.lookup?_eq, akin.soundToo.lookup?_eq, akin.scope]

theorem boundTo? (akin : Akin Outputs Stances Elements first second) (nsPrefix uri : String) :
    first.bindings.boundTo? nsPrefix uri = second.bindings.boundTo? nsPrefix uri := by
  rw [akin.sound.boundTo?_eq, akin.soundToo.boundTo?_eq, akin.scope]

theorem findPrefix? (akin : Akin Outputs Stances Elements first second) (uri : String) :
    first.bindings.findPrefix? uri = second.bindings.findPrefix? uri := by
  rw [akin.sound.findPrefix?_eq, akin.soundToo.findPrefix?_eq, akin.scope]

theorem size (akin : Akin Outputs Stances Elements first second) :
    first.bindings.size = second.bindings.size := by
  rw [← Bindings.length_scope, ← Bindings.length_scope, akin.scope]

theorem nextNumber (akin : Akin Outputs Stances Elements first second) (depth count : Nat) :
    first.bindings.nextNumber depth count = second.bindings.nextNumber depth count := by
  rw [Bindings.nextNumber, Bindings.nextNumber, akin.size]
  exact Bindings.freshNumber_congr akin.lookup? depth count _

theorem owed (akin : Akin Outputs Stances Elements first second) (mark : Nat) :
    (first.bindings.owed mark).map (fun entry => (entry.2.bare, entry.1)) =
      (second.bindings.owed mark).map fun entry => (entry.2.bare, entry.1) := by
  rw [akin.sound.owed_eq, akin.soundToo.owed_eq, akin.scope]

/-! ## The same elements -/

theorem top (akin : Akin Outputs Stances Eq first second) : first.top = second.top := by
  rw [Writer.top, Writer.top, akin.elements]

theorem depth (akin : Akin Outputs Stances Eq first second) : first.depth = second.depth := by
  rw [Writer.depth, Writer.depth, akin.elements]

theorem nextPhase? (akin : Akin Outputs Eq Eq first second) (token : Token) :
    first.nextPhase? token = second.nextPhase? token := by
  rw [Writer.nextPhase?, Writer.nextPhase?, akin.phase, akin.mode, akin.depth]

theorem prefixInUse (akin : Akin Outputs Stances Eq first second) (nsPrefix : String) :
    first.prefixInUse nsPrefix = second.prefixInUse nsPrefix := by
  rw [Writer.prefixInUse, Writer.prefixInUse, akin.depth, akin.top, akin.sound.lookupFrom?_eq,
    akin.soundToo.lookupFrom?_eq, akin.scope]

/-! ## Changes -/

theorem modifyTop (akin : Akin Outputs Stances Eq first second)
    (change : OpenElement → OpenElement) :
    Akin Outputs Stances Eq { first with elements := first.elements.modifyTop change }
      { second with elements := second.elements.modifyTop change } :=
  { akin with elements := by rw [akin.elements] }

theorem push (akin : Akin Outputs Stances Elements first second) (nsPrefix uri : String)
    (declared : Bool) (log logToo : Array LogEvent) :
    Akin Outputs Stances Elements
      { first with bindings := first.bindings.push nsPrefix uri declared, log }
      { second with bindings := second.bindings.push nsPrefix uri declared, log := logToo } :=
  { akin with
    scope := by rw [Bindings.scope_push, Bindings.scope_push, akin.scope]
    sound := akin.sound.push nsPrefix uri declared
    soundToo := akin.soundToo.push nsPrefix uri declared }

theorem setDeclared (akin : Akin Outputs Stances Elements first second) (position : Nat) :
    Akin Outputs Stances Elements { first with bindings := first.bindings.setDeclared position }
      { second with bindings := second.bindings.setDeclared position } :=
  { akin with
    scope := by rw [Bindings.scope_setDeclared, Bindings.scope_setDeclared, akin.scope]
    sound := akin.sound.setDeclared position
    soundToo := akin.soundToo.setDeclared position }

theorem popTo (akin : Akin Outputs Stances Elements first second) (mark : Nat) :
    Akin Outputs Stances Elements { first with bindings := first.bindings.popTo mark }
      { second with bindings := second.bindings.popTo mark } :=
  { akin with
    scope := by rw [Bindings.scope_popTo, Bindings.scope_popTo, akin.scope]
    sound := akin.sound.popTo mark
    soundToo := akin.soundToo.popTo mark }

end Akin

end Writer

end XmlStream
