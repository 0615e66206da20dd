import XmlStream.Proofs.Bindings.Lookup
import XmlStream.Proofs.Draft.Step
import XmlStream.Proofs.Output.Delivery

namespace XmlStream

/-! Writers and their drafts, and the actions that only write text. -/

namespace Writer

def draft (writer : Writer) : Draft where
  settings := writer.settings
  phase := writer.phase
  mode := writer.mode
  elements := writer.elements
  scope := writer.bindings.scope
  special := writer.special
  carry := writer.carry
  unflushed := writer.unflushed

def payload (writer : Writer) : Option Base64.Carry := writer.draft.payload

section Fields

variable (writer : Writer)

@[simp] theorem draft_settings : writer.draft.settings = writer.settings := rfl

@[simp] theorem draft_phase : writer.draft.phase = writer.phase := rfl

@[simp] theorem draft_mode : writer.draft.mode = writer.mode := rfl

@[simp] theorem draft_elements : writer.draft.elements = writer.elements := rfl

@[simp] theorem draft_scope : writer.draft.scope = writer.bindings.scope := rfl

@[simp] theorem draft_special : writer.draft.special = writer.special := rfl

@[simp] theorem draft_carry : writer.draft.carry = writer.carry := rfl

@[simp] theorem draft_unflushed : writer.draft.unflushed = writer.unflushed := rfl

@[simp] theorem draft_payload : writer.draft.payload = writer.payload := rfl

@[simp] theorem draft_top : writer.draft.top = writer.top := rfl

@[simp] theorem draft_depth : writer.draft.depth = writer.depth := rfl

theorem payload_congr {writer other : Writer} (carry : writer.carry = other.carry)
    (unflushed : writer.unflushed = other.unflushed) : writer.payload = other.payload := by
  cases pending : other.unflushed <;> simp [payload, Draft.payload, carry, unflushed, pending]

end Fields

/-- What a writer owes to nothing but its own care: the index over its bindings is right,
and an open start tag is not taken for text. -/
structure Sound (writer : Writer) : Prop where
  bindings : writer.bindings.Sound
  lastToken : writer.phase = .element → writer.lastToken ≠ some .text

/-- One writer is another one after it has written some text. -/
def Writes (before : Writer) (text : String) (after : Writer) : Prop :=
  ∃ output, after = { before with output } ∧ before.output.Extends text output

theorem Writes.refl (writer : Writer) : writer.Writes "" writer :=
  ⟨writer.output, rfl, .refl _⟩

theorem Writes.trans {first second third : Writer} {text more : String}
    (earlier : first.Writes text second) (later : second.Writes more third) :
    first.Writes (text ++ more) third := by
  obtain ⟨_, rfl, written⟩ := earlier
  obtain ⟨output, rfl, writtenToo⟩ := later
  exact ⟨output, rfl, written.trans writtenToo⟩

theorem Writes.special {before after : Writer} {text : String} (wrote : before.Writes text after) :
    after.special = before.special := by
  obtain ⟨_, rfl, _⟩ := wrote
  rfl

theorem Writes.settings {before after : Writer} {text : String}
    (wrote : before.Writes text after) : after.settings = before.settings := by
  obtain ⟨_, rfl, _⟩ := wrote
  rfl

theorem onOutput_ok {action : OutputBuffer.Action Unit} {before after : Writer}
    {nothing : Unit} (ok : onOutput action before = .ok nothing after) :
    ∃ output, action before.output = .ok () output ∧ after = { before with output } := by
  unfold onOutput at ok
  cases done : action before.output with
  | ok _ output =>
      simp only [done, EStateM.Result.ok.injEq, true_and] at ok
      exact ⟨output, rfl, ok.symm⟩
  | error cause output => simp [done] at ok

theorem onOutput_error {action : OutputBuffer.Action Unit} {before after : Writer}
    {error : WriterError} (fails : onOutput action before = .error error after) :
    ∃ cause output, error = .sink cause ∧ action before.output = .error cause output ∧
      after = { before with output } := by
  unfold onOutput at fails
  cases done : action before.output with
  | ok _ output => simp [done] at fails
  | error cause output =>
      simp only [done, EStateM.Result.error.injEq] at fails
      exact ⟨cause, output, fails.1.symm, rfl, fails.2.symm⟩

theorem emit_ok {markup : String} {before after : Writer} {nothing : Unit}
    (ok : emit markup before = .ok nothing after) : before.Writes markup after := by
  obtain ⟨output, written, rfl⟩ := onOutput_ok ok
  exact ⟨output, rfl, OutputBuffer.extends_of_write written⟩

theorem emitQuote_ok {before after : Writer} {nothing : Unit}
    (ok : emitQuote before = .ok nothing after) :
    before.Writes before.settings.quote.text after := by
  simp only [emitQuote, bind_eq_ok, get_eq_ok] at ok
  obtain ⟨_, _, ⟨rfl, rfl⟩, ok⟩ := ok
  exact emit_ok ok

theorem forM_emit_ok {pieces : List String} {before after : Writer} {nothing : PUnit}
    (ok : pieces.forM emit before = .ok nothing after) :
    before.Writes (pieces.foldr (· ++ ·) "") after := by
  induction pieces generalizing before with
  | nil =>
      simp only [List.forM, pure_eq_ok, true_and] at ok
      subst ok
      exact .refl before
  | cons piece rest induction =>
      simp only [List.forM, bind_eq_ok] at ok
      obtain ⟨_, middle, first, ok⟩ := ok
      exact (emit_ok first).trans (induction ok)

theorem emitEscaped_ok {position : TextPosition} {text : String} {before after : Writer}
    {nothing : Unit} (ok : emitEscaped position text before = .ok nothing after) :
    before.Writes (position.escaped text) after :=
  forM_emit_ok ok

def captured (writer : Writer) (text : String) : Writer :=
  { writer with
    special := writer.special.map fun special =>
      { special with value := special.value ++ text } }

theorem captured_captured (writer : Writer) (text more : String) :
    (writer.captured text).captured more = writer.captured (text ++ more) := by
  cases found : writer.special <;> simp [captured, found, String.append_assoc]

theorem capture_ok {text : String} {before after : Writer} {nothing : Unit}
    (ok : capture text before = .ok nothing after) : after = before.captured text := by
  simp only [capture, modify_eq_ok] at ok
  exact ok.symm

theorem emitText_ok {text : String} {before after : Writer} {nothing : Unit}
    (ok : emitText text before = .ok nothing after) :
    (before.captured text).Writes (before.textPosition.escaped text) after := by
  simp only [emitText, bind_eq_ok, get_eq_ok] at ok
  obtain ⟨_, middle, noted, _, _, ⟨rfl, rfl⟩, ok⟩ := ok
  rw [capture_ok noted] at ok
  exact emitEscaped_ok ok

theorem emitVerbatim_ok {text : String} {before after : Writer} {nothing : Unit}
    (ok : emitVerbatim text before = .ok nothing after) :
    (before.captured text).Writes text after := by
  simp only [emitVerbatim, bind_eq_ok] at ok
  obtain ⟨_, middle, noted, ok⟩ := ok
  rw [capture_ok noted] at ok
  exact emit_ok ok

theorem emitEntity_ok {name : String} {before after : Writer} {nothing : Unit}
    (ok : emitEntity name before = .ok nothing after) :
    (before.captured (entityReference name)).Writes (entityReference name) after := by
  simp only [emitEntity, bind_eq_ok] at ok
  obtain ⟨_, _, noted, _, _, opened, _, _, named, ok⟩ := ok
  rw [capture_ok noted] at opened
  have written := ((emit_ok opened).trans (emit_ok named)).trans (emit_ok ok)
  simpa [entityReference] using written

theorem emitCharacter_ok {character : Char} {before after : Writer} {nothing : Unit}
    (ok : emitCharacter character before = .ok nothing after) :
    (before.captured (String.singleton character)).Writes (hexReference character) after := by
  simp only [emitCharacter, bind_eq_ok] at ok
  obtain ⟨_, middle, noted, ok⟩ := ok
  rw [capture_ok noted] at ok
  exact emit_ok ok

end Writer

end XmlStream
