import XmlStream.Proofs.Output.Limit

namespace XmlStream.OutputBuffer

/-! What is added to a buffered output, also by actions that fail. A failing push takes nothing out of
the buffer, so the pending bytes tell what has been added even then. -/

/-- One output is another one to which these bytes have been added. Some of all the bytes have been
pushed on, the others are pending. -/
structure Accrues (before : OutputBuffer) (bytes : ByteArray) (after : OutputBuffer) : Prop where
  limit : after.sink.limit = before.sink.limit
  passed : ∃ pushed, before.pending ++ bytes = pushed ++ after.pending ∧
    after.written = before.written + pushed.size ∧
    (before.sink.limit = none → after.sink.received = before.sink.received ++ pushed)

variable {before after : OutputBuffer}

theorem Accrues.refl (output : OutputBuffer) : output.Accrues .empty output :=
  ⟨rfl, .empty, by simp, by simp, by simp⟩

theorem Accrues.trans {first second third : OutputBuffer} {bytes more : ByteArray}
    (earlier : first.Accrues bytes second) (later : second.Accrues more third) :
    first.Accrues (bytes ++ more) third := by
  rcases earlier with ⟨limit, pushed, passed, written, received⟩
  rcases later with ⟨limitToo, pushedToo, passedToo, writtenToo, receivedToo⟩
  refine ⟨limitToo.trans limit, pushed ++ pushedToo, ?_, ?_, ?_⟩
  · calc first.pending ++ (bytes ++ more)
        = pushed ++ (second.pending ++ more) := by
          rw [← ByteArray.append_assoc, passed, ByteArray.append_assoc]
      _ = pushed ++ pushedToo ++ third.pending := by rw [passedToo, ByteArray.append_assoc]
  · rw [writtenToo, written, ByteArray.size_append, Nat.add_assoc]
  · intro endless
    rw [receivedToo (limit.trans endless), received endless, ByteArray.append_assoc]

theorem Accrues.onward {first second third : OutputBuffer} {bytes : ByteArray}
    (earlier : first.Accrues bytes second) (later : second.Accrues .empty third) :
    first.Accrues bytes third := by
  have both := earlier.trans later
  rwa [ByteArray.append_empty] at both

theorem Accrues.delivered {bytes : ByteArray} (accrues : before.Accrues bytes after)
    (endless : before.sink.limit = none) : after.delivered = before.delivered ++ bytes := by
  rcases accrues with ⟨_, pushed, passed, _, received⟩
  rw [OutputBuffer.delivered, OutputBuffer.delivered, received endless, ByteArray.append_assoc,
    ← passed, ByteArray.append_assoc]

theorem Accrues.size {bytes : ByteArray} (accrues : before.Accrues bytes after) :
    after.written + after.pending.size = before.written + before.pending.size + bytes.size := by
  rcases accrues with ⟨_, pushed, passed, written, _⟩
  have sizes := congrArg ByteArray.size passed
  rw [ByteArray.size_append, ByteArray.size_append] at sizes
  omega

def switchBack (encoder : Option Encoder) : ByteArray :=
  match encoder with
  | none => .empty
  | some encoder => encoder.finish.bytes.toByteArray

/-! ## Actions -/

theorem accrues_append (output : OutputBuffer) (text : String) :
    output.Accrues (encoded output.encoder text).2 (output.append text) := by
  cases found : output.encoder <;>
    exact ⟨by simp [append, found], .empty, by simp [append, found, encoded],
      by simp [append, found], by simp [append, found]⟩

theorem encoder_append (output : OutputBuffer) (text : String) :
    (output.append text).encoder = (encoded output.encoder text).1 := by
  cases found : output.encoder <;> simp [append, found, encoded]

theorem accrues_terminate (output : OutputBuffer) :
    output.Accrues (switchBack output.encoder) output.terminate := by
  cases found : output.encoder <;>
    exact ⟨by simp [terminate, found], .empty, by simp [terminate, found, switchBack],
      by simp [terminate, found], by simp [terminate, found]⟩

def Passes (action : Action Unit) : Prop :=
  ∀ output, EndsIn (fun after => output.Accrues .empty after ∧ after.encoder = output.encoder)
    (action output)

theorem Passes.bind {action : Action Unit} {next : Unit → Action Unit} (passes : Passes action)
    (later : Passes (next ())) : Passes (action >>= next) := by
  intro output
  apply endsIn_bind (passes output)
  rintro _ middle ⟨accrues, same⟩
  have rest := later middle
  generalize next () middle = result at rest ⊢
  cases result <;> exact ⟨accrues.onward rest.1, rest.2.trans same⟩

theorem passes_push : Passes push := by
  intro output
  cases nothing : output.pending.isEmpty with
  | true =>
      rw [push_of_isEmpty nothing]
      exact ⟨.refl output, rfl⟩
  | false =>
      by_cases full : (output.sink.fitting output.pending).size = output.pending.size
      · have fits := fitting_eq_of_size full
        rw [push_of_fitting nothing fits]
        exact ⟨⟨rfl, output.pending, by simp, rfl, fun _ => rfl⟩, rfl⟩
      · rw [push_of_full nothing full]
        refine ⟨⟨rfl, .empty, by simp, rfl, fun endless => ?_⟩, rfl⟩
        simp [Sink.fitting, endless] at full

theorem passes_onSink_flush : Passes (onSink Sink.flush) := by
  intro output
  simp only [onSink, Sink.flush]
  cases output.sink.canFlush <;> exact ⟨.refl output, rfl⟩

theorem passes_flush : Passes flush := passes_push.bind passes_onSink_flush

theorem write_eq (output : OutputBuffer) (text : String) :
    write text output =
      if threshold ≤ (output.append text).pending.size then push (output.append text)
      else .ok () (output.append text) := by
  simp only [write, Bind.bind, EStateM.bind, modify_run, get_run]
  split <;> rfl

theorem accrues_write (output : OutputBuffer) (text : String) :
    EndsIn (fun after => output.Accrues (encoded output.encoder text).2 after ∧
      after.encoder = (encoded output.encoder text).1) (write text output) := by
  have added := accrues_append output text
  have encoder := encoder_append output text
  rw [write_eq]
  split
  · have pushed := passes_push (output.append text)
    generalize push (output.append text) = result at pushed ⊢
    cases result <;> exact ⟨added.onward pushed.1, pushed.2.trans encoder⟩
  · exact ⟨added, encoder⟩

theorem accrues_finish (output : OutputBuffer) :
    EndsIn (output.Accrues (switchBack output.encoder)) (finish output) := by
  have added := accrues_terminate output
  have finishes : finish output = flush output.terminate := rfl
  rw [finishes]
  have flushed := passes_flush output.terminate
  generalize flush output.terminate = result at flushed ⊢
  cases result <;> exact added.onward flushed.1

theorem accrues_release (output : OutputBuffer) : output.Accrues .empty output.release.1 :=
  (release_of_endsIn (passes_flush output)).1

end XmlStream.OutputBuffer
