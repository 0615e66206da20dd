import XmlStream.Proofs.Output.Accrual

namespace XmlStream.OutputBuffer

/-! No byte gets lost in a buffer. All that has been encoded is either pushed on or still pending, in
order, whatever fails in between, and the sink holds the beginning of it. -/

inductive Request
  | write (text : String)
  | flush
  | finish

namespace Request

def action : Request → Action Unit
  | .write text => OutputBuffer.write text
  | .flush => OutputBuffer.flush
  | .finish => OutputBuffer.finish

def encoded (encoder : Option Encoder) : Request → Option Encoder × ByteArray
  | .write text => OutputBuffer.encoded encoder text
  | .flush => (encoder, .empty)
  | .finish => (encoder.map (·.finish.encoder), switchBack encoder)

def allEncoded (encoder : Option Encoder) : List Request → ByteArray
  | [] => .empty
  | request :: rest =>
      let (after, bytes) := request.encoded encoder
      bytes ++ allEncoded after rest

end Request

def ask (output : OutputBuffer) (request : Request) : Option SinkError × OutputBuffer :=
  match request.action output with
  | .ok _ after => (none, after)
  | .error error after => (some error, after)

/-- Make a list of requests. After a failure the next request is made all the same. -/
def askAll (output : OutputBuffer) : List Request → List (Option SinkError) × OutputBuffer
  | [] => ([], output)
  | request :: rest =>
      let (failure, after) := output.ask request
      let (failures, last) := after.askAll rest
      (failure :: failures, last)

theorem ask_ends {Holds : OutputBuffer → Prop} {output : OutputBuffer} {request : Request}
    (ends : EndsIn Holds (request.action output)) : Holds (output.ask request).2 := by
  unfold ask
  generalize request.action output = result at ends ⊢
  cases result <;> exact ends

theorem encoder_terminate (output : OutputBuffer) :
    output.terminate.encoder = output.encoder.map (·.finish.encoder) := by
  cases found : output.encoder <;> simp [terminate, found]

theorem accrues_request (output : OutputBuffer) (request : Request) :
    EndsIn (fun after => output.Accrues (request.encoded output.encoder).2 after ∧
      after.encoder = (request.encoded output.encoder).1) (request.action output) := by
  cases request with
  | write text => exact accrues_write output text
  | flush => exact passes_flush output
  | finish =>
      have added := accrues_terminate output
      have encoder := encoder_terminate output
      have flushed := passes_flush output.terminate
      have finishes : Request.finish.action output = flush output.terminate := rfl
      rw [finishes]
      generalize flush output.terminate = result at flushed ⊢
      cases result <;> exact ⟨added.onward flushed.1, flushed.2.trans encoder⟩

variable {most : Option Nat} {bytes more : ByteArray} {failed : Bool} {output after : OutputBuffer}

/-! ## Sinks -/

def Fits (most : Option Nat) (bytes : ByteArray) : Prop := ∀ size, most = some size → bytes.size ≤ size

theorem fits_fitting {sink : Sink} (room : Fits sink.limit sink.received) (bytes : ByteArray) :
    Fits sink.limit (sink.received ++ sink.fitting bytes) := by
  intro size found
  have enough := room size found
  simp only [Sink.fitting, found, ByteArray.size_append, ByteArray.size_extract]
  omega

/-- A sink that takes only a part of what is written to it is full afterwards. -/
theorem limit_of_full {sink : Sink} (room : Fits sink.limit sink.received)
    (full : (sink.fitting bytes).size ≠ bytes.size) :
    sink.limit = some (sink.received ++ sink.fitting bytes).size := by
  cases found : sink.limit with
  | none => simp [Sink.fitting, found] at full
  | some size =>
      have enough := room size found
      simp only [Sink.fitting, found, ByteArray.size_extract, ByteArray.size_append] at full ⊢
      congr 1
      omega

theorem fitting_begins (sink : Sink) (bytes : ByteArray) :
    ∃ rest, bytes = sink.fitting bytes ++ rest := by
  cases found : sink.limit with
  | none => exact ⟨.empty, by simp [Sink.fitting, found]⟩
  | some size =>
      refine ⟨bytes.extract (size - sink.received.size) bytes.size, ?_⟩
      simp only [Sink.fitting, found, ByteArray.extract_append_extract, Nat.zero_min]
      exact ByteArray.extract_zero_max_size.symm

/-! ## What is kept -/

/-- An output for which these bytes have been encoded. Until a write to the sink has failed, the sink
has all that has been pushed on; then it is full, and there are more bytes than it has room for. -/
structure Conserves (most : Option Nat) (bytes : ByteArray) (failed : Bool)
    (output : OutputBuffer) : Prop where
  limit : output.sink.limit = most
  room : Fits most output.sink.received
  passed : ∃ pushed, bytes = pushed ++ output.pending ∧ output.written = pushed.size
  begins : ∃ rest, bytes = output.sink.received ++ rest
  level : failed = false → output.sink.received.size = output.written
  jammed : failed = true → output.Jammed output.sink.received

/-- How a request ends: it leaves the buffer as is said here, or a write to the sink has failed. -/
inductive Ends (most : Option Nat) (bytes : ByteArray) (failed : Bool)
    (Left : ByteArray → Prop) : EStateM.Result SinkError OutputBuffer Unit → Prop
  | ok {after : OutputBuffer} (conserves : after.Conserves most bytes failed)
      (left : Left after.pending) : Ends most bytes failed Left (.ok () after)
  | flushFailed {after : OutputBuffer} (conserves : after.Conserves most bytes failed)
      (left : Left after.pending) : Ends most bytes failed Left (.error .flushFailed after)
  | full {after : OutputBuffer} (conserves : after.Conserves most bytes true) :
      Ends most bytes failed Left (.error .full after)

theorem conserves_fresh (limit : Option Nat) (canFlush : Bool) (encoder : Option Encoder) :
    ({ sink := { limit, canFlush }, encoder } : OutputBuffer).Conserves limit .empty false :=
  ⟨rfl, fun _ _ => Nat.zero_le _, ⟨.empty, by simp, rfl⟩, ⟨.empty, by simp⟩, fun _ => rfl, by simp⟩

theorem Conserves.adds {change : OutputBuffer → OutputBuffer} (adds : Adds change)
    (conserves : output.Conserves most bytes failed)
    (pending : (change output).pending = output.pending ++ more)
    (written : (change output).written = output.written) :
    (change output).Conserves most (bytes ++ more) failed := by
  have sink := adds.sink output
  rcases conserves with ⟨limited, room, ⟨pushed, passed, size⟩, ⟨rest, begins⟩, level, jammed⟩
  refine ⟨by rw [sink, limited], by rwa [sink], ⟨pushed, ?_, written.trans size⟩, ⟨rest ++ more, ?_⟩, ?_, ?_⟩
  · rw [passed, pending, ByteArray.append_assoc]
  · rw [begins, sink, ByteArray.append_assoc]
  · rw [sink, written]
    exact level
  · intro isFailed
    rcases jammed isFailed with ⟨full, received, waiting⟩
    refine ⟨by rw [sink]; exact full, rfl, ?_⟩
    rw [pending, ByteArray.size_append]
    omega

theorem Conserves.append (conserves : output.Conserves most bytes failed) (text : String) :
    (output.append text).Conserves most (bytes ++ (encoded output.encoder text).2) failed := by
  refine conserves.adds (adds_append text) ?_ ?_ <;>
    cases found : output.encoder <;> simp [OutputBuffer.append, found, encoded]

theorem Conserves.terminate (conserves : output.Conserves most bytes failed) :
    output.terminate.Conserves most (bytes ++ switchBack output.encoder) failed := by
  refine conserves.adds adds_terminate ?_ ?_ <;>
    cases found : output.encoder <;> simp [OutputBuffer.terminate, found, switchBack]

theorem Conserves.push (conserves : output.Conserves most bytes failed) :
    Ends most bytes failed (· = .empty) (push output) := by
  rcases conserves with ⟨rfl, room, ⟨pushed, passed, size⟩, ⟨rest, begins⟩, level, jammed⟩
  cases failed with
  | true =>
      rw [push_of_jammed (jammed rfl)]
      exact .full ⟨rfl, room, ⟨pushed, passed, size⟩, ⟨rest, begins⟩, by simp, jammed⟩
  | false =>
      cases nothing : output.pending.isEmpty with
      | true =>
          have empty : output.pending = .empty :=
            ByteArray.size_eq_zero_iff.mp (by simpa [ByteArray.isEmpty] using nothing)
          rw [push_of_isEmpty nothing]
          exact .ok ⟨rfl, room, ⟨pushed, passed, size⟩, ⟨rest, begins⟩, level, by simp⟩ empty
      | false =>
          have received : output.sink.received = pushed :=
            ByteArray.append_inj_left (begins.symm.trans passed) (by rw [level rfl, size])
          have fits := fits_fitting room output.pending
          by_cases full : (output.sink.fitting output.pending).size = output.pending.size
          · have whole := fitting_eq_of_size full
            rw [whole] at fits
            rw [push_of_fitting nothing whole]
            refine .ok ⟨rfl, fits, ⟨bytes, by simp, ?_⟩, ⟨.empty, ?_⟩, fun _ => ?_, by simp⟩ rfl
            · rw [passed, size, ByteArray.size_append]
            · rw [received, ← passed, ByteArray.append_empty]
            · rw [ByteArray.size_append, level rfl]
          · have limit := limit_of_full room full
            obtain ⟨rest, cut⟩ := fitting_begins output.sink output.pending
            rw [push_of_full nothing full]
            refine .full ⟨rfl, fits, ⟨pushed, passed, size⟩, ⟨rest, ?_⟩, by simp, fun _ => ⟨limit, rfl, ?_⟩⟩
            · rw [received, ByteArray.append_assoc, ← cut, passed]
            · simpa [ByteArray.isEmpty] using nothing

theorem Ends.imp {Left Leaves : ByteArray → Prop} (weaker : ∀ pending, Left pending → Leaves pending)
    {result : EStateM.Result SinkError OutputBuffer Unit} (ends : Ends most bytes failed Left result) :
    Ends most bytes failed Leaves result := by
  cases ends with
  | ok conserves left => exact .ok conserves (weaker _ left)
  | flushFailed conserves left => exact .flushFailed conserves (weaker _ left)
  | full conserves => exact .full conserves

theorem Conserves.write (conserves : output.Conserves most bytes failed) (text : String) :
    Ends most (bytes ++ (encoded output.encoder text).2) failed (·.size < 4000) (write text output) := by
  have added := conserves.append text
  rw [write_eq]
  split
  · exact added.push.imp fun pending empty => by simp [empty]
  · next few => exact .ok added (by simpa [threshold] using few)

theorem Conserves.flush (conserves : output.Conserves most bytes failed) :
    Ends most bytes failed (· = .empty) (flush output) := by
  have pushed := conserves.push
  simp only [OutputBuffer.flush, Bind.bind, EStateM.bind]
  generalize OutputBuffer.push output = result at pushed ⊢
  cases pushed with
  | full conserves => exact .full conserves
  | flushFailed conserves empty => exact .flushFailed conserves empty
  | @ok after conserves empty =>
      simp only [onSink, Sink.flush]
      cases after.sink.canFlush with
      | true => exact .ok conserves empty
      | false => exact .flushFailed conserves empty

theorem Conserves.finish (conserves : output.Conserves most bytes failed) :
    Ends most (bytes ++ switchBack output.encoder) failed (· = .empty) (finish output) :=
  conserves.terminate.flush

/-! ## What can be read off -/

theorem Conserves.sizes (conserves : output.Conserves most bytes failed) :
    output.written + output.pending.size = bytes.size := by
  obtain ⟨pushed, passed, size⟩ := conserves.passed
  rw [passed, ByteArray.size_append, size]

theorem Conserves.pending (conserves : output.Conserves most bytes failed) :
    output.pending = bytes.extract output.written bytes.size := by
  obtain ⟨pushed, passed, size⟩ := conserves.passed
  rw [passed, ByteArray.extract_append_eq_right size ByteArray.size_append]

theorem Conserves.received (conserves : output.Conserves most bytes failed) :
    output.sink.received = bytes.extract 0 output.sink.received.size := by
  obtain ⟨rest, begins⟩ := conserves.begins
  rw [begins, ByteArray.extract_append_eq_left rfl]

/-! ## Requests -/

def Request.Leaves : Request → ByteArray → Prop
  | .write _, pending => pending.size < 4000
  | .flush, pending => pending = .empty
  | .finish, pending => pending = .empty

theorem Conserves.action (conserves : output.Conserves most bytes failed) (request : Request) :
    Ends most (bytes ++ (request.encoded output.encoder).2) failed request.Leaves
      (request.action output) := by
  cases request with
  | write text => exact conserves.write text
  | flush =>
      rw [Request.encoded, ByteArray.append_empty]
      exact conserves.flush
  | finish => exact conserves.finish

theorem Conserves.ask (conserves : output.Conserves most bytes failed) (request : Request) :
    (output.ask request).2.Conserves most (bytes ++ (request.encoded output.encoder).2)
        (failed || decide ((output.ask request).1 = some .full)) ∧
      ((output.ask request).1 ≠ some .full → request.Leaves (output.ask request).2.pending) := by
  have ends := conserves.action request
  unfold OutputBuffer.ask
  generalize request.action output = result at ends ⊢
  cases ends with
  | ok conserves left => exact ⟨by simpa using conserves, fun _ => left⟩
  | flushFailed conserves left => exact ⟨by simpa using conserves, fun _ => left⟩
  | full conserves => exact ⟨by simpa using conserves, fun sound => absurd rfl sound⟩

theorem Conserves.askAll (conserves : output.Conserves most bytes failed) (requests : List Request) :
    (output.askAll requests).2.Conserves most
      (bytes ++ Request.allEncoded output.encoder requests)
      (failed || decide (some .full ∈ (output.askAll requests).1)) := by
  induction requests generalizing output bytes failed with
  | nil => simpa [OutputBuffer.askAll, Request.allEncoded] using conserves
  | cons request rest induction =>
      have encoder := (ask_ends (accrues_request output request)).2
      have last := induction (conserves.ask request).1
      rw [encoder] at last
      simpa only [OutputBuffer.askAll, Request.allEncoded, List.mem_cons, Bool.decide_or,
        Bool.or_assoc, ByteArray.append_assoc, eq_comm] using last

/-- A buffer conserves bytes. After any requests, whatever has failed, the bytes that have been pushed
on and the pending ones are all bytes that have been encoded; the sink holds those that have been
pushed on, or, once a write to it has failed, as many as it has room for. The next request leaves few
bytes pending, or none, unless a write to the sink fails. -/
theorem received_of_askAll (encoder : Option Encoder) (limit : Option Nat) (canFlush : Bool)
    (requests : List Request) :
    let output : OutputBuffer := { sink := { limit, canFlush }, encoder }
    let failures := (output.askAll requests).1
    let after := (output.askAll requests).2
    let bytes := Request.allEncoded encoder requests
    after.written + after.pending.size = bytes.size ∧
      after.pending = bytes.extract after.written bytes.size ∧
      (some .full ∉ failures → after.sink.received = bytes.extract 0 after.written) ∧
      (some .full ∈ failures →
        ∃ most, limit = some most ∧ after.sink.received = bytes.extract 0 most ∧
          after.sink.received.size = most) ∧
      (∀ text, (after.ask (.write text)).1 = none →
        (after.ask (.write text)).2.pending.size < 4000) ∧
      ∀ request, request = .flush ∨ request = .finish → (after.ask request).1 ≠ some .full →
        (after.ask request).2.pending = .empty := by
  intro output failures after bytes
  have conserves : after.Conserves limit bytes (decide (some .full ∈ failures)) := by
    have all := (conserves_fresh limit canFlush encoder).askAll requests
    rwa [ByteArray.empty_append, Bool.false_or] at all
  have leaves (request : Request) := (conserves.ask request).2
  refine ⟨conserves.sizes, conserves.pending, fun sound => ?_, fun failed => ?_, fun text done => ?_, ?_⟩
  · rw [← conserves.level (by simpa using sound)]
    exact conserves.received
  · have jammed := conserves.jammed (by simpa using failed)
    exact ⟨after.sink.received.size, conserves.limit.symm.trans jammed.limit, conserves.received, rfl⟩
  · exact leaves (.write text) (by simp [done])
  · rintro request (rfl | rfl) sound
    · exact leaves .flush sound
    · exact leaves .finish sound

example :
    let output : OutputBuffer := { sink := { limit := some 3, canFlush := false } }
    (output.askAll [.write "ab", .flush, .write "cd", .flush, .flush]).1 =
      [none, some .flushFailed, none, some .full, some .full] := by
  decide +kernel

end XmlStream.OutputBuffer
