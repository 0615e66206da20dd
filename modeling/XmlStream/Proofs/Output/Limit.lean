import XmlStream.Proofs.Output.Delivery
import XmlStream.Proofs.Output.Script
import XmlStream.Proofs.Reset.Mirror

namespace XmlStream

/-! An output with a limit beside one without, for the same orders. Until the limit is
reached nobody can tell them apart. The order that reaches it fails, and from then on the
full sink keeps what it has, which is the beginning of what the other sink gets. -/

/-- What it means for two states to differ in a limit that is not reached, for a state to
be full of bytes and have more of them, and for a state without limit to have got at least
some bytes; and the error that tells that the limit is reached. -/
structure Limiting (ε σ : Type) where
  Twins : Nat → σ → σ → Prop
  Jammed : ByteArray → σ → Prop
  Reaches : ByteArray → σ → Prop
  full : ε

namespace Limiting

variable {ε σ α β : Type} {limiting : Limiting ε σ}

/-- An action cuts the bytes at the limit: twins remain twins, with the same result, or the
limited one is jammed, and the other one has got all that it has. Later the one stays
jammed, and the other one can only get more. -/
structure Cuts (limiting : Limiting ε σ) (action : EStateM ε σ α) : Prop where
  twins {limit : Nat} {first second : σ} (twins : limiting.Twins limit first second) :
    Agree (limiting.Twins limit) (action first) (action second) ∨
      ∃ received after, action first = .error limiting.full after ∧
        limiting.Jammed received after ∧ received.size = limit ∧
        EndsIn (limiting.Reaches received) (action second)
  jammed {received : ByteArray} {state : σ} (jammed : limiting.Jammed received state) :
    EndsIn (limiting.Jammed received) (action state)
  reaches {received : ByteArray} {state : σ} (reaches : limiting.Reaches received state) :
    EndsIn (limiting.Reaches received) (action state)

namespace Cuts

theorem pure (value : α) : limiting.Cuts (Pure.pure value : EStateM ε σ α) where
  twins twins := .inl (.ok value twins)
  jammed jammed := jammed
  reaches reaches := reaches

theorem bind {action : EStateM ε σ α} {next : α → EStateM ε σ β} (cuts : limiting.Cuts action)
    (later : ∀ value, limiting.Cuts (next value)) : limiting.Cuts (action >>= next) where
  twins := by
    intro limit first second twins
    obtain agrees | ⟨received, after, full, jammed, size, reaches⟩ := cuts.twins twins
    · simp only [Bind.bind, EStateM.bind]
      generalize action first = result at agrees ⊢
      generalize action second = result at agrees ⊢
      cases agrees with
      | ok value twins => exact (later value).twins twins
      | error error twins => exact .inl (.error error twins)
    · refine .inr ⟨received, after, by simp [full], jammed, size, ?_⟩
      exact endsIn_bind reaches fun value _ => (later value).reaches
  jammed jammed := endsIn_bind (cuts.jammed jammed) fun value _ => (later value).jammed
  reaches reaches := endsIn_bind (cuts.reaches reaches) fun value _ => (later value).reaches

theorem get_bind {next : σ → EStateM ε σ α}
    (same : ∀ limit first second, limiting.Twins limit first second → next first = next second)
    (cuts : ∀ state, limiting.Cuts (next state)) : limiting.Cuts (get >>= next) where
  twins := by
    intro limit first second twins
    have looks (state : σ) : (get >>= next) state = next state state := rfl
    rw [looks, looks, same limit first second twins]
    exact (cuts second).twins twins
  jammed jammed := (cuts _).jammed jammed
  reaches reaches := (cuts _).reaches reaches

end Cuts

end Limiting

theorem extract_of_size_le {bytes : ByteArray} {limit : Nat} (fits : bytes.size ≤ limit) :
    bytes.extract 0 limit = bytes := by
  have whole := ByteArray.extract_zero_max_size (a := bytes) (i := limit)
  rwa [Nat.max_eq_left fits] at whole

namespace OutputBuffer

/-- Two outputs that differ in the limit of their sinks only, while that is not reached. -/
structure Twins (limit : Nat) (limited unlimited : OutputBuffer) : Prop where
  same : limited = { unlimited with sink.limit := some limit }
  endless : unlimited.sink.limit = none
  room : unlimited.sink.received.size ≤ limit

structure Jammed (received : ByteArray) (output : OutputBuffer) : Prop where
  limit : output.sink.limit = some received.size
  received : output.sink.received = received
  waiting : output.pending.size ≠ 0

structure Reaches (received : ByteArray) (output : OutputBuffer) : Prop where
  endless : output.sink.limit = none
  begins : ∃ more, output.delivered = received ++ more

def limiting : Limiting SinkError OutputBuffer := ⟨Twins, Jammed, Reaches, .full⟩

abbrev Cuts (action : Action Unit) : Prop := limiting.Cuts action

structure Adds (change : OutputBuffer → OutputBuffer) : Prop where
  blind (output : OutputBuffer) (sink : Sink) :
    change { output with sink } = { change output with sink }
  pending (output : OutputBuffer) : ∃ bytes, (change output).pending = output.pending ++ bytes

theorem Adds.sink {change : OutputBuffer → OutputBuffer} (adds : Adds change)
    (output : OutputBuffer) : (change output).sink = output.sink := by
  have same : change output = { change output with sink := output.sink } :=
    adds.blind output output.sink
  rw [same]

theorem adds_append (text : String) : Adds (·.append text) where
  blind output sink := by
    simp only [append]
    cases output.encoder <;> rfl
  pending output := by
    simp only [append]
    cases output.encoder <;> exact ⟨_, rfl⟩

theorem adds_terminate : Adds terminate where
  blind output sink := by
    cases found : output.encoder <;> simp [terminate, found]
  pending output := by
    cases found : output.encoder with
    | none => exact ⟨.empty, by simp [terminate, found]⟩
    | some encoder => exact ⟨encoder.finish.bytes.toByteArray, by simp only [terminate, found]⟩

theorem cuts_modify {change : OutputBuffer → OutputBuffer} (adds : Adds change) :
    Cuts (modify change) where
  twins := by
    intro limit first second twins
    have same : change first = { change second with sink := first.sink } := by
      rw [← adds.blind, twins.same]
    refine .inl (.ok _ ⟨?_, by rw [adds.sink, twins.endless], by rw [adds.sink]; exact twins.room⟩)
    rw [same, adds.sink, twins.same]
  jammed := by
    intro received output jammed
    obtain ⟨bytes, pending⟩ := adds.pending output
    have waiting := jammed.waiting
    exact ⟨by rw [adds.sink, jammed.limit], by rw [adds.sink, jammed.received],
      by rw [pending, ByteArray.size_append]; omega⟩
  reaches := by
    intro received output reaches
    obtain ⟨more, begins⟩ := reaches.begins
    obtain ⟨bytes, pending⟩ := adds.pending output
    refine ⟨by rw [adds.sink, reaches.endless], more ++ bytes, ?_⟩
    rw [delivered, adds.sink, pending, ← ByteArray.append_assoc, ← ByteArray.append_assoc,
      ← begins, delivered]

theorem push_of_isEmpty {output : OutputBuffer} (nothing : output.pending.isEmpty = true) :
    push output = .ok () output := by
  simp [push, nothing, Bind.bind, EStateM.bind, get_run, pure,
    EStateM.pure]

theorem push_of_fitting {output : OutputBuffer} (some : output.pending.isEmpty = false)
    (fits : output.sink.fitting output.pending = output.pending) :
    push output = .ok () { output with
      sink.received := output.sink.received ++ output.pending
      pending := .empty
      written := output.written + output.pending.size } := by
  simp [push, some, onSink, Sink.write, fits, Bind.bind, EStateM.bind, get_run, modify_run]

theorem push_of_full {output : OutputBuffer} (some : output.pending.isEmpty = false)
    (full : (output.sink.fitting output.pending).size ≠ output.pending.size) :
    push output = .error .full { output with
      sink.received := output.sink.received ++ output.sink.fitting output.pending } := by
  simp [push, some, onSink, Sink.write, full, Bind.bind, EStateM.bind, get_run]

theorem push_of_jammed {received : ByteArray} {output : OutputBuffer}
    (jammed : Jammed received output) : push output = .error .full output := by
  have nothing : output.sink.fitting output.pending = .empty := by
    simp [Sink.fitting, jammed.limit, jammed.received]
  have waiting := jammed.waiting
  rw [push_of_full (by simpa [ByteArray.isEmpty] using waiting) (by simp [nothing, waiting.symm])]
  simp [nothing]

theorem push_of_endless {output : OutputBuffer} (endless : output.sink.limit = none) :
    ∃ after, push output = .ok () after ∧ after.pending = .empty ∧
      after.sink.limit = none ∧ after.sink.received = output.delivered := by
  cases nothing : output.pending.isEmpty with
  | true =>
      have empty : output.pending = .empty :=
        ByteArray.size_eq_zero_iff.mp (by simpa [ByteArray.isEmpty] using nothing)
      exact ⟨output, push_of_isEmpty nothing, empty, endless, by simp [delivered, empty]⟩
  | false =>
      have fits : output.sink.fitting output.pending = output.pending := by
        simp [Sink.fitting, endless]
      exact ⟨_, push_of_fitting nothing fits, rfl, endless, rfl⟩

theorem cuts_push : Cuts push where
  twins := by
    intro limit first second twins
    have pending : first.pending = second.pending := by rw [twins.same]
    have received : first.sink.received = second.sink.received := by rw [twins.same]
    have limited : first.sink.limit = some limit := by rw [twins.same]
    have room := twins.room
    cases nothing : second.pending.isEmpty with
    | true =>
        rw [push_of_isEmpty nothing, push_of_isEmpty (by rw [pending, nothing])]
        exact .inl (.ok _ twins)
    | false =>
        have fitsEndless : second.sink.fitting second.pending = second.pending := by
          simp [Sink.fitting, twins.endless]
        rw [push_of_fitting nothing fitsEndless]
        have taken : first.sink.fitting first.pending =
            second.pending.extract 0 (limit - second.sink.received.size) := by
          simp [Sink.fitting, limited, received, pending]
        -- Either all of the pending bytes still fit below the limit, or the sink is full now.
        by_cases fits : second.pending.size ≤ limit - second.sink.received.size
        · have whole : first.sink.fitting first.pending = first.pending := by
            rw [taken, extract_of_size_le fits, pending]
          rw [push_of_fitting (by rw [pending, nothing]) whole]
          refine .inl (.ok _ ⟨by rw [twins.same], twins.endless, ?_⟩)
          simp only [ByteArray.size_append]
          omega
        · have size : (first.sink.fitting first.pending).size =
              limit - second.sink.received.size := by
            rw [taken, ByteArray.size_extract]
            omega
          rw [push_of_full (by rw [pending, nothing]) (by rw [size, pending]; omega)]
          refine .inr ⟨_, _, rfl, ⟨?_, rfl, ?_⟩, ?_, twins.endless,
            second.pending.extract (limit - second.sink.received.size) second.pending.size, ?_⟩
          · simp only [limited, received, ByteArray.size_append, size]
            congr 1
            omega
          · show first.pending.size ≠ 0
            rw [pending]
            omega
          · simp only [received, ByteArray.size_append, size]
            omega
          · simp only [delivered, received, taken, ByteArray.append_empty, ByteArray.append_assoc]
            rw [ByteArray.extract_append_extract, Nat.min_eq_left (Nat.zero_le _),
              Nat.max_eq_right (by omega), ByteArray.extract_zero_size]
  jammed := by
    intro received output jammed
    rw [push_of_jammed jammed]
    exact jammed
  reaches := by
    intro received output reaches
    obtain ⟨after, pushes, pending, endless, got⟩ := push_of_endless reaches.endless
    obtain ⟨more, begins⟩ := reaches.begins
    rw [pushes]
    exact ⟨endless, more, by rw [delivered, pending, got, ByteArray.append_empty, begins]⟩

theorem cuts_write (text : String) : Cuts (write text) := by
  refine .bind (cuts_modify (adds_append text)) fun _ => .get_bind ?_ fun output => ?_
  · intro limit first second twins
    rw [twins.same]
  · split
    · exact cuts_push
    · exact .pure _

theorem cuts_onSink_flush : Cuts (onSink Sink.flush) where
  twins := by
    intro limit first second twins
    have able : first.sink.canFlush = second.sink.canFlush := by rw [twins.same]
    simp only [onSink, Sink.flush, able]
    cases second.sink.canFlush with
    | true => exact .inl (.ok _ twins)
    | false => exact .inl (.error _ twins)
  jammed := by
    intro received output jammed
    simp only [onSink, Sink.flush]
    cases output.sink.canFlush <;> exact jammed
  reaches := by
    intro received output reaches
    simp only [onSink, Sink.flush]
    cases output.sink.canFlush <;> exact reaches

theorem cuts_flush : Cuts flush := .bind cuts_push fun _ => cuts_onSink_flush

theorem cuts_finish : Cuts finish := .bind (cuts_modify adds_terminate) fun _ => cuts_flush

theorem cuts_order (order : Order) : Cuts order.action := by
  cases order with
  | flush => exact cuts_flush
  | write text =>
      refine ⟨fun {limit first second} twins => ?_, fun jammed => (cuts_write _).jammed jammed,
        fun reaches => (cuts_write _).reaches reaches⟩
      have same : first.encoding? = second.encoding? := by rw [twins.same]; rfl
      simp only [Order.action, same]
      exact (cuts_write _).twins twins

/-! ## Giving up -/

theorem pending_of_release {output : OutputBuffer} (endless : output.sink.limit = none) :
    output.release.1.pending = .empty := by
  obtain ⟨after, pushes, pending, _, _⟩ := push_of_endless endless
  have flushes : flush output = onSink Sink.flush after := by
    simp [flush, Bind.bind, EStateM.bind, pushes]
  simp only [release, flushes, onSink, Sink.flush]
  cases after.sink.canFlush <;> exact pending

theorem release_of_endsIn {Holds : OutputBuffer → Prop} {output : OutputBuffer}
    (ends : EndsIn Holds (flush output)) : Holds output.release.1 := by
  unfold release
  generalize flush output = result at ends ⊢
  cases result <;> exact ends

theorem received_of_jammed {received : ByteArray} {output other : OutputBuffer}
    (jammed : output.release.1.Jammed received) (reaches : other.release.1.Reaches received)
    (endless : other.sink.limit = none) :
    output.release.1.sink.received = other.release.1.sink.received.extract 0 received.size := by
  obtain ⟨more, begins⟩ := reaches.begins
  rw [delivered, pending_of_release endless, ByteArray.append_empty] at begins
  rw [begins, jammed.received, ByteArray.extract_append_eq_left rfl]

theorem Jammed.release {received : ByteArray} {output other : OutputBuffer}
    (jammed : output.Jammed received) (reaches : other.Reaches received) :
    output.release.1.sink.received = other.release.1.sink.received.extract 0 received.size :=
  received_of_jammed (release_of_endsIn (cuts_flush.jammed jammed))
    (release_of_endsIn (cuts_flush.reaches reaches)) reaches.endless

theorem Twins.release {limit : Nat} {output other : OutputBuffer} (twins : output.Twins limit other) :
    output.release.1.sink.received = other.release.1.sink.received.extract 0 limit := by
  obtain agrees | ⟨received, after, full, jammed, rfl, reaches⟩ := cuts_flush.twins twins
  · have twins : output.release.1.Twins limit other.release.1 := by
      unfold OutputBuffer.release
      generalize flush output = result at agrees ⊢
      generalize flush other = result at agrees ⊢
      cases agrees with
      | ok _ twins => exact twins
      | error _ twins => exact twins
    rw [extract_of_size_le twins.room, twins.same]
  · refine received_of_jammed ?_ (release_of_endsIn reaches) twins.endless
    rw [OutputBuffer.release, full]
    exact jammed

end OutputBuffer

end XmlStream
