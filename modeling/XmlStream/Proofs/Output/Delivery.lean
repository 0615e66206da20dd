import XmlStream.Proofs.Action

namespace XmlStream

/-! What has been delivered to an output: the bytes that its sink has received,
followed by those that still wait in the buffer. Writing delivers the encoded text
behind all earlier text, no matter when bytes are pushed on. -/

namespace Encoder

theorem push_eq (encoder : Encoder) (bytes : ByteArray) (character : Char) :
    push (encoder, bytes) character =
      ((push (encoder, .empty) character).1,
        bytes ++ (push (encoder, .empty) character).2) := by
  simp [push]

theorem foldl_push_eq (characters : List Char) (encoder : Encoder) (bytes : ByteArray) :
    characters.foldl push (encoder, bytes) =
      ((characters.foldl push (encoder, .empty)).1,
        bytes ++ (characters.foldl push (encoder, .empty)).2) := by
  induction characters generalizing encoder bytes with
  | nil => simp
  | cons character rest induction =>
      rw [List.foldl_cons, List.foldl_cons, push_eq, induction,
        induction _ (push (encoder, .empty) character).2, ByteArray.append_assoc]

theorem pushOrRefer_eq (encoder : Encoder) (bytes : ByteArray) (character : Char) :
    pushOrRefer (encoder, bytes) character =
      ((pushOrRefer (encoder, .empty) character).1,
        bytes ++ (pushOrRefer (encoder, .empty) character).2) := by
  unfold pushOrRefer
  cases missing : (encoder.step character).missing with
  | none => exact push_eq encoder bytes character
  | some reported =>
      dsimp only
      rw [push_eq, foldl_push_eq,
        foldl_push_eq _ _ (push (encoder, .empty) character).2, ByteArray.append_assoc]

theorem foldl_pushOrRefer_eq (characters : List Char) (encoder : Encoder)
    (bytes : ByteArray) :
    characters.foldl pushOrRefer (encoder, bytes) =
      ((characters.foldl pushOrRefer (encoder, .empty)).1,
        bytes ++ (characters.foldl pushOrRefer (encoder, .empty)).2) := by
  induction characters generalizing encoder bytes with
  | nil => simp
  | cons character rest induction =>
      rw [List.foldl_cons, List.foldl_cons, pushOrRefer_eq, induction,
        induction _ (pushOrRefer (encoder, .empty) character).2, ByteArray.append_assoc]

theorem transcribe_append (encoder : Encoder) (first second : String) :
    encoder.transcribe (first ++ second) =
      (((encoder.transcribe first).1.transcribe second).1,
        (encoder.transcribe first).2 ++
          ((encoder.transcribe first).1.transcribe second).2) := by
  rw [transcribe, String.toList_append, List.foldl_append, foldl_pushOrRefer_eq]
  rfl

end Encoder

namespace OutputBuffer

def encoded (encoder : Option Encoder) (text : String) : Option Encoder × ByteArray :=
  match encoder with
  | none => (none, text.toUTF8)
  | some encoder => (some (encoder.transcribe text).1, (encoder.transcribe text).2)

theorem encoded_append (encoder : Option Encoder) (first second : String) :
    encoded encoder (first ++ second) =
      ((encoded (encoded encoder first).1 second).1,
        (encoded encoder first).2 ++ (encoded (encoded encoder first).1 second).2) := by
  cases encoder with
  | none => simp [encoded]
  | some encoder => simp [encoded, Encoder.transcribe_append]

def delivered (output : OutputBuffer) : ByteArray := output.sink.received ++ output.pending

structure Extends (before : OutputBuffer) (text : String) (after : OutputBuffer) : Prop where
  delivered : after.delivered = before.delivered ++ (encoded before.encoder text).2
  encoder : after.encoder = (encoded before.encoder text).1
  limit : after.sink.limit = before.sink.limit
  canFlush : after.sink.canFlush = before.sink.canFlush

theorem Extends.refl (output : OutputBuffer) : output.Extends "" output := by
  cases found : output.encoder with
  | none => exact ⟨by simp [encoded, found], by simp [encoded, found], rfl, rfl⟩
  | some encoder =>
      exact ⟨by simp [encoded, found, Encoder.transcribe],
        by simp [encoded, found, Encoder.transcribe], rfl, rfl⟩

theorem Extends.trans {first second third : OutputBuffer} {text more : String}
    (earlier : first.Extends text second) (later : second.Extends more third) :
    first.Extends (text ++ more) third where
  delivered := by
    rw [later.delivered, earlier.delivered, earlier.encoder, encoded_append,
      ByteArray.append_assoc]
  encoder := by rw [later.encoder, earlier.encoder, encoded_append]
  limit := later.limit.trans earlier.limit
  canFlush := later.canFlush.trans earlier.canFlush

theorem Extends.encoder_of_none {before after : OutputBuffer} {text : String}
    (extended : before.Extends text after) (noEncoder : before.encoder = none) :
    after.encoder = none := by
  rw [extended.encoder, noEncoder]
  rfl

theorem Extends.delivered_of_none {before after : OutputBuffer} {text : String}
    (extended : before.Extends text after) (noEncoder : before.encoder = none) :
    after.delivered = before.delivered ++ text.toUTF8 := by
  rw [extended.delivered, noEncoder]
  rfl

theorem extends_append (output : OutputBuffer) (text : String) :
    output.Extends text (output.append text) := by
  cases found : output.encoder with
  | none => constructor <;> simp [delivered, append, encoded, found, ByteArray.append_assoc]
  | some encoder =>
      constructor <;> simp [delivered, append, encoded, found, ByteArray.append_assoc]

theorem fitting_eq_of_size {sink : Sink} {bytes : ByteArray}
    (all : (sink.fitting bytes).size = bytes.size) : sink.fitting bytes = bytes := by
  unfold Sink.fitting at all ⊢
  cases found : sink.limit with
  | none => rfl
  | some limit =>
      simp only [found, ByteArray.size_extract] at all
      have room : max (limit - sink.received.size) bytes.size =
          limit - sink.received.size := by omega
      have whole := ByteArray.extract_zero_max_size (a := bytes) (i := limit - sink.received.size)
      rwa [room] at whole

theorem received_of_onSink_write {before after : OutputBuffer} {bytes : ByteArray}
    {nothing : Unit} (ok : onSink (Sink.write bytes) before = .ok nothing after) :
    after = { before with
      sink := { before.sink with received := before.sink.received ++ bytes } } := by
  simp only [onSink, Sink.write] at ok
  by_cases all : (before.sink.fitting bytes).size = bytes.size
  · simp only [all, if_true, EStateM.Result.ok.injEq, true_and] at ok
    rw [← ok, fitting_eq_of_size all]
  · simp [all] at ok

theorem extends_of_push {before after : OutputBuffer} {nothing : Unit}
    (ok : push before = .ok nothing after) :
    before.Extends "" after ∧ after.pending = .empty := by
  have same := Extends.refl before
  simp only [push, bind_eq_ok, get_eq_ok] at ok
  obtain ⟨_, _, ⟨rfl, rfl⟩, ok⟩ := ok
  by_cases nothingPending : before.pending.isEmpty
  · simp only [nothingPending, if_true, pure_eq_ok, true_and] at ok
    subst ok
    refine ⟨same, ByteArray.size_eq_zero_iff.mp ?_⟩
    simpa [ByteArray.isEmpty] using nothingPending
  · simp only [nothingPending, Bool.false_eq_true, if_false, bind_eq_ok, modify_eq_ok] at ok
    obtain ⟨_, middle, written, rfl⟩ := ok
    rw [received_of_onSink_write written]
    refine ⟨⟨?_, same.encoder, same.limit, same.canFlush⟩, rfl⟩
    rw [← same.delivered]
    simp [delivered]

theorem extends_of_write {before after : OutputBuffer} {text : String} {nothing : Unit}
    (ok : write text before = .ok nothing after) : before.Extends text after := by
  simp only [write, bind_eq_ok, modify_eq_ok, get_eq_ok, ite_eq_ok, pure_eq_ok] at ok
  obtain ⟨_, _, rfl, _, _, ⟨rfl, rfl⟩, ⟨_, pushed⟩ | ⟨_, _, rfl⟩⟩ := ok
  · simpa using (extends_append before text).trans (extends_of_push pushed).1
  · exact extends_append before text

theorem extends_of_flush {before after : OutputBuffer} {nothing : Unit}
    (ok : flush before = .ok nothing after) :
    before.Extends "" after ∧ after.pending = .empty := by
  simp only [flush, bind_eq_ok] at ok
  obtain ⟨_, middle, pushed, flushed⟩ := ok
  have kept : after = middle := by
    simp only [onSink, Sink.flush] at flushed
    by_cases able : middle.sink.canFlush
    · simp only [able, if_true, EStateM.Result.ok.injEq, true_and] at flushed
      exact flushed.symm
    · simp [able] at flushed
  subst kept
  exact extends_of_push pushed

end OutputBuffer

end XmlStream
