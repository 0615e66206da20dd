import XmlStream.Proofs.Charset.Replacement
import XmlStream.Proofs.Output.Alongside
import XmlStream.Proofs.Output.Conservation

namespace XmlStream.OutputBuffer

/-! What has been delivered when an output is finished: the whole text that was written, no matter in
how many strings and with which flushes between them, in a form that can be read back. -/

namespace Request

def text : Request → String
  | .write text => text
  | .flush => ""
  | .finish => ""

def allText : List Request → String
  | [] => ""
  | request :: rest => request.text ++ allText rest

end Request

variable {output after : OutputBuffer}

theorem ask_of_unfailing {request : Request} (unfailing : output.sink.Unfailing)
    (unfinished : request ≠ .finish) :
    ∃ after, output.ask request = (none, after) ∧ output.Extends request.text after := by
  cases request with
  | write text =>
      rcases write_of_unfailing unfailing text with ⟨after, writes, _⟩
      exact ⟨after, by simp [ask, Request.action, writes], extends_of_write writes⟩
  | flush =>
      rcases flush_of_unfailing unfailing with ⟨after, flushes, _, _⟩
      exact ⟨after, by simp [ask, Request.action, flushes], (extends_of_flush flushes).1⟩
  | finish => exact absurd rfl unfinished

theorem askAll_of_unfailing {requests : List Request} (unfailing : output.sink.Unfailing)
    (unfinished : .finish ∉ requests) :
    ∃ after, output.askAll requests = (requests.map fun _ => none, after) ∧
      output.Extends (Request.allText requests) after := by
  induction requests generalizing output with
  | nil => exact ⟨output, rfl, .refl output⟩
  | cons request rest induction =>
      simp only [List.mem_cons, not_or] at unfinished
      rcases ask_of_unfailing unfailing (Ne.symm unfinished.1) with ⟨middle, asks, extended⟩
      rcases induction (extended.unfailing unfailing) unfinished.2 with ⟨after, asksRest, further⟩
      exact ⟨after, by simp [askAll, asks, asksRest], extended.trans further⟩

theorem askAll_append (output : OutputBuffer) (requests more : List Request) :
    output.askAll (requests ++ more) =
      ((output.askAll requests).1 ++ ((output.askAll requests).2.askAll more).1,
        ((output.askAll requests).2.askAll more).2) := by
  induction requests generalizing output with
  | nil => rfl
  | cons request rest induction => simp [askAll, induction]

structure Finished (output : OutputBuffer) : Prop where
  unfailing : output.sink.Unfailing
  pending : output.pending = .empty
  encoder : ∀ encoder, output.encoder = some encoder →
    encoder.finish = { bytes := [], encoder }

theorem Finished.ask (finished : output.Finished) : output.ask .finish = (none, output) := by
  have ended : output.terminate = output := by
    unfold terminate
    split
    · rfl
    · next encoder found =>
        rw [finished.encoder encoder found]
        simp [← found]
  have nothing : output.pending.isEmpty = true := by rw [finished.pending]; rfl
  have flushes : flush output = .ok () output := by
    simp [flush, push_of_isEmpty nothing, Bind.bind, EStateM.bind, onSink, Sink.flush,
      finished.unfailing.canFlush]
  have finishes : finish output = flush output.terminate := rfl
  simp [OutputBuffer.ask, Request.action, finishes, ended, flushes]

theorem finished_of_ask (unfailing : output.sink.Unfailing) :
    ∃ after, output.ask .finish = (none, after) ∧ after.Finished ∧
      after.sink.received = output.terminate.delivered := by
  rcases Writer.finish_of_unfailing unfailing with ⟨after, finishes, empty, still⟩
  have asks : output.ask .finish = (none, after) := by simp [ask, Request.action, finishes]
  have encoder := (ask_ends (accrues_request output .finish)).2
  rw [asks] at encoder
  refine ⟨after, asks, ⟨still, empty, fun ended found => ?_⟩, (received_of_finish finishes).2⟩
  rw [found] at encoder
  rcases Option.map_eq_some_iff.mp encoder.symm with ⟨before, _, rfl⟩
  exact before.finish_finish

def wholly (encoder : Encoder) (text : String) : ByteArray :=
  (encoder.transcribe text).2 ++ (encoder.transcribe text).1.finish.bytes.toByteArray

theorem terminate_of_extends {sink : Sink} {encoder : Encoder} {text : String}
    (fresh : sink.received = .empty)
    (extended : ({ sink, encoder := some encoder } : OutputBuffer).Extends text output) :
    output.terminate.delivered = wholly encoder text := by
  have found : output.encoder = some (encoder.transcribe text).1 := extended.encoder
  have before := extended.delivered
  simp only [delivered, encoded, fresh, ByteArray.empty_append] at before
  simp only [terminate, found, delivered]
  rw [← ByteArray.append_assoc, before, wholly]

theorem reads_wholly (encoder : Encoder) (text : String) :
    encoder.Reads (wholly encoder text) (text.toList.flatMap encoder.charset.shown)
      (encoder.transcribe text).1.finish.encoder := by
  have reads := (encoder.reads_transcribe text).trans (Encoder.reads_finish _)
  rwa [List.append_nil] at reads

/-- An output that has been finished holds all the text that was written, encoded and ended. -/
theorem finished_of_askAll (encoder : Encoder) {requests : List Request}
    (unfinished : .finish ∉ requests) :
    ∃ after, ({ sink := {}, encoder := some encoder } : OutputBuffer).askAll (requests ++ [.finish]) =
        (requests.map (fun _ => none) ++ [none], after) ∧
      after.Finished ∧ after.sink.received = wholly encoder (Request.allText requests) := by
  have unfailing : ({ sink := {}, encoder := some encoder } : OutputBuffer).sink.Unfailing := ⟨rfl, rfl⟩
  rcases askAll_of_unfailing unfailing unfinished with ⟨written, asks, extended⟩
  rcases finished_of_ask (extended.unfailing unfailing) with ⟨after, finishes, finished, received⟩
  refine ⟨after, ?_, finished, received.trans (terminate_of_extends rfl extended)⟩
  rw [askAll_append, asks]
  simp [askAll, finishes]

/-- Encoded output decodes to the text. Whatever strings are written, with whatever flushes between
them, nothing fails, and once the output is finished the sink holds bytes that depend on nothing but
the whole text. They are read back as that text, with references in place of the characters that the
set does not have, end in the initial shift state, and another finish adds nothing. -/
theorem decode_of_askAll (charset : Charset) (requests : List Request)
    (unfinished : .finish ∉ requests) :
    let output : OutputBuffer := { sink := {}, encoder := some { charset } }
    let text := Request.allText requests
    let failures := (output.askAll (requests ++ [.finish])).1
    let after := (output.askAll (requests ++ [.finish])).2
    (∀ failure ∈ failures, failure = none) ∧
      (∀ others : List Request, .finish ∉ others → Request.allText others = text →
        (output.askAll (others ++ [.finish])).2.sink.received = after.sink.received) ∧
      charset.decode after.sink.received = some (text.toList.flatMap charset.replaced) ∧
      (charset = .iso2022jp →
        Charset.Japanese.follow { shift := .ascii } after.sink.received.data.toList =
          some { shift := .ascii }) ∧
      after.ask .finish = (none, after) := by
  intro output text failures after
  rcases finished_of_askAll { charset } unfinished with ⟨last, asks, finished, received⟩
  have isLast : after = last := congrArg Prod.snd asks
  have reads := reads_wholly { charset } text
  rw [isLast, received]
  refine ⟨?_, ?_, ?_, ?_, ?_⟩
  · intro failure member
    have all : failures = requests.map (fun _ => none) ++ [none] := congrArg Prod.fst asks
    rw [all] at member
    simp at member
    exact member.elim (·.2) id
  · intro others othersUnfinished same
    rcases finished_of_askAll { charset } othersUnfinished with ⟨_, asksToo, _, receivedToo⟩
    rw [asksToo, receivedToo, same]
  · have whole := reads.decodes []
    rw [List.append_nil, Encoder.decodeFrom_nil, Charset.shown_eq_replaced] at whole
    rwa [Option.map_some, List.append_nil] at whole
  · rintro rfl
    have decodes (more : List UInt8) := reads.decodes more
    rw [Encoder.finish_japanese reads.charset] at decodes
    exact Charset.Japanese.follow_of_decodeFrom decodes
  · exact finished.ask

theorem decode_of_askAll_kana :
    let requests : List Request := [.write "¥é", .flush, .write "あ\x0e"]
    let output : OutputBuffer := { sink := {}, encoder := some { charset := .iso2022jp } }
    .finish ∉ requests ∧
      Charset.iso2022jp.decode (output.askAll (requests ++ [.finish])).2.sink.received =
        some "¥&#233;あ&#65533;".toList := by
  have unfinished : .finish ∉ ([.write "¥é", .flush, .write "あ\x0e"] : List Request) := by simp
  have decodes := (decode_of_askAll .iso2022jp _ unfinished).2.2.1
  exact ⟨unfinished, decodes.trans (by decide +kernel)⟩

end XmlStream.OutputBuffer
