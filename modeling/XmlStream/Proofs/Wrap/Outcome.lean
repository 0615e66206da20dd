import XmlStream.Proofs.Completion.Explicit
import XmlStream.Proofs.Wrap.Text

namespace XmlStream

/-! What a run of the command leaves behind. -/

namespace Writer

variable {before ended after : Writer}

theorem completed_of_start (ready : before.Ready) (start : before.phase = .start) :
    before.completed = before := by
  have noPayload : before.payload = none :=
    ready.placed.payload_eq_none (by simp [start, Draft.TakesPayload])
  have outside : before.depth = 0 := ready.placed.outside (by simp [start])
  rw [completed, completeAll_of_paid (by simp [start]) (finishPayload_of_none noPayload), outside]
  rfl

theorem received_of_closed {nothing : Unit} (ready : ended.Ready) (start : ended.phase = .start)
    (unfailing : ended.output.sink.Unfailing)
    (closes : perform .close ended = .ok nothing after) :
    after.release.output.sink.received =
      ended.output.delivered ++ OutputBuffer.switchBack ended.output.encoder := by
  have nothingOpen := completed_of_start ready start
  rcases shut_of_unfailing (show ended.phase ≠ .closed by simp [start])
      (by rwa [nothingOpen]) with ⟨output, shuts, _, empty, received⟩
  rw [perform, shuts, nothingOpen] at closes
  cases closes
  rw [nothingOpen, (OutputBuffer.accrues_terminate _).delivered unfailing.limit] at received
  rw [← received]
  have stays : shut { ended with phase := .closed, output } =
      .ok () { ended with phase := .closed, output } := by rw [shut_eq, if_pos rfl]
  exact received_of_release stays empty

end Writer

namespace Wrap

variable {options : Options} {files : FileTree} {outcome : Outcome} {encoder : Option Encoder}

def Options.documentBytes (options : Options) (encoder : Option Encoder)
    (files : List (String × ByteArray)) : ByteArray :=
  let text := options.documentText (encoder.map (·.charset.name)) files
  (OutputBuffer.encoded encoder text).2 ++
    OutputBuffer.switchBack (OutputBuffer.encoded encoder text).1

/-- A run has written these bytes to the place that the options ask for, and nothing else. -/
structure Options.Leaves (options : Options) (files : FileTree) (bytes : ByteArray)
    (target : Option Location) (outcome : Outcome) : Prop where
  writes : targetFor options files = .ok target
  stdout : outcome.stdout = if target.isSome then .empty else bytes
  files : outcome.files = (target.map fun location => files.put location bytes).getD files

theorem ready_of_calls {calls : List Call} {filled : Writer}
    (ok : calls.forM Writer.perform (options.writer encoder) = .ok () filled) :
    filled.Spent ∨ filled.Ready ∧ filled.output.sink.Unfailing := by
  rcases Writer.forM_perform_eq_ok.mp ok with ⟨_, rfl⟩
  rcases Writer.run_extends (Writer.ready_create { sink := {}, encoder } options.settings) calls with
    spent | ⟨ready, text, extended⟩
  · exact .inl spent
  · exact .inr ⟨ready, extended.unfailing ⟨rfl, rfl⟩⟩

theorem received_of_document {arrivals : List Arrival} {filled ended last : Writer}
    {nothing done : Unit}
    (fills : (options.openingCalls ++ arrivals.flatMap options.fileCalls).forM Writer.perform
      (options.writer encoder) = .ok () filled)
    (ends : Writer.perform .endDocument filled = .ok nothing ended)
    (closes : Writer.perform .close ended = .ok done last) :
    last.release.output.sink.received = options.documentBytes encoder
      (arrivals.map fun arrival => (arrival.path, arrival.content)) := by
  have live : ¬filled.Spent := Writer.not_spent_of_endDocument ends
  rcases (ready_of_calls fills).resolve_left live with ⟨ready, unfailing⟩
  rcases forM_perform_append.mp fills with ⟨opened, opens, rest⟩
  have finishes := (Writer.guarded_ok ends).2
  have does := Writer.finishDocument_ok ready.sound ready.placed finishes
  have stillUnfailing : ended.output.sink.Unfailing := by
    rcases does with ⟨_, _, runs, _⟩
    exact runs.output.unfailing unfailing
  have extended := document_comes opens rest ends
  have nothingYet : (options.writer encoder).output.delivered = .empty := rfl
  rw [Writer.received_of_closed (does.ready ready) (Writer.start_of_finishDocument finishes).2.1
    stillUnfailing closes, extended.delivered, extended.encoder, nothingYet, ByteArray.empty_append]
  rfl

theorem leaves_of_exitCode_eq_zero (succeeds : (wrap options files).exitCode = 0) :
    ∃ encoder target, ∃ arrivals : List Arrival, encoderFor options = .ok encoder ∧
      arrivals.map (·.path) = options.files ∧
      (∀ arrival ∈ arrivals, ∃ moment, (Sources.during { files, target } moment).read arrival.path =
        .ok arrival.content) ∧
      (options.writer encoder).Accepts (options.documentCalls arrivals) ∧
      options.Leaves files (options.documentBytes encoder
        (arrivals.map fun arrival => (arrival.path, arrival.content))) target (wrap options files) := by
  rcases wrap_exitCode_eq_zero succeeds with ⟨encoder, target, last, encodes, writes, wraps⟩
  have parts := wraps
  rw [wrapFiles_eq] at parts
  simp only [bind_eq_ok, call_eq_ok] at parts
  rcases parts with ⟨_, filled, upTo, _, ended, ends, closes⟩
  rcases wrapUpTo_ok upTo with ⟨arrivals, paths, found, calls⟩
  have all : (options.documentCalls arrivals).forM Writer.perform (options.writer encoder) =
      .ok () last := by
    rw [Options.documentCalls, forM_perform_append]
    refine ⟨filled, calls, ?_⟩
    simp only [List.forM, bind_eq_ok, pure_eq_ok]
    exact ⟨_, ended, ends, _, last, closes, trivial, rfl⟩
  refine ⟨encoder, target, arrivals, encodes, paths, found, (Writer.forM_perform_eq_ok.mp all).1,
    writes, ?_, ?_⟩
  all_goals rw [← received_of_document calls ends closes, wrap_eq encodes writes, writeDocument_of_ok wraps]

end Wrap

end XmlStream
