import XmlStream.Proofs.Completion.Explicit
import XmlStream.Proofs.Wrap.Outcome

namespace XmlStream

/-! A run of the command that a missing file stops leaves the document of the files before it. -/

namespace Writer

variable {before after ended : Writer}

/-- A writer that is given up passes on what it would have passed on if its document had been ended
and it had been closed. -/
theorem received_of_ended {nothing : Unit} (ready : before.Ready) (live : ¬before.Spent)
    (unfailing : before.output.sink.Unfailing)
    (ends : perform .endDocument before = .ok nothing ended)
    (closes : perform .close ended = .ok nothing after) :
    after.release.output.sink.received = before.release.output.sink.received := by
  have steps : before.step .endDocument = (.ok .done, ended) := step_of_ok (by simp) ends
  have finishes := (guarded_ok ends).2
  rcases start_of_finishDocument finishes with ⟨empty, start, _⟩
  have does := finishDocument_ok ready.sound ready.placed finishes
  have stillUnfailing : ended.output.sink.Unfailing := by
    rcases does with ⟨_, _, runs, _⟩
    exact runs.output.unfailing unfailing
  have here : ended.output.delivered = ended.output.sink.received := by
    rw [OutputBuffer.delivered, empty, ByteArray.append_empty]
  have closedNow : before.release.output.sink.received =
      ended.output.sink.received ++ OutputBuffer.switchBack ended.output.encoder := by
    have beside : before.Beside before := ⟨rfl, unfailing, unfailing⟩
    rcases shut_of_unfailing (fun closed => live (.inr closed)) beside.completed.1.unfailing with
      ⟨output, shuts, _, emptyToo, _⟩
    have closing : before.step .close = (.ok .done, _) := step_of_ok (by simp) shuts
    have same := received_endDocument live unfailing (by rw [steps]; rfl)
    rw [steps, closing] at same
    rw [received_of_release shuts emptyToo]
    exact same
  rw [received_of_closed (does.ready ready) start stillUnfailing closes, closedNow, here]

end Writer

namespace Wrap

open Writer (perform)

variable {options : Options} {files : FileTree} {sources : Sources} {writer last : Writer}

theorem wrapFiles_of_missing {before after : List String} {missing : String} {cause : FileError}
    (listed : options.files = before ++ missing :: after)
    (wraps : wrapUpTo options sources before writer = .ok () last)
    (absent : (sources.during last).opened missing = .error cause) :
    wrapFiles options sources writer = .error (.cannotOpen missing cause) last := by
  have stops : wrapFile options sources missing last = .error (.cannotOpen missing cause) last := by
    rw [wrapFile, bind_eq_error]
    refine .inr ⟨last, last, rfl, ?_⟩
    rw [absent]
    rfl
  rw [wrapFiles_eq, listed, wrapUpTo_append, bind_eq_error, bind_eq_error]
  refine .inl (.inr ⟨(), last, wraps, ?_⟩)
  rw [List.forM, bind_eq_error]
  exact .inl stops

/-- There is nothing that could be opened at a path. -/
def FileTree.Lacks (files : FileTree) (path : String) : Prop :=
  ∃ cause, files.opened path = .error cause

/-- A run that a missing file stops leaves behind what a run for the files before it does. Without
any file before it, that is a document with an empty root element. -/
theorem wrap_of_missing (options : Options) (files : FileTree) (before after : List String)
    (missing : String) (listed : options.files = before ++ missing :: after)
    (absent : files.Lacks missing)
    (apart : ∀ location, targetFor options files = .ok (some location) →
      files.locate missing (pathNames missing) ≠ .ok location)
    (wraps : (wrap { options with files := before } files).exitCode = 0) :
    (wrap options files).exitCode = 1 ∧
      (wrap options files).stdout = (wrap { options with files := before } files).stdout ∧
      (wrap options files).files = (wrap { options with files := before } files).files ∧
      (before = [] → ∃ encoder target, encoderFor options = .ok encoder ∧
        options.Leaves files (options.documentBytes encoder []) target (wrap options files)) := by
  rcases wrap_exitCode_eq_zero wraps with ⟨encoder, target, closed, encodes, writes, alone⟩
  have encodesToo : encoderFor options = .ok encoder := encodes
  have writesToo : targetFor options files = .ok target := writes
  have parts := alone
  rw [wrapFiles_eq] at parts
  simp only [bind_eq_ok, call_eq_ok] at parts
  rcases parts with ⟨_, last, upTo, _, ended, ends, closes⟩
  have upToMissing : wrapUpTo options { files, target } before (options.writer encoder) =
      .ok () last := upTo
  have unopened : ∃ cause, (Sources.during { files, target } last).opened missing = .error cause := by
    rcases absent with ⟨none, absent⟩
    cases opens : (Sources.during { files, target } last).opened missing with
    | error cause => exact ⟨cause, rfl⟩
    | ok found =>
        rw [Sources.opened_during fun location is => apart location (is ▸ writesToo), absent] at opens
        cases opens
  rcases unopened with ⟨cause, unopened⟩
  have stops := wrapFiles_of_missing listed upToMissing unopened
  have live : ¬last.Spent := Writer.not_spent_of_endDocument ends
  rcases wrapUpTo_ok upToMissing with ⟨arrivals, paths, _, calls⟩
  rcases (ready_of_calls calls).resolve_left live with ⟨ready, unfailing⟩
  have same := Writer.received_of_ended ready live unfailing ends closes
  have aloneToo : wrap { options with files := before } files = _ := wrap_eq encodes writes
  rw [wrap_eq encodesToo writesToo, aloneToo, writeDocument_of_error stops, writeDocument_of_ok alone,
    same]
  refine ⟨rfl, rfl, rfl, ?_⟩
  rintro rfl
  have bytes := received_of_document calls ends closes
  rw [same, List.map_eq_nil_iff.mp paths, List.map_nil] at bytes
  refine ⟨encoder, target, encodesToo, writesToo, ?_, ?_⟩ <;> rw [← bytes]

theorem wrap_of_missing_second :
    let options : Options :=
      { files := ["a", "gone", "b"], indentation := some 1, encoding := some "iso-2022-jp",
        output := "out.xml" }
    let files := FileTree.ofFiles [("a", "Man".toUTF8), ("b", .empty)]
    files.Lacks "gone" ∧ (wrap { options with files := ["a"] } files).exitCode = 0 ∧
      (wrap options files).exitCode = 1 ∧
      (wrap options files).stdout = (wrap { options with files := ["a"] } files).stdout ∧
      (wrap options files).files = (wrap { options with files := ["a"] } files).files ∧
      (["a"] = [] → ∃ encoder target, encoderFor options = .ok encoder ∧
        options.Leaves files (options.documentBytes encoder []) target (wrap options files)) := by
  intro options files
  have absent : files.Lacks "gone" := ⟨.notFound, by rfl⟩
  have wraps : (wrap { options with files := ["a"] } files).exitCode = 0 := by decide +kernel
  have apart : ∀ location, targetFor options files = .ok (some location) →
      files.locate "gone" (pathNames "gone") ≠ .ok location := by
    have target : targetFor options files = .ok (some ["out.xml"]) := by decide +kernel
    have missing : files.locate "gone" (pathNames "gone") = .ok ["gone"] := by rfl
    rintro location writes there
    rw [target] at writes
    rw [missing] at there
    cases writes
    exact absurd there (by decide)
  exact ⟨absent, wraps, wrap_of_missing options files ["a"] ["b"] "gone" rfl absent apart wraps⟩

end Wrap

end XmlStream
