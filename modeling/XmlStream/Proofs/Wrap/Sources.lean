import XmlStream.Proofs.Action
import XmlStream.Wrap.Command

namespace XmlStream.Wrap

/-! Files are read as they were found, whatever has been written to a place that none of them is
at. -/

namespace FileTree

variable {files : FileTree} {location there : Location} {content : ByteArray}

theorem directories_put (files : FileTree) (location : Location) (content : ByteArray) :
    (files.put location content).directories = files.directories := by
  unfold put
  split <;> rfl

theorem isDirectory_put (files : FileTree) (location : Location) (content : ByteArray)
    (there : Location) : (files.put location content).isDirectory there = files.isDirectory there := by
  rw [isDirectory, isDirectory, directories_put]

theorem fileAt?_put_of_ne (apart : there ≠ location) :
    (files.put location content).fileAt? there = files.fileAt? there := by
  unfold fileAt? put
  split
  · rfl
  · split
    · rfl
    · have differs : (location == there) = false := by simpa using Ne.symm apart
      have kept : (files.files.filter (·.1 != location)).find? (·.1 == there) =
          files.files.find? (·.1 == there) := by
        rw [List.find?_filter]
        congr 1
        funext entry
        cases same : entry.1 == there with
        | false => simp
        | true =>
            have equal : entry.1 = there := by simpa using same
            simp [equal, apart]
      simp [differs, kept]

theorem openedAt?_put_of_ne (apart : there ≠ location) :
    (files.put location content).openedAt? there = files.openedAt? there := by
  have size : (files.put location content).directorySize = files.directorySize := by
    unfold put
    split <;> rfl
  rw [openedAt?, openedAt?, fileAt?_put_of_ne apart, isDirectory_put, size]

theorem follow_put_eq_ok {here : Location} {names : List String} :
    (files.put location content).follow here names = .ok there ↔
      files.follow here names = .ok there := by
  induction names generalizing here with
  | nil => rfl
  | cons name rest induction =>
      rw [follow, follow, isDirectory_put]
      split
      · split
        · rfl
        · exact induction
      · constructor <;>
        · intro leads
          split at leads <;> cases leads

theorem locate_put_eq_ok {path : String} {names : List String} :
    (files.put location content).locate path names = .ok there ↔
      files.locate path names = .ok there := by
  unfold locate
  split
  · rfl
  · split
    · rfl
    · exact follow_put_eq_ok

theorem opened_eq_ok {path : String} {found : Opened} :
    files.opened path = .ok found ↔ ∃ location,
      files.locate path (pathNames path) = .ok location ∧
        files.openedAt? location = some found := by
  unfold opened
  cases leads : files.locate path (pathNames path) with
  | error cause => simp [Bind.bind, Except.bind]
  | ok location =>
      simp only [Bind.bind, Except.bind, Except.ok.injEq, exists_eq_left']
      cases files.openedAt? location <;> simp

theorem read_eq_ok {path : String} {found : ByteArray} :
    files.read path = .ok found ↔ files.opened path = .ok (.file found) := by
  unfold read
  cases files.opened path with
  | error cause => simp [Bind.bind, Except.bind]
  | ok opened => cases opened <;> simp [Bind.bind, Except.bind, Opened.read]

theorem opened_put_eq_ok {path : String} {found : Opened}
    (apart : files.locate path (pathNames path) ≠ .ok location) :
    (files.put location content).opened path = .ok found ↔ files.opened path = .ok found := by
  rw [opened_eq_ok, opened_eq_ok]
  refine exists_congr fun there => ?_
  rw [locate_put_eq_ok]
  refine and_congr_right fun leads => ?_
  rw [openedAt?_put_of_ne]
  rintro rfl
  exact apart leads

end FileTree

/-- While the document is written, what it is not written to is opened as it was found. -/
theorem Sources.opened_during {sources : Sources} {path : String} {found : Opened}
    (apart : ∀ location, sources.target = some location →
      sources.files.locate path (pathNames path) ≠ .ok location) (moment : Writer) :
    (sources.during moment).opened path = .ok found ↔ sources.files.opened path = .ok found := by
  unfold during
  cases target : sources.target with
  | none => rfl
  | some location => exact FileTree.opened_put_eq_ok (apart location target)

theorem Sources.read_during {sources : Sources} {path : String} {found : ByteArray}
    (apart : ∀ location, sources.target = some location →
      sources.files.locate path (pathNames path) ≠ .ok location) (moment : Writer) :
    (sources.during moment).read path = .ok found ↔ sources.files.read path = .ok found := by
  rw [FileTree.read_eq_ok, FileTree.read_eq_ok, opened_during apart moment]

/-! ## Outcomes -/

variable {options : Options} {files : FileTree} {encoder : Option Encoder}
  {target : Option Location}

def Options.writer (options : Options) (encoder : Option Encoder) : Writer :=
  Writer.create { sink := {}, encoder } options.settings

theorem wrap_eq (encodes : encoderFor options = .ok encoder)
    (writes : targetFor options files = .ok target) :
    wrap options files =
      let written := writeDocument options encoder { files, target }
      { exitCode := if written.1.isSome then 1 else 0
        stdout := if target.isSome then .empty else written.2
        stderr := (written.1.map WrapError.display).getD ""
        files := (target.map fun location => files.put location written.2).getD files } := by
  simp [wrap, encodes, writes, Bind.bind, Except.bind, pure, Except.pure]

theorem writeDocument_of_ok {sources : Sources} {last : Writer} {nothing : Unit}
    (wraps : wrapFiles options sources (options.writer encoder) = .ok nothing last) :
    writeDocument options encoder sources = (none, last.release.output.sink.received) := by
  rw [Options.writer] at wraps
  rw [writeDocument, wraps]

theorem writeDocument_of_error {sources : Sources} {last : Writer} {error : WrapError}
    (fails : wrapFiles options sources (options.writer encoder) = .error error last) :
    writeDocument options encoder sources = (some error, last.release.output.sink.received) := by
  rw [Options.writer] at fails
  rw [writeDocument, fails]

theorem wrap_exitCode_eq_zero (succeeds : (wrap options files).exitCode = 0) :
    ∃ encoder target last, encoderFor options = .ok encoder ∧
      targetFor options files = .ok target ∧
      wrapFiles options { files, target } (options.writer encoder) = .ok () last := by
  cases encodes : encoderFor options with
  | error error => simp [wrap, encodes, Bind.bind, Except.bind] at succeeds
  | ok encoder =>
      cases writes : targetFor options files with
      | error error => simp [wrap, encodes, writes, Bind.bind, Except.bind] at succeeds
      | ok target =>
          rw [wrap_eq encodes writes] at succeeds
          cases wraps : wrapFiles options { files, target } (options.writer encoder) with
          | ok _ last => exact ⟨encoder, target, last, rfl, rfl, wraps⟩
          | error error last => simp [writeDocument_of_error wraps] at succeeds

end XmlStream.Wrap
