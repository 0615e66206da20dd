import XmlStream.Proofs.Wrap.Chunks
import XmlStream.Proofs.Wrap.Contents

namespace XmlStream

/-! What a run of the command has written can be read back: the document has an element for each
file, with its name, its size and its content. -/

open Reading (Node StartTag IsDocument)

namespace Wrap

variable {options : Options} {files : FileTree} {encoder : Option Encoder}

/-! ## Decoding -/

def charsetOf (encoder : Option Encoder) : Charset := (encoder.map (·.charset)).getD .utf8

theorem encoderFor_eq_ok (encodes : encoderFor options = .ok encoder) :
    ∃ charset? : Option Charset, encoder = charset?.map fun charset => { charset } := by
  unfold encoderFor at encodes
  split at encodes
  · cases encodes
    exact ⟨none, rfl⟩
  · split at encodes
    · rename_i found
      cases encodes
      rcases Option.map_eq_some_iff.mp found with ⟨charset, _, rfl⟩
      exact ⟨some charset, rfl⟩
    · cases encodes

theorem decode_encoded (charset? : Option Charset) (text : String) :
    let encoder : Option Encoder := charset?.map fun charset => { charset }
    (charsetOf encoder).decode ((OutputBuffer.encoded encoder text).2 ++
        OutputBuffer.switchBack (OutputBuffer.encoded encoder text).1) =
      some ((charsetOf encoder).shownText text) := by
  cases charset? with
  | none =>
      have shown : Charset.utf8.shownText text = text.toList :=
        Charset.shownText_of_has fun _ _ => rfl
      simpa [charsetOf, OutputBuffer.encoded, OutputBuffer.switchBack, shown] using
        Charset.decode_toUTF8 text
  | some charset =>
      have reads := ({ charset } : Encoder).reads_transcribe text
      simp only [charsetOf, OutputBuffer.encoded, OutputBuffer.switchBack, Option.map_some,
        Option.getD_some]
      rw [Charset.decode, ByteArray.data_append, Array.toList_append, reads.decodes]
      simp [Encoder.decodeFrom_finish, Charset.shownText]

/-! ## Reading back -/

/-- A text is a document with an element for each of the files, in order, and with no other. -/
inductive Options.IsWrapping (options : Options) (files : FileTree) (text : List Char) : Prop
  | mk {tag : StartTag} {content : List Node} (document : IsDocument tag content text)
      (root : tag.name = (options.tagName options.root).toList)
      (others : ∀ node ∈ content, node.isElement = true ∨ node.IsMisc)
      (elements : List.Forall₂ (fun path node => ∃ bytes, files.read path = .ok bytes ∧
        options.FileNode path bytes node) options.files (content.filter Node.isElement)) :
      IsWrapping options files text

/-- The files that are asked for arrive, in whatever chunks. -/
structure Options.Arrive (options : Options) (files : FileTree) (arrivals : List Arrival) : Prop where
  paths : arrivals.map (·.path) = options.files
  found : ∀ arrival ∈ arrivals, files.read arrival.path = .ok arrival.content

/-- The document is not written to any of the files that are asked for. -/
def Options.Apart (options : Options) (files : FileTree) : Prop :=
  ∀ path ∈ options.files, ∀ location, targetFor options files = .ok (some location) →
    files.locate path (pathNames path) ≠ .ok location

theorem Options.Arrive.contents {arrivals : List Arrival} (arrive : options.Arrive files arrivals) :
    (arrivals.map fun arrival => (arrival.path, arrival.content)) =
      options.files.map fun path => (path, (files.read? path).getD .empty) := by
  rw [← arrive.paths, List.map_map]
  refine List.map_congr_left fun arrival member => ?_
  simp [FileTree.read?, arrive.found arrival member, Except.toOption]

theorem Options.Arrive.elements {arrivals : List Arrival} (arrive : options.Arrive files arrivals)
    {nodes : List Node}
    (holds : List.Forall₂ (fun file node => options.FileNode file.1 file.2 node)
      (arrivals.map fun arrival => (arrival.path, arrival.content)) nodes) :
    List.Forall₂ (fun path node => ∃ bytes, files.read path = .ok bytes ∧
      options.FileNode path bytes node) options.files nodes := by
  rw [List.forall₂_map_left_iff] at holds
  rw [← arrive.paths, List.forall₂_map_left_iff]
  have found := arrive.found
  clear arrive
  induction holds with
  | nil => exact .nil
  | @cons arrival node arrivals nodes first _ induction =>
      rw [List.forall_mem_cons] at found
      exact .cons ⟨arrival.content, found.1, first⟩ (induction found.2)

/-- What a run that ends well has written can be read back: it is a document in which each file has
its element. It does not depend on the chunks in which the files arrive. -/
theorem wrap_lossless (options : Options) (files : FileTree) (named : options.Named)
    (apart : options.Apart files) (succeeds : (wrap options files).exitCode = 0) :
    ∃ encoder target bytes text, encoderFor options = .ok encoder ∧
      options.Leaves files bytes target (wrap options files) ∧
      (charsetOf encoder).decode bytes = some text ∧
      options.IsWrapping files text ∧
      ∀ arrivals, options.Arrive files arrivals →
        (options.writer encoder).Accepts (options.documentCalls arrivals) ∧
          ((options.writer encoder).run
            (options.documentCalls arrivals)).2.release.output.sink.received = bytes := by
  rcases leaves_of_exitCode_eq_zero succeeds with
    ⟨encoder, target, arrivals, encodes, paths, found, accepts, leaves⟩
  have arrive : options.Arrive files arrivals := by
    refine ⟨paths, fun arrival member => ?_⟩
    have listed : arrival.path ∈ options.files := paths ▸ List.mem_map_of_mem member
    rcases found arrival member with ⟨moment, reads⟩
    refine (Sources.read_during (fun location is => ?_) moment).mp reads
    exact apart arrival.path listed location (is ▸ leaves.writes)
  rcases encoderFor_eq_ok encodes with ⟨charset?, rfl⟩
  let charset := charsetOf (charset?.map fun charset => { charset })
  rcases isDocument_documentText named charset charset?
    (arrivals.map fun arrival => (arrival.path, arrival.content)) with
    ⟨tag, content, document, root, others, elements⟩
  have encoding : (charset?.map fun charset => ({ charset } : Encoder)).map (·.charset.name) =
      charset?.map Charset.name := by
    rw [Option.map_map]
    rfl
  rw [← encoding] at document
  refine ⟨_, target, _, _, encodes, leaves, decode_encoded charset? _,
    .mk document root others (arrive.elements elements), ?_⟩
  intro others arriveToo
  have same := arrive.contents.trans arriveToo.contents.symm
  rcases received_of_chunks same accepts with ⟨acceptsToo, received⟩
  exact ⟨acceptsToo, received.trans (by rw [same])⟩

theorem wrap_lossless_references :
    let options : Options :=
      { files := ["in/<あ\t>", "b"], root := "all", uri := some "urn:a&b", nsPrefix := some "p",
        indentation := some 2, encoding := some "latin1", output := "out.xml" }
    let files := FileTree.ofFiles [("in/<あ\t>", "Man!".toUTF8), ("b", .empty)]
    options.Named ∧ options.Apart files ∧ (wrap options files).exitCode = 0 ∧
      ∃ encoder target bytes text, encoderFor options = .ok encoder ∧
        options.Leaves files bytes target (wrap options files) ∧
        (charsetOf encoder).decode bytes = some text ∧
        options.IsWrapping files text ∧
        ∀ arrivals, options.Arrive files arrivals →
          (options.writer encoder).Accepts (options.documentCalls arrivals) ∧
            ((options.writer encoder).run
              (options.documentCalls arrivals)).2.release.output.sink.received = bytes := by
  intro options files
  have named : options.Named := by
    refine ⟨by decide +kernel, ?_⟩
    rintro given found
    cases found
    decide +kernel
  have succeeds : (wrap options files).exitCode = 0 := by decide +kernel
  have target : targetFor options files = .ok (some ["out.xml"]) := by decide +kernel
  have located : ∀ path ∈ options.files,
      (files.locate path (pathNames path)).toOption ≠ some ["out.xml"] := by decide +kernel
  have apart : options.Apart files := by
    intro path member location writes there
    rw [target] at writes
    cases writes
    exact located path member (by rw [there]; rfl)
  exact ⟨named, apart, succeeds, wrap_lossless options files named apart succeeds⟩

end Wrap

end XmlStream
