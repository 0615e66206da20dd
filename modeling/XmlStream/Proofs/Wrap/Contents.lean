import XmlStream.Proofs.Wrap.Reading

namespace XmlStream

/-! A document of files is read as one, with an element for each of the files. -/

open Grammar (IsChar IsBlank Name)
open Reading (Attributes Node Part Reads StartTag IsDocument attributes_shown attributes_nil
  reads_nil reads_comment reads_emptyElement)

namespace Wrap

variable {options : Options} {charset : Charset}

theorem reads_files (named : options.Named) (charset : Charset)
    (files : List (String × ByteArray)) :
    ∃ nodes, Reads (charset.shownText
        ((files.map fun file => options.fileText file.1 file.2).foldr (· ++ ·) "")) nodes ∧
      (∀ node ∈ nodes, node.isElement = true ∨ node.IsMisc) ∧
      List.Forall₂ (fun file node => options.FileNode file.1 file.2 node) files
        (nodes.filter Node.isElement) := by
  induction files with
  | nil => exact ⟨[], reads_nil, by simp, .nil⟩
  | cons file rest induction =>
      rcases reads_file named charset file.1 file.2 with ⟨before, node, first, misc, isElement, holds⟩
      rcases induction with ⟨nodes, more, others, all⟩
      refine ⟨before ++ [node] ++ nodes, ?_, ?_, ?_⟩
      · rw [List.map_cons, List.foldr_cons, Charset.shownText_append]
        exact first.append more
      · intro other member
        rw [List.mem_append, List.mem_append, List.mem_singleton] at member
        rcases member with (member | rfl) | member
        · exact .inr (misc other member).2
        · exact .inl isElement
        · exact others other member
      · have nothing : before.filter Node.isElement = [] := by
          rw [List.filter_eq_nil_iff]
          intro other member
          simp [(misc other member).1]
        have elements : (before ++ [node] ++ nodes).filter Node.isElement =
            node :: nodes.filter Node.isElement := by
          simp [nothing, isElement]
        rw [elements]
        exact .cons holds all

/-! ## The root element -/

theorem isAsciiName_xmlns : IsAsciiName "xmlns" := by decide +kernel

theorem declarationText_eq {quote : Quote} {nsPrefix uri : String} (ascii : IsAsciiName nsPrefix) :
    Draft.declarationText quote ⟨nsPrefix, uri, false, none⟩ =
      Draft.attributeText quote (writtenName (some "xmlns") nsPrefix) uri := by
  apply String.toList_inj.mp
  simp [Draft.declarationText, Draft.attributeText, writtenName,
    Name.toList_escaped_of_isNCName _ ascii.1]

theorem defaultText_eq (quote : Quote) (uri : String) :
    Draft.defaultText quote uri = Draft.attributeText quote "xmlns" uri := by
  apply String.toList_inj.mp
  simp [Draft.defaultText, Draft.attributeText]

theorem attributes_declarations (named : options.Named) (charset : Charset) :
    ∃ attributes, Attributes (charset.shownText options.declarations) attributes ∧
      (attributes.map Prod.fst).Nodup := by
  unfold Options.declarations
  split
  · exact ⟨[], attributes_nil, .nil⟩
  · split
    · exact ⟨[], attributes_nil, .nil⟩
    · rw [defaultText_eq]
      exact ⟨_, attributes_shown charset isAsciiName_xmlns.named isAsciiName_xmlns.has _ _, by simp⟩
  · rename_i nsPrefix _ given
    split
    · exact ⟨[], attributes_nil, .nil⟩
    · have ascii := named.elementPrefix nsPrefix given
      rcases writtenName_named charset ascii fun _ found =>
        Option.some.inj found ▸ isAsciiName_xmlns with ⟨name, has⟩
      rw [declarationText_eq ascii]
      exact ⟨_, attributes_shown charset name has _ _, by simp⟩

def Options.rootText (options : Options) (files : List (String × ByteArray)) : String :=
  "<" ++ options.tagName options.root ++ options.declarations ++
    if files = [] then " />"
    else ">" ++ (files.map fun file => options.fileText file.1 file.2).foldr (· ++ ·) "" ++
      options.line 0 ++ ("</" ++ options.tagName options.root ++ ">")

theorem documentText_eq (options : Options) (encoding : Option String)
    (files : List (String × ByteArray)) :
    options.documentText encoding files = options.declaration encoding ++
      (options.line 0 ++ ("<!--" ++ generatorNote ++ "-->") ++ options.line 0 ++
        options.rootText files) := by
  simp only [Options.documentText, Options.headText, Options.rootText, String.append_assoc]

theorem reads_root (named : options.Named) (charset : Charset) (files : List (String × ByteArray)) :
    ∃ tag content, Reads (charset.shownText (options.rootText files)) [.element tag content] ∧
      tag.name = (options.tagName options.root).toList ∧
      (∀ node ∈ content, node.isElement = true ∨ node.IsMisc) ∧
      List.Forall₂ (fun file node => options.FileNode file.1 file.2 node) files
        (content.filter Node.isElement) := by
  rcases tagName_named charset named named.root with ⟨name, has⟩
  rcases attributes_declarations named charset with ⟨attributes, adds, distinct⟩
  rcases reads_files named charset files with ⟨nodes, reads, others, all⟩
  rcases reads_line options charset 0 with ⟨blanks, line, misc⟩
  rw [Options.rootText, Charset.shownText_append, Charset.shownText_append, shownText_startTag has]
  split
  · rename_i empty
    subst empty
    have ends : charset.shownText " />" = " />".toList := Charset.shownText_of_common (by decide)
    rw [ends]
    exact ⟨_, [], reads_emptyElement name adds distinct, rfl, by simp, .nil⟩
  · have greater : charset.shownText ">" = ['>'] := Charset.shownText_of_common (by decide)
    have element := (reads.append line).element name adds distinct
    refine ⟨{ name := (options.tagName options.root).toList, attributes }, nodes ++ blanks, ?_, rfl, ?_, ?_⟩
    · simpa only [Charset.shownText_append, greater, shownText_endTag has, List.append_assoc]
        using element
    · intro node member
      rcases List.mem_append.mp member with member | member
      · exact others node member
      · exact .inr (misc node member).2
    · have nothing : blanks.filter Node.isElement = [] := by
        rw [List.filter_eq_nil_iff]
        intro other member
        simp [(misc other member).1]
      rwa [List.filter_append, nothing, List.append_nil]

/-! ## Documents -/

def IsPlainMark (character : Char) : Prop := IsChar character ∧ Charset.IsCommon character

instance (character : Char) : Decidable (IsPlainMark character) :=
  inferInstanceAs (Decidable (CharacterClass.xml.hasChar character = true ∧ _))

theorem isPlainMark_of_mem_declarationPart (quote : Quote) {name value : String}
    (named : ∀ character ∈ name.toList, IsPlainMark character)
    (valued : ∀ character ∈ value.toList, IsPlainMark character) :
    ∀ character ∈ (Draft.declarationPart quote name value).toList, IsPlainMark character := by
  have marks : IsPlainMark ' ' ∧ IsPlainMark '=' := by decide
  have quoted : IsPlainMark quote.char := by cases quote <;> decide
  intro character member
  simp only [Draft.declarationPart, String.toList_append, String.reduceToList, Draft.toList_text,
    List.mem_append, List.mem_singleton] at member
  rcases member with ((((rfl | member) | rfl) | rfl) | member) | rfl
  · exact marks.1
  · exact named character member
  · exact marks.2
  · exact quoted
  · exact valued character member
  · exact quoted

theorem isPlainMark_of_mem_declaration (options : Options) (charset? : Option Charset) :
    ∀ character ∈ (options.declaration (charset?.map Charset.name)).toList,
      IsPlainMark character := by
  have marks : (∀ character ∈ "<?xml".toList, IsPlainMark character) ∧
      ∀ character ∈ "?>".toList, IsPlainMark character := by decide
  intro character member
  simp only [Options.declaration, String.toList_append, List.mem_append] at member
  rcases member with (((member | member) | member) | member) | member
  · exact marks.1 character member
  · exact isPlainMark_of_mem_declarationPart _ (by decide) (by decide) character member
  · cases charset? with
    | none => simp at member
    | some charset =>
        have named : ∀ character ∈ charset.name.toList, IsPlainMark character := by
          cases charset <;> decide
        exact isPlainMark_of_mem_declarationPart _ (by decide) named character member
  · split at member
    · exact isPlainMark_of_mem_declarationPart _ (by decide) (by decide) character member
    · simp at member
  · exact marks.2 character member

theorem reads_note (charset : Charset) :
    Reads (charset.shownText ("<!--" ++ generatorNote ++ "-->")) [.comment generatorNote.toList] := by
  rw [Charset.shownText_of_common (by decide +kernel)]
  have legal : ∀ character ∈ generatorNote.toList, IsChar character := by
    unfold IsChar
    decide +kernel
  simpa using reads_comment legal (by decide +kernel)

/-- The document of some files is one, and has an element for each of them. -/
theorem isDocument_documentText (named : options.Named) (charset : Charset)
    (charset? : Option Charset) (files : List (String × ByteArray)) :
    ∃ tag content, IsDocument tag content
        (charset.shownText (options.documentText (charset?.map Charset.name) files)) ∧
      tag.name = (options.tagName options.root).toList ∧
      (∀ node ∈ content, node.isElement = true ∨ node.IsMisc) ∧
      List.Forall₂ (fun file node => options.FileNode file.1 file.2 node) files
        (content.filter Node.isElement) := by
  have marks := isPlainMark_of_mem_declaration options charset?
  have declaration : charset.shownText (options.declaration (charset?.map Charset.name)) =
      (options.declaration (charset?.map Charset.name)).toList :=
    Charset.shownText_of_common fun character member => (marks character member).2
  have declares : Grammar.XmlDeclaration
      (options.declaration (charset?.map Charset.name)).toList := by
    have settings : (options.writer none).draft.settings = options.settings := rfl
    rw [← xmlDeclaration_eq settings]
    refine (options.writer none).draft.xmlDeclaration_grammar (fun name found => ?_) _
    rcases Option.map_eq_some_iff.mp found with ⟨charset, _, rfl⟩
    exact ⟨charset, rfl⟩
  rcases reads_line options charset 0 with ⟨blanks, line, misc⟩
  rcases reads_root named charset files with ⟨tag, content, root, name, others, all⟩
  refine ⟨tag, content, ?_, name, others, all⟩
  have rest := ((line.append (reads_note charset)).append line).append root
  have contents : Reading.contents? _ = some ((blanks ++ [.comment generatorNote.toList] ++ blanks) ++
      .element tag content :: []) := rest.contents?
  rw [documentText_eq, Charset.shownText_append, Charset.shownText_append, Charset.shownText_append,
    Charset.shownText_append, declaration]
  refine .mk declares ?_ contents ?_
  · intro character member
    rcases List.mem_append.mp member with member | member
    · exact (marks character member).1
    · exact rest.legal character member
  · intro node member
    simp only [List.mem_append, List.mem_singleton, List.not_mem_nil, or_false] at member
    rcases member with (member | rfl) | member
    · exact (misc node member).2
    · trivial
    · exact (misc node member).2

end Wrap

end XmlStream
