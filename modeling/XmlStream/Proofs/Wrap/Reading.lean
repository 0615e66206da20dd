import XmlStream.Proofs.Reading.Documents
import XmlStream.Proofs.Wrap.Text

namespace XmlStream

/-! What a reader finds in a document of files, in whatever character set it has been written. -/

namespace Charset

def shownText (charset : Charset) (text : String) : List Char := text.toList.flatMap charset.shown

variable {charset : Charset}

theorem shownText_append (charset : Charset) (text more : String) :
    charset.shownText (text ++ more) = charset.shownText text ++ charset.shownText more := by
  rw [shownText, String.toList_append, List.flatMap_append]
  rfl

theorem shownText_of_has {text : String} (has : ∀ character ∈ text.toList, charset.Has character) :
    charset.shownText text = text.toList :=
  flatMap_shown_of_has has

theorem shownText_of_common {text : String}
    (common : ∀ character ∈ text.toList, IsCommon character) :
    charset.shownText text = text.toList :=
  shownText_of_has fun character member => (common character member).has

theorem has_of_small {character : Char} (legal : Grammar.IsChar character)
    (small : character.toNat < 0x80) : charset.Has character := by
  cases missing : charset.missing? character with
  | none => exact missing
  | some reported =>
      have large := (missing?_of_legal legal missing).2
      omega

end Charset

namespace Reading

open Grammar (IsChar IsBlank Name isChar_of_mem_reference)

variable {charset : Charset}

/-! ## Characters -/

theorem isChar_of_mem_hexReference (character : Char) :
    ∀ other ∈ (hexReference character).toList, IsChar other := by
  have lead : ∀ other ∈ "&#x".toList, IsChar other := by
    unfold IsChar
    decide
  simpa [hexReference] using isChar_of_mem_reference lead (number?_upperHex character.toNat)

theorem isChar_of_mem_decimalReference (character : Char) :
    ∀ other ∈ (decimalReference character).toList, IsChar other := by
  have lead : ∀ other ∈ "&#".toList, IsChar other := by
    unfold IsChar
    decide
  have reference := isChar_of_mem_reference lead (number?_toDigits character.toNat)
  rw [toList_decimalReference]
  simpa using reference

theorem isChar_of_mem_entityReference {name : String} {character : Char}
    (predefined : predefined? name.toList = some character) :
    ∀ other ∈ (entityReference name).toList, IsChar other := by
  have marks : IsChar '&' ∧ IsChar ';' := by
    unfold IsChar
    decide
  intro other member
  simp only [entityReference, String.toList_append, String.reduceToList, List.mem_append,
    List.mem_singleton] at member
  rcases member with (rfl | member) | rfl
  · exact marks.1
  · exact isChar_of_mem_name (Grammar.name_of_predefined? predefined) other member
  · exact marks.2

theorem isChar_of_mem_shown {character : Char} (legal : IsChar character) :
    ∀ other ∈ charset.shown character, IsChar other := by
  unfold Charset.shown
  cases charset.missing? character with
  | none => simpa using legal
  | some reported => exact isChar_of_mem_decimalReference reported

theorem isChar_of_mem_shownText {text : String}
    (legal : ∀ character ∈ text.toList, IsChar character) :
    ∀ other ∈ charset.shownText text, IsChar other := by
  intro other member
  rcases List.mem_flatMap.mp member with ⟨character, within, member⟩
  exact isChar_of_mem_shown (legal character within) other member

theorem isChar_of_mem_escaped (position : TextPosition) (text : String) :
    ∀ other ∈ (position.escaped text).toList, IsChar other := by
  intro other member
  rw [TextPosition.toList_escaped] at member
  rcases List.mem_flatMap.mp member with ⟨character, _, member⟩
  have stands := position.stands_escapedChar character
  generalize position.escapedChar character = written at stands member
  cases stands with
  | plain _ _ _ legal => rwa [List.mem_singleton.mp member]
  | entity name predefined => exact isChar_of_mem_entityReference predefined other member
  | number => exact isChar_of_mem_hexReference character other member

theorem spells_shownText_escaped {position : TextPosition} {quote? : Option Quote}
    (suits : Suits position quote?) (text : String) :
    Spells quote? (charset.shownText (position.escaped text)) (text.toList.map .character) := by
  rw [Charset.shownText, TextPosition.toList_escaped, List.flatMap_assoc]
  exact spells_flatMap fun character _ => spells_shown_escapedChar suits character

/-! ## Pieces of a document -/

theorem attributes_shown (charset : Charset) {name : String} (named : Name name.toList)
    (has : ∀ character ∈ name.toList, charset.Has character) (quote : Quote) (value : String) :
    Attributes (charset.shownText (Draft.attributeText quote name value))
      [(name.toList, value.toList.map .character)] := by
  have space : Charset.IsCommon ' ' := by decide
  have equals : Charset.IsCommon '=' := by decide
  have quoted : Charset.IsCommon quote.char := by cases quote <;> decide
  have lead : charset.shownText (" " ++ name ++ "=" ++ quote.text) =
      ' ' :: (name.toList ++ ['=', quote.char]) := by
    rw [Charset.shownText_of_has]
    · simp [Draft.toList_text]
    · intro character member
      simp only [String.toList_append, String.reduceToList, Draft.toList_text, List.mem_append,
        List.mem_singleton] at member
      rcases member with ((rfl | member) | rfl) | rfl
      · exact space.has
      · exact has character member
      · exact equals.has
      · exact quoted.has
  have last : charset.shownText quote.text = [quote.char] := by
    rw [Charset.shownText_of_common, Draft.toList_text]
    simpa [Draft.toList_text] using quoted
  rw [Draft.attributeText, Charset.shownText_append, Charset.shownText_append, lead, last]
  refine attributes_single named (spells_shownText_escaped (fun _ => ?_) value) ?_
  · rintro ⟨⟩
    rfl
  · exact isChar_of_mem_shownText (isChar_of_mem_escaped (.attribute quote) value)

theorem reads_shown_plain {text : String}
    (plain : ∀ character ∈ text.toList, Grammar.Plain character)
    (small : ∀ character ∈ text.toList, character.toNat < 0x80) :
    Reads (charset.shownText text)
      (text.toList.map fun character => .text (.character character)) := by
  rw [Charset.shownText_of_has fun character member =>
    Charset.has_of_small (plain character member).legal (small character member)]
  exact reads_plain plain

def Node.isElement : Node → Bool
  | .element _ _ => true
  | _ => false

theorem reads_shown_blank {text : String} (blank : ∀ character ∈ text.toList, IsBlank character)
    (small : ∀ character ∈ text.toList, character.toNat < 0x80) :
    ∃ nodes, Reads (charset.shownText text) nodes ∧ ∀ node ∈ nodes, node.isElement = false ∧ node.IsMisc := by
  refine ⟨_, reads_shown_plain (fun character member =>
    Grammar.plain_of_isBlank (blank character member)) small, ?_⟩
  intro node member
  rcases List.mem_map.mp member with ⟨character, within, rfl⟩
  exact ⟨rfl, blank character within⟩

end Reading

open Grammar (IsChar IsBlank Name isChar_of_mem_reference)
open Reading (Node Part Reads IsDocument isChar_of_mem_name attributes_shown attributes_nil
  reads_nil reads_comment reads_shown_blank reads_shown_plain reads_emptyElement)

namespace Wrap

variable {options : Options} {charset : Charset}

/-! ## Names -/

def IsAsciiName (text : String) : Prop :=
  Name.isNCName text = true ∧ ∀ character ∈ text.toList, character.toNat < 0x80

instance (text : String) : Decidable (IsAsciiName text) := inferInstanceAs (Decidable (_ ∧ _))

theorem IsAsciiName.named {text : String} (ascii : IsAsciiName text) : Name text.toList :=
  Grammar.name_of_isNCName ascii.1

theorem IsAsciiName.has {text : String} (ascii : IsAsciiName text) :
    ∀ character ∈ text.toList, charset.Has character := fun character member =>
  Charset.has_of_small (isChar_of_mem_name ascii.named character member)
    (ascii.2 character member)

structure Options.Named (options : Options) : Prop where
  root : IsAsciiName options.root
  nsPrefix : ∀ given, options.nsPrefix = some given → IsAsciiName given

theorem Options.Named.elementPrefix (named : options.Named) :
    ∀ given, options.elementPrefix = some given → IsAsciiName given := by
  have xml : IsAsciiName "xml" := by decide +kernel
  have asked (given : String) (found : nonEmpty? options.nsPrefix = some given) :
      IsAsciiName given := by
    cases wanted : options.nsPrefix with
    | none => simp [wanted] at found
    | some other =>
        rw [wanted] at found
        exact named.nsPrefix given (wanted.trans (nonEmpty?_eq_some found).1)
  intro given found
  unfold Options.elementPrefix at found
  split at found
  · split at found
    · exact Option.some.inj found ▸ xml
    · cases found
  · exact asked given found

theorem writtenName_named (charset : Charset) {nsPrefix : Option String} {name : String}
    (ascii : IsAsciiName name) (prefixed : ∀ given, nsPrefix = some given → IsAsciiName given) :
    Name (writtenName nsPrefix name).toList ∧
      ∀ character ∈ (writtenName nsPrefix name).toList, charset.Has character := by
  refine ⟨Grammar.name_writtenName (fun given found => (prefixed given found).1) ascii.1, ?_⟩
  have colon : Charset.IsCommon ':' := by decide
  cases nsPrefix with
  | none => exact ascii.has
  | some given =>
      intro character member
      simp only [writtenName, String.toList_append, String.reduceToList, List.mem_append,
        List.mem_singleton] at member
      rcases member with (member | rfl) | member
      · exact (prefixed given rfl).has character member
      · exact colon.has
      · exact ascii.has character member

theorem tagName_named (charset : Charset) (named : options.Named) {name : String}
    (ascii : IsAsciiName name) :
    Name (options.tagName name).toList ∧
      ∀ character ∈ (options.tagName name).toList, charset.Has character :=
  writtenName_named charset ascii named.elementPrefix

theorem shownText_startTag {name : String} (has : ∀ character ∈ name.toList, charset.Has character) :
    charset.shownText ("<" ++ name) = '<' :: name.toList := by
  rw [Charset.shownText_append, Charset.shownText_of_has has,
    Charset.shownText_of_common (by decide)]
  rfl

theorem shownText_endTag {name : String} (has : ∀ character ∈ name.toList, charset.Has character) :
    charset.shownText ("</" ++ name ++ ">") = "</".toList ++ name.toList ++ ['>'] := by
  rw [Charset.shownText_append, Charset.shownText_append, Charset.shownText_of_has has,
    Charset.shownText_of_common (by decide), Charset.shownText_of_common (by decide)]
  rfl

/-! ## Files -/

def decodePayload? (encoding text : List Char) : Option (List UInt8) :=
  if encoding = "base64".toList then Base64.decode? text
  else if encoding = "hex".toList then Hexadecimal.decode? text
  else none

inductive Options.FileNode (options : Options) (path : String) (content : ByteArray) : Node → Prop
  | mk {encoding text : List Char}
      (decodes : decodePayload? encoding (text.filter (!CharacterClass.blank.hasChar ·)) =
        some content.data.toList) :
      FileNode options path content (.element
        { name := (options.tagName "file").toList
          attributes :=
            [("name".toList, ((lastName? path).getD path).toList.map .character),
              ("size".toList, (toString content.size).toList.map .character),
              ("encoding".toList, encoding.map .character)] }
        (text.map fun character => .text (.character character)))

def IsSymbol (character : Char) : Prop :=
  Grammar.Plain character ∧ character.toNat < 0x80 ∧ CharacterClass.blank.hasChar character = false

instance (character : Char) : Decidable (IsSymbol character) :=
  inferInstanceAs (Decidable (_ ∧ _ ∧ _))

theorem isSymbol_of_mem_payloadText (options : Options) (bytes : List UInt8) :
    ∀ character ∈ (options.payloadText bytes).toList, IsSymbol character := by
  rw [Options.payloadText, String.toList_ofList]
  split
  · exact Hexadecimal.of_mem_encode fun bits => of_getD bits (by decide +kernel) (by decide)
  · exact Base64.of_mem_encode (fun bits => of_getD bits (by decide +kernel) (by decide))
      (by decide) bytes

theorem mem_line {level : Nat} {character : Char}
    (member : character ∈ (options.line level).toList) : character = '\n' ∨ character = ' ' := by
  unfold Options.line at member
  split at member
  · simp only [String.toList_ofList, List.mem_cons, List.mem_replicate] at member
    exact member.imp_right And.right
  · simp at member

theorem isBlank_of_mem_line {level : Nat} {character : Char}
    (member : character ∈ (options.line level).toList) :
    IsBlank character ∧ character.toNat < 0x80 := by
  unfold IsBlank
  rcases mem_line member with rfl | rfl <;> decide

theorem reads_line (options : Options) (charset : Charset) (level : Nat) :
    ∃ nodes, Reads (charset.shownText (options.line level)) nodes ∧
      ∀ node ∈ nodes, node.isElement = false ∧ node.IsMisc :=
  reads_shown_blank (fun _ member => (isBlank_of_mem_line member).1)
    fun _ member => (isBlank_of_mem_line member).2

def Options.fileContent (options : Options) (content : ByteArray) : String :=
  if content.data.toList = [] then options.line 1 else options.payloadText content.data.toList

theorem plain_of_mem_fileContent {content : ByteArray} {character : Char}
    (member : character ∈ (options.fileContent content).toList) :
    Grammar.Plain character ∧ character.toNat < 0x80 := by
  unfold Options.fileContent at member
  split at member
  · rcases isBlank_of_mem_line member with ⟨blank, small⟩
    exact ⟨Grammar.plain_of_isBlank blank, small⟩
  · rcases isSymbol_of_mem_payloadText options _ character member with ⟨plain, small, _⟩
    exact ⟨plain, small⟩

theorem decodePayload?_payloadText (options : Options) (bytes : List UInt8) :
    decodePayload? (if options.hexadecimal then "hex" else "base64").toList
      (options.payloadText bytes).toList = some bytes := by
  rw [Options.payloadText, String.toList_ofList]
  cases options.hexadecimal
  · exact Base64.decode?_encode bytes
  · exact Hexadecimal.decode?_encode bytes

/-- What stands in the element of a file stands for the content of the file, blanks aside. -/
theorem decodePayload?_fileContent (options : Options) (content : ByteArray) :
    decodePayload? (if options.hexadecimal then "hex" else "base64").toList
      ((options.fileContent content).toList.filter (!CharacterClass.blank.hasChar ·)) =
        some content.data.toList := by
  by_cases empty : content.data.toList = []
  · have nothing : (options.line 1).toList.filter (!CharacterClass.blank.hasChar ·) = [] := by
      rw [List.filter_eq_nil_iff]
      intro character member
      have blank : CharacterClass.blank.hasChar character = true := (isBlank_of_mem_line member).1
      simp [blank]
    rw [Options.fileContent, if_pos empty, nothing, empty]
    cases options.hexadecimal <;> rfl
  · have all : (options.payloadText content.data.toList).toList.filter
        (!CharacterClass.blank.hasChar ·) = (options.payloadText content.data.toList).toList := by
      rw [List.filter_eq_self]
      intro character member
      simp [(isSymbol_of_mem_payloadText options _ character member).2.2]
    rw [Options.fileContent, if_neg empty, all]
    exact decodePayload?_payloadText options content.data.toList

theorem reads_file (named : options.Named) (charset : Charset) (path : String)
    (content : ByteArray) :
    ∃ before node, Reads (charset.shownText (options.fileText path content)) (before ++ [node]) ∧
      (∀ other ∈ before, other.isElement = false ∧ other.IsMisc) ∧
      node.isElement = true ∧ options.FileNode path content node := by
  rcases reads_line options charset 1 with ⟨before, line, misc⟩
  have file : IsAsciiName "file" := by decide +kernel
  rcases tagName_named charset named file with ⟨tag, has⟩
  have plain (name value : String) (ascii : IsAsciiName name) :=
    attributes_shown charset ascii.named ascii.has options.settings.quote value
  have attributed := ((plain "name" ((lastName? path).getD path) (by decide +kernel)).append
    (plain "size" (toString content.size) (by decide +kernel))).append
    (plain "encoding" (if options.hexadecimal then "hex" else "base64") (by decide +kernel))
  have inside : Reads (charset.shownText (options.fileContent content)) _ :=
    reads_shown_plain (fun _ member => (plain_of_mem_fileContent member).1)
      fun _ member => (plain_of_mem_fileContent member).2
  have distinct : ["name".toList, "size".toList, "encoding".toList].Nodup := by decide
  have element := inside.element tag attributed distinct
  refine ⟨before, _, ?_, misc, rfl, .mk (decodePayload?_fileContent options content)⟩
  have greater : charset.shownText ">" = ['>'] := Charset.shownText_of_common (by decide)
  have content : (if content.data.toList = [] then options.line 1
    else options.payloadText content.data.toList) = options.fileContent content := rfl
  have whole := line.append element
  simpa only [Options.fileText, Options.attribute, content, Charset.shownText_append,
    shownText_endTag has, shownText_startTag has, greater, List.append_assoc, List.singleton_append,
    List.cons_append, List.nil_append] using whole

end Wrap

end XmlStream
