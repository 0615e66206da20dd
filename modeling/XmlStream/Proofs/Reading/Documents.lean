import XmlStream.Proofs.Grammar.Declarations
import XmlStream.Proofs.Reading.Markup

namespace XmlStream.Reading

/-! Documents as trees: what a reader tells is put together to elements, with what stands in
them. -/

open Grammar (IsChar IsBlank Name)

inductive Node
  | element (tag : StartTag) (content : List Node)
  | text (part : Part)
  | cdata (text : List Char)
  | comment (text : List Char)
  | instruction (target data : List Char)

def StartTag.Distinct (tag : StartTag) : Prop := (tag.attributes.map Prod.fst).Nodup

instance (tag : StartTag) : Decidable tag.Distinct := inferInstanceAs (Decidable (List.Nodup _))

/-- The character that a node is. All other nodes are as good as a blank. -/
def Node.character : Node → Char
  | .text (.character character) => character
  | _ => ' '

def endsSection (nodes : List Node) : Bool := "]]>".toList.isSuffixOf (nodes.map Node.character)

/-- Two hyphens in a row can only end a comment. -/
def isCommentText (text : List Char) : Bool := !occursIn "--".toList (text ++ ['-'])

/-- The targets of instructions are names other than the one of the declaration. -/
def isTarget (target : List Char) : Bool :=
  Name.isName (String.ofList target) && target.map Char.toLower != "xml".toList

/-- The nodes that items make up: those that have been read before in the innermost element, and
what follows them. The elements that are open come with what stands before them, innermost first.
An end tag has to repeat the name of the start tag, and nothing may remain open. -/
def nodes? : List (StartTag × List Node) → List Node → List Item → Option (List Node)
  | [], earlier, [] => some earlier
  | _ :: _, _, [] => none
  | opened, earlier, .startTag tag :: rest =>
    if tag.Distinct then nodes? ((tag, earlier) :: opened) [] rest else none
  | opened, earlier, .emptyTag tag :: rest =>
    if tag.Distinct then nodes? opened (earlier ++ [.element tag []]) rest else none
  | [], _, .endTag _ :: _ => none
  | (tag, before) :: opened, earlier, .endTag name :: rest =>
    if tag.name = name then nodes? opened (before ++ [.element tag earlier]) rest else none
  | opened, earlier, .text part :: rest =>
    if endsSection (earlier ++ [.text part]) then none
    else nodes? opened (earlier ++ [.text part]) rest
  | opened, earlier, .cdata text :: rest => nodes? opened (earlier ++ [.cdata text]) rest
  | opened, earlier, .comment text :: rest =>
    if isCommentText text then nodes? opened (earlier ++ [.comment text]) rest else none
  | opened, earlier, .instruction target data :: rest =>
    if isTarget target then nodes? opened (earlier ++ [.instruction target data]) rest else none
  | _, _, .doctype _ :: _ => none

def contents? (text : List Char) : Option (List Node) :=
  let (place, items) := read (.text .content) text
  if place = .text .content then nodes? [] [] items else none

def Node.IsMisc : Node → Prop
  | .text (.character character) => IsBlank character
  | .comment _ | .instruction _ _ => True
  | _ => False

/-- A text is a document with this root element. It has a declaration, but no document type. -/
inductive IsDocument (tag : StartTag) (content : List Node) : List Char → Prop
  | mk {declaration rest : List Char} {before after : List Node}
      (declares : Grammar.XmlDeclaration declaration)
      (legal : ∀ character ∈ declaration ++ rest, IsChar character)
      (contents : contents? rest = some (before ++ .element tag content :: after))
      (misc : ∀ node ∈ before ++ after, node.IsMisc) :
      IsDocument tag content (declaration ++ rest)

/-- Tags of one name have to be nested, and none may be left over. -/
example : (contents? "<a><b /></a>".toList).isSome ∧ contents? "<a><b></a></b>".toList = none ∧
    contents? "<a>".toList = none := by
  decide +kernel

/-! ## Items -/

variable {items more : List Item} {nodes others : List Node}

def Tells (items : List Item) (nodes : List Node) : Prop :=
  ∀ opened earlier rest, nodes? opened earlier (items ++ rest) =
    nodes? opened (earlier ++ nodes) rest

theorem tells_nil : Tells [] [] := by
  intro opened earlier rest
  simp

theorem Tells.append (tells : Tells items nodes) (later : Tells more others) :
    Tells (items ++ more) (nodes ++ others) := by
  intro opened earlier rest
  rw [List.append_assoc, tells, later, List.append_assoc]

theorem Tells.nodes? (tells : Tells items nodes) : Reading.nodes? [] [] items = some nodes := by
  have whole := tells [] [] []
  rwa [List.append_nil, List.nil_append] at whole

theorem endsSection_concat {part : Part} (notGreater : part ≠ .character '>')
    (earlier : List Node) : endsSection (earlier ++ [.text part]) = false := by
  have differs : Node.character (.text part) ≠ '>' := by
    cases part with
    | character character => simpa [Node.character] using notGreater
    | entity name => simp [Node.character]
  rw [endsSection, Bool.eq_false_iff, Ne, List.isSuffixOf_iff_suffix, List.map_append]
  rintro ⟨lead, whole⟩
  have split : lead ++ "]]>".toList = (lead ++ "]]".toList) ++ ['>'] := by simp
  rw [split] at whole
  exact differs (List.singleton_inj.mp (List.append_inj_right' whole rfl)).symm

theorem tells_text {parts : List Part} (noGreater : ∀ part ∈ parts, part ≠ .character '>') :
    Tells (parts.map .text) (parts.map .text) := by
  induction parts with
  | nil => exact tells_nil
  | cons part rest induction =>
      have first : Tells [.text part] [.text part] := by
        intro opened earlier rest
        rw [List.singleton_append, Reading.nodes?,
          endsSection_concat (noGreater part List.mem_cons_self)]
        rfl
      exact first.append (induction fun other member =>
        noGreater other (List.mem_cons_of_mem _ member))

theorem tells_comment {text : List Char} (inOrder : isCommentText text = true) :
    Tells [.comment text] [.comment text] := by
  intro opened earlier rest
  rw [List.singleton_append, Reading.nodes?, if_pos inOrder]

theorem tells_emptyTag {tag : StartTag} (distinct : tag.Distinct) :
    Tells [.emptyTag tag] [.element tag []] := by
  intro opened earlier rest
  rw [List.singleton_append, Reading.nodes?, if_pos distinct]

theorem Tells.element (tells : Tells items nodes) {tag : StartTag} (distinct : tag.Distinct) :
    Tells (.startTag tag :: (items ++ [.endTag tag.name])) [.element tag nodes] := by
  intro opened earlier rest
  rw [List.cons_append, Reading.nodes?, if_pos distinct, List.append_assoc, tells,
    List.singleton_append, Reading.nodes?, if_pos rfl, List.nil_append]

/-! ## Texts -/

variable {text later : List Char} {quote : Quote}

structure Reads (text : List Char) (nodes : List Node) : Prop where
  legal : ∀ character ∈ text, IsChar character
  tells : ∃ items, read (.text .content) text = (.text .content, items) ∧ Tells items nodes

theorem isChar_of_mem_append {other : Char} (legal : ∀ character ∈ text, IsChar character)
    (legalToo : ∀ character ∈ later, IsChar character) (member : other ∈ text ++ later) :
    IsChar other := by
  rcases List.mem_append.mp member with member | member
  · exact legal other member
  · exact legalToo other member

theorem read_between (first : read (.text .content) text = (.text .content, items))
    (second : read (.text .content) later = (.text .content, more)) :
    read (.text .content) (text ++ later) = (.text .content, items ++ more) := by
  rw [read_append, first, second]

theorem Reads.append (reads : Reads text nodes) (rest : Reads later others) :
    Reads (text ++ later) (nodes ++ others) := by
  rcases reads with ⟨legal, items, leads, tells⟩
  rcases rest with ⟨legalToo, more, leadsToo, tellsToo⟩
  exact ⟨fun character => isChar_of_mem_append legal legalToo, items ++ more,
    read_between leads leadsToo, tells.append tellsToo⟩

theorem reads_nil : Reads [] [] := ⟨by simp, [], rfl, tells_nil⟩

theorem Reads.contents? (reads : Reads text nodes) : Reading.contents? text = some nodes := by
  rcases reads.tells with ⟨items, leads, tells⟩
  rw [Reading.contents?, leads]
  exact tells.nodes?

theorem reads_plain (plain : ∀ character ∈ text, Grammar.Plain character) :
    Reads text (text.map fun character => .text (.character character)) := by
  have spells : Spells none text (text.map .character) := spells_of_plain plain
  have tells : Tells ((text.map Part.character).map .text) ((text.map Part.character).map .text) := by
    refine tells_text fun part member => ?_
    rcases List.mem_map.mp member with ⟨character, within, rfl⟩
    simpa using (plain character within).notGreater
  refine ⟨fun character member => (plain character member).legal, _, spells .content rfl, ?_⟩
  simpa [Function.comp_def] using tells

theorem reads_comment (legal : ∀ character ∈ text, IsChar character)
    (inOrder : isCommentText text = true) :
    Reads ("<!--".toList ++ text ++ "-->".toList) [.comment text] := by
  have noHyphens : ¬"--".toList <:+: text := by
    have absent : ¬"--".toList <:+: text ++ ['-'] := by
      rw [← Grammar.occursIn_iff]
      simpa [isCommentText] using inOrder
    exact fun inside => absent (inside.trans (List.prefix_append _ _).isInfix)
  have marks : (∀ character ∈ "<!--".toList, IsChar character) ∧
      ∀ character ∈ "-->".toList, IsChar character := by
    unfold IsChar
    decide
  refine ⟨fun character => ?_, _, read_comment noHyphens, tells_comment inOrder⟩
  exact isChar_of_mem_append (fun other => isChar_of_mem_append marks.1 legal) marks.2

/-! ## Elements -/

structure Attributes (text : List Char) (attributes : List (List Char × List Part)) : Prop where
  legal : ∀ character ∈ text, IsChar character
  leads : ∀ name earlier place, InTag { name, attributes := earlier } place → ∃ next,
    read place text = (next, []) ∧ InTag { name, attributes := earlier ++ attributes } next

variable {attributes others : List (List Char × List Part)} {name : List Char}

theorem attributes_nil : Attributes [] [] :=
  ⟨by simp, fun _ _ place inTag => ⟨place, rfl, by simpa using inTag⟩⟩

theorem Attributes.append (adds : Attributes text attributes) (rest : Attributes later others) :
    Attributes (text ++ later) (attributes ++ others) := by
  refine ⟨fun character => isChar_of_mem_append adds.legal rest.legal, ?_⟩
  intro name earlier place inTag
  rcases adds.leads name earlier place inTag with ⟨middle, first, inTag⟩
  rcases rest.leads name _ middle inTag with ⟨next, second, inTag⟩
  exact ⟨next, by rw [read_append, first, second]; rfl, by simpa using inTag⟩

theorem isChar_of_mem_name (named : Name name) : ∀ character ∈ name, IsChar character :=
  fun character member => CharacterClass.xml_of_namePart (named.parts character member)

theorem isChar_quote (quote : Quote) : IsChar quote.char := by
  unfold IsChar
  cases quote <;> decide

theorem attributes_single {value : List Char} {parts : List Part} (named : Name name)
    (spells : Spells (some quote) value parts) (legal : ∀ character ∈ value, IsChar character) :
    Attributes (' ' :: (name ++ ['=', quote.char]) ++ value ++ [quote.char]) [(name, parts)] := by
  have marks : IsChar ' ' ∧ IsChar '=' := by
    unfold IsChar
    decide
  have quoted := isChar_quote quote
  refine ⟨?_, ?_⟩
  · intro character member
    simp only [List.mem_append, List.mem_cons, List.not_mem_nil, or_false] at member
    rcases member with ((rfl | member | rfl | rfl) | member) | rfl
    · exact marks.1
    · exact isChar_of_mem_name named character member
    · exact marks.2
    · exact quoted
    · exact legal character member
    · exact quoted
  · intro element earlier place inTag
    refine ⟨.tag { name := element, attributes := earlier ++ [(name, parts)] } false, ?_, .tag false⟩
    rw [read_append, read_append, read_attributeStart inTag named, spells _ rfl]
    rw [show Host.takeAll parts (.value { name := element, attributes := earlier } name quote []) =
      (.text (.value { name := element, attributes := earlier } name quote parts), []) from rfl]
    rw [read_quote rfl]
    rfl

theorem read_wholeTag (named : Name name) (adds : Attributes text attributes) {mark : List Char}
    {item : Item} (ends : ∀ place, InTag { name, attributes } place →
      read place mark = (.text .content, [item])) :
    read (.text .content) ('<' :: name ++ text ++ mark) = (.text .content, [item]) := by
  rcases adds.leads name [] _ (.name rfl) with ⟨next, leads, inTag⟩
  rw [read_append, read_append, read_startTag named]
  rw [show (StartTag.mk name []).name = name from rfl] at leads
  rw [leads, ends next (by simpa using inTag)]
  rfl

theorem isChar_of_mem_tag (named : Name name) (adds : Attributes text attributes) {mark : List Char}
    (marks : ∀ character ∈ mark, IsChar character) :
    ∀ character ∈ '<' :: name ++ text ++ mark, IsChar character := by
  have less : IsChar '<' := by
    unfold IsChar
    decide
  refine fun character => isChar_of_mem_append (fun other => isChar_of_mem_append ?_ adds.legal) marks
  intro other member
  rcases List.mem_cons.mp member with rfl | member
  · exact less
  · exact isChar_of_mem_name named other member

theorem reads_emptyElement (named : Name name) (adds : Attributes text attributes)
    (distinct : StartTag.Distinct { name, attributes }) :
    Reads ('<' :: name ++ text ++ " />".toList) [.element { name, attributes } []] := by
  have marks : ∀ character ∈ " />".toList, IsChar character := by
    unfold IsChar
    decide
  exact ⟨isChar_of_mem_tag named adds marks, _,
    read_wholeTag named adds fun _ inTag => read_emptyTagEnd inTag, tells_emptyTag distinct⟩

theorem Reads.element {content : List Char} (reads : Reads content nodes) (named : Name name)
    (adds : Attributes text attributes) (distinct : StartTag.Distinct { name, attributes }) :
    Reads ('<' :: name ++ text ++ ['>'] ++ content ++ ("</".toList ++ name ++ ['>']))
      [.element { name, attributes } nodes] := by
  have marks : (∀ character ∈ "</".toList, IsChar character) ∧ ∀ character ∈ ['>'], IsChar character := by
    unfold IsChar
    decide
  rcases reads with ⟨legal, items, leads, tells⟩
  refine ⟨?_, .startTag { name, attributes } :: (items ++ [.endTag name]), ?_, tells.element distinct⟩
  · refine fun character => isChar_of_mem_append (fun other =>
      isChar_of_mem_append (isChar_of_mem_tag named adds marks.2) legal) ?_
    exact fun other => isChar_of_mem_append (fun another =>
      isChar_of_mem_append marks.1 (isChar_of_mem_name named)) marks.2
  · have opens := read_wholeTag named adds fun _ inTag => read_tagEnd inTag
    simpa using read_between (read_between opens leads) (read_endTag named)

end XmlStream.Reading
