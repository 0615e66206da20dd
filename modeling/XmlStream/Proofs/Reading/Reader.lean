import XmlStream.Name
import XmlStream.Proofs.Text.References

namespace XmlStream.Reading

/-! A reader of XML. It takes one character after the other, knows at which place of the
markup it stands, and tells item by item what it has read: tags with their attributes, text,
sections, comments, instructions and document types. It does not ask which characters XML
allows, nor whether tags match: that is left to those who look at the items. -/

/-- A part of text: a character, however it is written, or a reference to an entity. -/
inductive Part
  | character (character : Char)
  | entity (name : List Char)
deriving DecidableEq, Repr

structure StartTag where
  name : List Char
  attributes : List (List Char × List Part) := []
deriving DecidableEq, Repr

def StartTag.add (tag : StartTag) (name : List Char) (value : List Part) : StartTag :=
  { tag with attributes := tag.attributes ++ [(name, value)] }

inductive Item
  | startTag (tag : StartTag)
  | emptyTag (tag : StartTag)
  | endTag (name : List Char)
  | text (part : Part)
  | cdata (text : List Char)
  | comment (text : List Char)
  | instruction (target data : List Char)
  | doctype (declaration : List Char)
deriving DecidableEq, Repr

/-- Where text may stand: between tags, or in the value of an attribute of a tag. -/
inductive Host
  | content
  | value (tag : StartTag) (name : List Char) (quote : Quote) (parts : List Part)
deriving DecidableEq, Repr

/-- The constructs that are read up to a mark at their end. -/
inductive Verbatim
  | comment
  | cdata
  | instruction
deriving DecidableEq, Repr

/-- The regions of a document type. In a literal, and in a comment or an instruction of the
internal subset, characters do not mean anything else. -/
inductive Region
  | outside
  | literal (quote : Quote)
  /-- In the internal subset, with what has been seen of it. -/
  | subset (seen : List Char)
  | subsetLiteral (quote : Quote)
  | skipped (kind : Verbatim) (seen : List Char)
  /-- Behind the document type. -/
  | ended
deriving DecidableEq, Repr

/-- The places of the markup at which a reader can stand. -/
inductive Place
  | text (host : Host)
  | reference (host : Host) (spelled : List Char)
  /-- After `<`, with what has been seen of the beginning of the markup. -/
  | markup (seen : List Char)
  | verbatim (kind : Verbatim) (seen : List Char)
  | doctype (region : Region) (seen : List Char)
  | tagName (name : List Char)
  /-- In a start tag, between attributes. They have to be set off by white space. -/
  | tag (tag : StartTag) (apart : Bool)
  | attributeName (tag : StartTag) (name : List Char) (ended : Bool)
  | equals (tag : StartTag) (name : List Char)
  | slash (tag : StartTag)
  | endTag (name : List Char) (ended : Bool)
  | broken
deriving DecidableEq, Repr

/-! ## Text -/

/-- Add a part of text. Between tags it is told at once. -/
def Host.take (part : Part) : Host → Place × List Item
  | .content => (.text .content, [.text part])
  | .value tag name quote parts => (.text (.value tag name quote (parts ++ [part])), [])

def Host.quote? : Host → Option Quote
  | .content => none
  | .value _ _ quote _ => some quote

def Host.close : Host → Place
  | .content => .text .content
  | .value tag name _ parts => .tag (tag.add name parts) false

def character? (number : Nat) : Option Part :=
  if number.isValidChar then some (.character (Char.ofNat number)) else none

/-- What a reference stands for, by what is spelled between `&` and `;`. -/
def resolve? (spelled : List Char) : Option Part :=
  match spelled with
  | '#' :: 'x' :: digits => (number? 16 digits).bind character?
  | '#' :: digits => (number? 10 digits).bind character?
  | name =>
    match predefined? name with
    | some character => some (.character character)
    | none => if Name.isName (String.ofList name) then some (.entity name) else none

def advanceText (host : Host) (character : Char) : Place × List Item :=
  if character = '&' then (.reference host [], [])
  else if character = '<' then
    if host = .content then (.markup [], []) else (.broken, [])
  else if host.quote?.map Quote.char = some character then (host.close, [])
  else host.take (.character character)

def advanceReference (host : Host) (spelled : List Char) (character : Char) :
    Place × List Item :=
  if character = ';' then
    match resolve? spelled with
    | some part => host.take part
    | none => (.broken, [])
  else (.reference host (spelled ++ [character]), [])

/-! ## Markup -/

/-- What may follow `<`, apart from a name, and where it leads. -/
def openings : List (List Char × Place) :=
  [("/".toList, .endTag [] false), ("?".toList, .verbatim .instruction []),
    ("!--".toList, .verbatim .comment []), ("![CDATA[".toList, .verbatim .cdata []),
    ("!DOCTYPE".toList, .doctype .outside [])]

def advanceMarkup (seen : List Char) (character : Char) : Place × List Item :=
  let longer := seen ++ [character]
  match openings.lookup longer with
  | some place => (place, [])
  | none =>
    if openings.any fun opening => longer.isPrefixOf opening.1 then (.markup longer, [])
    else if seen = [] ∧ CharacterClass.nameStart.hasChar character then
      (.tagName [character], [])
    else (.broken, [])

def Verbatim.terminator : Verbatim → List Char
  | .comment => "-->".toList
  | .cdata => "]]>".toList
  | .instruction => "?>".toList

/-- The construct with the text up to its end. An instruction is a target, and its data behind
white space. -/
def Verbatim.item (text : List Char) : Verbatim → Item
  | .comment => .comment text
  | .cdata => .cdata text
  | .instruction =>
    let target := text.takeWhile (!CharacterClass.blank.hasChar ·)
    .instruction target ((text.drop target.length).dropWhile CharacterClass.blank.hasChar)

def advanceVerbatim (kind : Verbatim) (seen : List Char) (character : Char) :
    Place × List Item :=
  let longer := seen ++ [character]
  if kind.terminator.isSuffixOf longer then
    (.text .content, [kind.item (longer.take (longer.length - kind.terminator.length))])
  else (.verbatim kind longer, [])

/-! ## Document types -/

def Region.advance (region : Region) (character : Char) : Region :=
  match region with
  | .outside =>
    if character = '>' then .ended
    else if character = '[' then .subset []
    else match Quote.ofChar? character with
      | some quote => .literal quote
      | none => .outside
  | .literal quote => if character = quote.char then .outside else .literal quote
  | .subset seen =>
    let longer := seen ++ [character]
    if character = ']' then .outside
    else if "<!--".toList.isSuffixOf longer then .skipped .comment []
    else if "<?".toList.isSuffixOf longer then .skipped .instruction []
    else match Quote.ofChar? character with
      | some quote => .subsetLiteral quote
      | none => .subset longer
  | .subsetLiteral quote => if character = quote.char then .subset [] else .subsetLiteral quote
  | .skipped kind seen =>
    let longer := seen ++ [character]
    if kind.terminator.isSuffixOf longer then .subset [] else .skipped kind longer
  | .ended => .ended

def advanceDoctype (region : Region) (seen : List Char) (character : Char) :
    Place × List Item :=
  if region.advance character = .ended then (.text .content, [.doctype seen])
  else (.doctype (region.advance character) (seen ++ [character]), [])

/-- A text that may stand in the brackets of a document type: it ends where it began, between
declarations. -/
def Enclosed (text : List Char) : Prop :=
  ∃ seen, text.foldl Region.advance (.subset []) = .subset seen

/-! ## Tags -/

def advanceTag (tag : StartTag) (apart : Bool) (character : Char) : Place × List Item :=
  if CharacterClass.blank.hasChar character then (.tag tag true, [])
  else if character = '>' then (.text .content, [.startTag tag])
  else if character = '/' then (.slash tag, [])
  else if apart ∧ CharacterClass.nameStart.hasChar character then
    (.attributeName tag [character] false, [])
  else (.broken, [])

/-- Read a character of the name of an element, or one behind it. -/
def advanceTagName (name : List Char) (character : Char) : Place × List Item :=
  if CharacterClass.namePart.hasChar character then (.tagName (name ++ [character]), [])
  else advanceTag { name } false character

def advanceAttributeName (tag : StartTag) (name : List Char) (ended : Bool) (character : Char) :
    Place × List Item :=
  if !ended ∧ CharacterClass.namePart.hasChar character then
    (.attributeName tag (name ++ [character]) false, [])
  else if CharacterClass.blank.hasChar character then (.attributeName tag name true, [])
  else if character = '=' then (.equals tag name, [])
  else (.broken, [])

def advanceEquals (tag : StartTag) (name : List Char) (character : Char) : Place × List Item :=
  match Quote.ofChar? character with
  | some quote => (.text (.value tag name quote []), [])
  | none =>
    if CharacterClass.blank.hasChar character then (.equals tag name, []) else (.broken, [])

def advanceSlash (tag : StartTag) (character : Char) : Place × List Item :=
  if character = '>' then (.text .content, [.emptyTag tag]) else (.broken, [])

def continues (name : List Char) (character : Char) : Bool :=
  if name = [] then CharacterClass.nameStart.hasChar character
  else CharacterClass.namePart.hasChar character

def advanceEndTag (name : List Char) (ended : Bool) (character : Char) : Place × List Item :=
  if !ended ∧ continues name character then (.endTag (name ++ [character]) false, [])
  else if name = [] then (.broken, [])
  else if character = '>' then (.text .content, [.endTag name])
  else if CharacterClass.blank.hasChar character then (.endTag name true, [])
  else (.broken, [])

/-! ## Reading -/

/-- Read a character: the place behind it, and what is complete by then. -/
def advance : Place → Char → Place × List Item
  | .text host, character => advanceText host character
  | .reference host spelled, character => advanceReference host spelled character
  | .markup seen, character => advanceMarkup seen character
  | .verbatim kind seen, character => advanceVerbatim kind seen character
  | .doctype region seen, character => advanceDoctype region seen character
  | .tagName name, character => advanceTagName name character
  | .tag tag apart, character => advanceTag tag apart character
  | .attributeName tag name ended, character => advanceAttributeName tag name ended character
  | .equals tag name, character => advanceEquals tag name character
  | .slash tag, character => advanceSlash tag character
  | .endTag name ended, character => advanceEndTag name ended character
  | .broken, _ => (.broken, [])

def read (place : Place) : List Char → Place × List Item
  | [] => (place, [])
  | character :: rest =>
    let first := advance place character
    let later := read first.1 rest
    (later.1, first.2 ++ later.2)

/-- A character and a reference to it are told alike, and white space in tags is not told. -/
example : read (.text .content) "<a b='&#x3042;' >あ&#12354;</a>".toList =
    (.text .content, [.startTag ⟨['a'], [(['b'], [.character 'あ'])]⟩,
      .text (.character 'あ'), .text (.character 'あ'), .endTag ['a']]) := by
  decide +kernel

/-- The number of a surrogate stands for no character. -/
example : read (.text .content) "<!--&#12354;--><?t d?>&e;&#xD800;".toList =
    (.broken, [.comment "&#12354;".toList, .instruction ['t'] ['d'], .text (.entity ['e'])]) := by
  decide +kernel

theorem read_nil (place : Place) : read place [] = (place, []) := rfl

theorem read_cons (place : Place) (character : Char) (rest : List Char) :
    read place (character :: rest) =
      ((read (advance place character).1 rest).1,
        (advance place character).2 ++ (read (advance place character).1 rest).2) := rfl

theorem read_single (place : Place) (character : Char) :
    read place [character] = advance place character := by
  rw [read_cons, read_nil, List.append_nil]

theorem read_append (place : Place) (text more : List Char) :
    read place (text ++ more) =
      ((read (read place text).1 more).1,
        (read place text).2 ++ (read (read place text).1 more).2) := by
  induction text generalizing place with
  | nil => rfl
  | cons character rest induction =>
      rw [List.cons_append, read_cons, induction, read_cons, List.append_assoc]

end XmlStream.Reading
