namespace XmlStream

/-! Phases of a document that is being written, and the tokens that lead from one
phase to another. -/

inductive Phase
  | start
  | prolog
  | afterDoctype
  /-- In a start tag, between attributes. -/
  | element
  | attribute
  /-- In the content of an element, or in text that stands in none. -/
  | content
  /-- In the value of an attribute that belongs to no element. -/
  | topAttribute
  /-- After the root element, or after an attribute that belongs to no element. -/
  | epilog
  | failed
  | closed
deriving DecidableEq, Repr

namespace Phase

def name : Phase → String
  | .start => "Start"
  | .prolog => "Prolog"
  | .afterDoctype => "PostDtd"
  | .element => "Element"
  | .attribute => "Attribute"
  | .content => "Content"
  | .topAttribute => "AttrOnly"
  | .epilog => "Epilog"
  | .failed => "Error"
  | .closed => "Closed"

end Phase

inductive Progress
  | start
  | prolog
  | element
  | attribute
  | content
  | failed
  | closed
deriving DecidableEq, Repr

def Phase.progress : Phase → Progress
  | .start => .start
  | .prolog | .afterDoctype => .prolog
  | .element => .element
  | .attribute | .topAttribute => .attribute
  | .content | .epilog => .content
  | .failed => .failed
  | .closed => .closed

inductive Token
  | processingInstruction
  | doctype
  | comment
  | cdata
  | startElement
  | endElement
  | separateEnd
  | startAttribute
  | endAttribute
  | text
  | base64
  | raw
  | whitespace
deriving DecidableEq, Repr

namespace Token

def name : Token → String
  | .processingInstruction => "ProcessingInstruction"
  | .doctype => "Doctype"
  | .comment => "Comment"
  | .cdata => "CData"
  | .startElement => "StartElement"
  | .endElement => "EndElement"
  | .separateEnd => "LongEndElement"
  | .startAttribute => "StartAttribute"
  | .endAttribute => "EndAttribute"
  | .text => "Content"
  | .base64 => "Base64"
  | .raw => "RawData"
  | .whitespace => "Whitespace"

/-- Where a construct leads that may stand between all others: it keeps the phase
outside elements and goes on with the content inside of them. -/
private def afterMarkup : Phase → Option Phase
  | .start | .prolog => some .prolog
  | .afterDoctype => some .afterDoctype
  | .element | .attribute | .content => some .content
  | .epilog => some .epilog
  | .topAttribute | .failed | .closed => none

/-- Where text leads: in a value it stays in the value, after a root it stays
there, and anywhere else it is content. -/
private def afterText : Phase → Option Phase
  | .start | .prolog | .element | .content => some .content
  | .attribute => some .attribute
  | .topAttribute => some .topAttribute
  | .epilog => some .epilog
  | .afterDoctype | .failed | .closed => none

/-- The phase after a token, or nothing if the token cannot stand there in any
fragment. -/
def next? : Token → Phase → Option Phase
  | .processingInstruction, phase | .comment, phase => afterMarkup phase
  | .doctype, .start | .doctype, .prolog => some .afterDoctype
  | .cdata, .attribute => some .content
  | .cdata, .topAttribute => none
  | .cdata, phase => afterText phase
  | .startElement, .topAttribute | .startElement, .failed | .startElement, .closed => none
  | .startElement, _ => some .element
  | .endElement, .element | .endElement, .attribute | .endElement, .content
  | .separateEnd, .element | .separateEnd, .attribute | .separateEnd, .content => some .content
  | .startAttribute, .start => some .topAttribute
  | .startAttribute, .element | .startAttribute, .attribute => some .attribute
  | .endAttribute, .attribute => some .element
  | .endAttribute, .topAttribute => some .epilog
  | .text, phase | .base64, phase => afterText phase
  | .raw, .attribute | .whitespace, .attribute => some .attribute
  | .raw, .topAttribute | .whitespace, .topAttribute => some .topAttribute
  | .raw, phase | .whitespace, phase => afterMarkup phase
  | _, _ => none

end Token

inductive Mode
  | fragment
  | document
deriving DecidableEq, Repr

namespace Mode

/-- Whether a mode leaves room for a token. A document has its declaration
already, has no attribute outside elements, one root element only, and no text
outside of it. -/
def permits : Mode → Token → Phase → Bool
  | .fragment, _, _ => true
  | .document, _, .start | .document, _, .topAttribute => false
  | .document, .startElement, .epilog => false
  | .document, .cdata, phase | .document, .text, phase | .document, .base64, phase =>
    phase ≠ .prolog && phase ≠ .epilog
  | .document, _, _ => true

def next? (mode : Mode) (token : Token) (phase : Phase) : Option Phase :=
  if mode.permits token phase then token.next? phase else none

example : Mode.fragment.next? .startElement .epilog = some .element := rfl

example : Mode.document.next? .startElement .epilog = none := rfl

example : Mode.fragment.next? .doctype .element = none := rfl

end Mode

end XmlStream
