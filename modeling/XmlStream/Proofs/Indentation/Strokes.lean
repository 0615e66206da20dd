import XmlStream.Call

namespace XmlStream

/-! Where lines are begun. What a writer writes is told apart into strokes as far as lines are
concerned, and a margin follows the strokes: it knows which elements are open, and in which of
them text stands. -/

/-- A part of what a writer writes. -/
inductive Stroke
  /-- A change of how many characters each level is indented by. -/
  | width (width : Width)
  | indentChar (character : Char)
  /-- What has to be completed before something else: a payload, a value, or a start tag. -/
  | closing (text : String)
  /-- Declarations, attributes and values, and what is no content of an element. -/
  | inline (text : String)
  /-- Text with which something stands in the content of the innermost element. -/
  | data (text : String)
  /-- A document type, a comment, or a processing instruction, behind its first character. -/
  | markup (text : String)
  /-- The begin of a start tag, with its name. -/
  | startTag (name : String)
  | endTag (name : String)
  /-- The end of a start tag that is the whole element. -/
  | emptyTag (text : String)
  /-- A start tag that is refused when there is room for it already. -/
  | lostTag
  /-- What has been written by a call that is refused. -/
  | torn (text : String)
  /-- The end of a document or fragment. -/
  | fresh
deriving DecidableEq, Repr

namespace Stroke

def text : Stroke → String
  | width _ | indentChar _ | lostTag | fresh => ""
  | closing text | inline text | data text | torn text => text
  | markup text | startTag text => "<" ++ text
  | endTag name => "</" ++ name ++ ">"
  | emptyTag text => text ++ " />"

def texts : List Stroke → String
  | [] => ""
  | stroke :: rest => stroke.text ++ texts rest

@[simp] theorem texts_nil : texts [] = "" := rfl

@[simp] theorem texts_cons (stroke : Stroke) (rest : List Stroke) :
    texts (stroke :: rest) = stroke.text ++ texts rest := rfl

@[simp] theorem texts_append (strokes more : List Stroke) :
    texts (strokes ++ more) = texts strokes ++ texts more := by
  induction strokes with
  | nil => simp
  | cons stroke rest induction => simp [induction, String.append_assoc]

end Stroke

/-- What has to be known of the strokes so far to indent the next ones. -/
structure Margin where
  width : Width
  indentChar : Char
  /-- Whether anything has been drawn since the start of the document or fragment. -/
  begun : Bool := false
  /-- For every open element, innermost first, whether text stands in it, or stood around it when
  it was opened. -/
  mixed : List Bool := []
  /-- Whether text stands outside of all elements. -/
  outside : Bool := false
deriving DecidableEq, Repr

namespace Margin

def line (margin : Margin) (level : Nat) : String :=
  String.ofList ('\n' :: List.replicate (margin.width.times level) margin.indentChar)

/-- The level on which a stroke stands, if it is one that a line is begun for. The end tag of an
element stands on the level of its start tag. -/
def level? (margin : Margin) : Stroke → Option Nat
  | .markup _ | .startTag _ | .lostTag => some margin.mixed.length
  | .endTag _ => some (margin.mixed.length - 1)
  | _ => none

/-- Whether a line does no harm: it is not the first thing in the document, and no text stands in
the innermost element. -/
def isFree (margin : Margin) : Bool := margin.begun && !margin.mixed.headD false

def gap (margin : Margin) (level : Nat) : String := if margin.isFree then margin.line level else ""

def lead (margin : Margin) (stroke : Stroke) : String :=
  match margin.level? stroke with
  | some level => margin.gap level
  | none => ""

def mix (margin : Margin) : Margin :=
  match margin.mixed with
  | [] => { margin with outside := true }
  | _ :: rest => { margin with mixed := true :: rest }

def push (margin : Margin) : Margin :=
  { margin with mixed := margin.mixed.headD margin.outside :: margin.mixed }

def pop (margin : Margin) : Margin := { margin with mixed := margin.mixed.tail }

def begin (margin : Margin) : Margin := { margin with begun := true }

def after (margin : Margin) : Stroke → Margin
  | .width width => { margin with width }
  | .indentChar indentChar => { margin with indentChar }
  | .inline _ | .markup _ => margin.begin
  | .data _ => margin.begin.mix
  | .startTag _ => margin.begin.push
  | .endTag _ | .emptyTag _ => margin.begin.pop
  | .closing _ | .lostTag | .torn _ => margin
  | .fresh => { width := margin.width, indentChar := margin.indentChar }

def afterAll (margin : Margin) (strokes : List Stroke) : Margin := strokes.foldl after margin

/-- The text of strokes with the lines that are begun before them. -/
def indented (margin : Margin) : List Stroke → String
  | [] => ""
  | stroke :: rest => margin.lead stroke ++ stroke.text ++ (margin.after stroke).indented rest

@[simp] theorem afterAll_nil (margin : Margin) : margin.afterAll [] = margin := rfl

@[simp] theorem afterAll_cons (margin : Margin) (stroke : Stroke) (rest : List Stroke) :
    margin.afterAll (stroke :: rest) = (margin.after stroke).afterAll rest := rfl

theorem afterAll_append (margin : Margin) (strokes more : List Stroke) :
    margin.afterAll (strokes ++ more) = (margin.afterAll strokes).afterAll more :=
  List.foldl_append

@[simp] theorem indented_nil (margin : Margin) : margin.indented [] = "" := rfl

@[simp] theorem indented_cons (margin : Margin) (stroke : Stroke) (rest : List Stroke) :
    margin.indented (stroke :: rest) =
      margin.lead stroke ++ stroke.text ++ (margin.after stroke).indented rest := rfl

theorem indented_append (margin : Margin) (strokes more : List Stroke) :
    margin.indented (strokes ++ more) =
      margin.indented strokes ++ (margin.afterAll strokes).indented more := by
  induction strokes generalizing margin with
  | nil => simp
  | cons stroke rest induction => simp [induction, String.append_assoc]

section Leads

variable (margin : Margin) (text : String)

@[simp] theorem lead_closing : margin.lead (.closing text) = "" := rfl

@[simp] theorem lead_inline : margin.lead (.inline text) = "" := rfl

@[simp] theorem lead_data : margin.lead (.data text) = "" := rfl

@[simp] theorem lead_emptyTag : margin.lead (.emptyTag text) = "" := rfl

@[simp] theorem lead_torn : margin.lead (.torn text) = "" := rfl

@[simp] theorem lead_fresh : margin.lead .fresh = "" := rfl

end Leads

end Margin

/-! ## The strokes of calls -/

/-- Calls that write into a value or into content, but for sections. -/
inductive Call.Fills : Call → Prop
  | text (text : String) (something : text ≠ "") : Fills (.text text)
  | name (name : String) : Fills (.name name)
  | token (name : String) : Fills (.token name)
  | qualifiedName (localName : String) (uri : Option String) : Fills (.qualifiedName localName uri)
  | whitespace (text : String) : Fills (.whitespace text)
  | raw (text : String) : Fills (.raw text)
  | entity (name : String) : Fills (.entity name)
  | character (code : Nat) : Fills (.character code)
  | surrogates (low high : Nat) : Fills (.surrogates low high)
  | base64 (chunk : List UInt8) : Fills (.base64 chunk)
  | hexadecimal (bytes : List UInt8) : Fills (.hexadecimal bytes)

/-- What is written before markup ends the start tag that is open. -/
def Phase.Closes (phase : Phase) (ends : String) : Prop :=
  phase = .element ∨ phase = .attribute → ∃ text, ends = text ++ ">"

/-- The strokes that end an element. Without content it may end with its start tag. -/
inductive Phase.EndsElement (phase : Phase) (separate : Bool) : List Stroke → Prop
  | empty (text : String) (inTag : phase ≠ .content) (joined : separate = false) :
      EndsElement phase separate [.emptyTag text]
  | separate (ends name : String) (closes : phase.Closes ends)
      (apart : phase = .content ∨ separate = true) :
      EndsElement phase separate [.closing ends, .endTag name]

inductive Phase.EndsElements : Phase → List Stroke → Prop
  | none (phase : Phase) : EndsElements phase []
  | one {phase next : Phase} {strokes rest : List Stroke}
      (ends : phase.EndsElement false strokes) (behind : next = .content ∨ next = .epilog)
      (others : next.EndsElements rest) : EndsElements phase (strokes ++ rest)

/-- The strokes that complete all that is open. What is written before elements end is the rest of
a payload, or of an attribute that belongs to no element. -/
inductive Phase.Completes (phase : Phase) : List Stroke → Prop
  | mk {inner : Phase} (text : String) {strokes : List Stroke} (same : inner = phase ∨ inner = .epilog)
      (ends : inner.EndsElements strokes) : Completes phase (.closing text :: strokes)

/-- The strokes of a call that succeeds, in one phase and leading to another. -/
inductive Call.Draws (before after : Phase) : Call → List Stroke → Prop
  | query (question : Query) : Draws before after (.query question) []
  | setNamespaces (enabled : Bool) : Draws before after (.setNamespaces enabled) []
  | setQuoteChar (character : Char) : Draws before after (.setQuoteChar character) []
  | setIndentation (width : Width) : Draws before after (.setIndentation width) [.width width]
  | setIndentChar (character : Char) :
      Draws before after (.setIndentChar character) [.indentChar character]
  | flush : Draws before after .flush []
  | noText (stays : after = before) : Draws before after (.text "") []
  | startDocument (standalone : Option Bool) (text : String) :
      Draws before after (.startDocument standalone) [.inline text]
  | endDocument {strokes : List Stroke} (completes : before.Completes strokes) :
      Draws before after .endDocument (strokes ++ [.fresh])
  | doctype (name : String) (publicId systemId subset : Option String) (ends rest : String)
      (closes : before.Closes ends) :
      Draws before after (.doctype name publicId systemId subset)
        [.closing ends, .markup ("!DOCTYPE " ++ name ++ rest ++ ">")]
  | comment (text ends : String) (closes : before.Closes ends) :
      Draws before after (.comment text) [.closing ends, .markup ("!--" ++ text ++ "-->")]
  | instruction (target text ends : String) (closes : before.Closes ends) :
      Draws before after (.instruction target text)
        [.closing ends,
          .markup ("?" ++ target ++ (if text = "" then "" else " " ++ text) ++ "?>")]
  | startElement (request : NameRequest) (nsPrefix : Option String) (ends : String)
      (closes : before.Closes ends) (opens : after = .element) :
      Draws before after (.startElement request)
        [.closing ends, .startTag (writtenName nsPrefix request.localName)]
  | endElement {strokes : List Stroke} (ends : before.EndsElement false strokes)
      (behind : after = .content ∨ after = .epilog) : Draws before after .endElement strokes
  | fullEndElement {strokes : List Stroke} (ends : before.EndsElement true strokes)
      (behind : after = .content ∨ after = .epilog) : Draws before after .fullEndElement strokes
  | startAttribute (request : NameRequest) (text : String)
      (opens : after = .attribute ∨ after = .topAttribute) :
      Draws before after (.startAttribute request) [.inline text]
  | endAttribute (text : String) : Draws before after .endAttribute [.inline text]
  | attributeString (request : NameRequest) (value text : String) :
      Draws before after (.attributeString request value) [.inline text]
  | elementString (request : NameRequest) (value : Option String) (nsPrefix : Option String)
      (ends : String) {inner : Phase} {content strokes : List Stroke} (closes : before.Closes ends)
      (holds : value.getD "" = "" ∧ inner = .element ∧ content = [] ∨
        inner = .content ∧ ∃ text, content = [.data text])
      (completes : inner.EndsElement false strokes) :
      Draws before after (.elementString request value)
        ([.closing ends, .startTag (writtenName nsPrefix request.localName)] ++ content ++ strokes)
  | content (call : Call) (text : String) (fills : call.Fills)
      (notValue : before ≠ .attribute ∧ before ≠ .topAttribute) (inContent : after = .content) :
      Draws before after call [.data text]
  | outside (call : Call) (text : String) (fills : call.Fills)
      (notInside : before ≠ .element ∧ before ≠ .content) (notContent : after ≠ .content) :
      Draws before after call [.inline text]
  | cdata (verbatim text : String) : Draws before after (.cdata verbatim) [.data text]
  | close {strokes : List Stroke} (completes : before.Completes strokes) :
      Draws before after .close strokes
  | closeTorn {strokes : List Stroke} (text : String) (completes : before.Completes strokes) :
      Draws before after .close (strokes ++ [.torn text])

inductive Call.Breaks (before : Phase) : Call → List Stroke → Prop
  | torn (call : Call) (text : String) : Breaks before call [.torn text]
  | lost (request : NameRequest) (ends : String) (closes : before.Closes ends) :
      Breaks before (.startElement request) [.closing ends, .lostTag]
  | lostString (request : NameRequest) (value : Option String) (ends : String)
      (closes : before.Closes ends) :
      Breaks before (.elementString request value) [.closing ends, .lostTag]
  | elementString (request : NameRequest) (value : Option String) (nsPrefix : Option String)
      (ends text : String) {content : List Stroke} (closes : before.Closes ends)
      (holds : content = [] ∨ ∃ text, content = [.data text]) :
      Breaks before (.elementString request value)
        ([.closing ends, .startTag (writtenName nsPrefix request.localName)] ++ content ++
          [.torn text])
  | endDocument {strokes : List Stroke} (text : String) (completes : before.Completes strokes) :
      Breaks before .endDocument (strokes ++ [.torn text])

end XmlStream
