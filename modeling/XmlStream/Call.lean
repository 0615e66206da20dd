import XmlStream.Writer.Document

namespace XmlStream

/-! The calls that can be made on a writer. A run of a writer is a list of calls,
and each call gets an answer or is refused. -/

inductive Query
  | settings
  | space
  | language
  | lookupPrefix (uri : String)
deriving DecidableEq, Repr

inductive Call
  | query (question : Query)
  | setNamespaces (enabled : Bool)
  | setFormatting (formatting : Formatting)
  | setIndentation (width : Width)
  | setIndentChar (character : Char)
  | setQuoteChar (character : Char)
  | startDocument (standalone : Option Bool)
  | endDocument
  | doctype (name : String) (publicId systemId subset : Option String)
  | startElement (request : NameRequest)
  | endElement
  | fullEndElement
  | startAttribute (request : NameRequest)
  | endAttribute
  | attributeString (request : NameRequest) (value : String)
  | elementString (request : NameRequest) (value : Option String)
  | cdata (text : String)
  | comment (text : String)
  | instruction (target text : String)
  | entity (name : String)
  | character (code : Nat)
  | surrogates (low high : Nat)
  | whitespace (text : String)
  | text (text : String)
  | raw (text : String)
  | base64 (chunk : List UInt8)
  | hexadecimal (bytes : List UInt8)
  | name (name : String)
  | token (name : String)
  | qualifiedName (localName : String) (uri : Option String)
  | flush
  | close
deriving DecidableEq, Repr

inductive Answer
  | done
  | settings (settings : Settings)
  | space (space : SpaceHandling)
  | language (language : Option String)
  | nsPrefix (nsPrefix : Option String)
deriving DecidableEq, Repr

namespace Writer

def create (output : OutputBuffer) (settings : Settings := {}) : Writer :=
  { output, settings }

def answer (writer : Writer) : Query → Answer
  | .settings => .settings writer.settings
  | .space => .space writer.elements.space
  | .language => .language writer.elements.language
  | .lookupPrefix uri => .nsPrefix (writer.lookupPrefix uri)

/-- Turn namespace support on or off, which is possible at the start only. -/
def setNamespaces (enabled : Bool) : Action Unit := do
  let writer ← get
  if writer.phase ≠ .start then throw .locked
  set { writer with settings.namespaces := enabled }

def quoteFor (character : Char) : Except WriterError Quote :=
  match Quote.ofChar? character with
  | some quote => .ok quote
  | none => .error (.invalidQuote character)

/-- Choose the quote, which is not possible within a quoted value. -/
def setQuoteChar (character : Char) : Action Unit := do
  match quoteFor character with
  | .error error => throw error
  | .ok quote =>
    let writer ← get
    if writer.phase = .attribute || writer.phase = .topAttribute then throw .locked
    set { writer with settings.quote := quote }

/-- Carry out a call that answers nothing. Failing to change a setting does no
harm to the writer. -/
def perform : Call → Action Unit
  | .query _ => return
  | .setNamespaces enabled => setNamespaces enabled
  | .setFormatting formatting =>
    modify fun writer => { writer with settings.formatting := formatting }
  | .setIndentation width =>
    modify fun writer => { writer with settings.indentation := width }
  | .setIndentChar character =>
    modify fun writer => { writer with settings.indentChar := character }
  | .setQuoteChar character => setQuoteChar character
  | .startDocument standalone => guarded (beginDocument standalone)
  | .endDocument => guarded finishDocument
  | .doctype name publicId systemId subset =>
    guarded (putDoctype name publicId systemId subset)
  | .startElement request => guarded (openElement request)
  | .endElement => guarded (closeElement false)
  | .fullEndElement => guarded (closeElement true)
  | .startAttribute request => guarded (openAttribute request)
  | .endAttribute => guarded (advance .endAttribute)
  | .attributeString request value => do
    guarded (openAttribute request)
    guarded (putText value)
    guarded (advance .endAttribute)
  | .elementString request value => do
    guarded (openElement request)
    if let some value := value then guarded (putText value)
    guarded (closeElement false)
  | .cdata text => guarded (putCData text)
  | .comment text => guarded (putComment text)
  | .instruction target text => guarded (putInstruction target text)
  | .entity name => guarded (putEntity name)
  | .character code => guarded (putCharacter code)
  | .surrogates low high => guarded (putSurrogates low high)
  | .whitespace text => guarded (putWhitespace text)
  | .text text => guarded (putText text)
  | .raw text => guarded (putRaw text)
  | .base64 chunk => guarded (putBase64 chunk)
  | .hexadecimal bytes => guarded (putHexadecimal bytes)
  | .name name => guarded (putName name)
  | .token name => guarded (putToken name)
  | .qualifiedName localName uri => guarded (putQualifiedName localName uri)
  | .flush => guarded (onOutput OutputBuffer.flush)
  | .close => shut

def call (request : Call) : Action Answer := do
  match request with
  | .query question => return (← get).answer question
  | request =>
    perform request
    return .done

def step (writer : Writer) (request : Call) : Except WriterError Answer × Writer :=
  match call request writer with
  | .ok answer after => (.ok answer, after)
  | .error error after => (.error error, after)

/-- Make a list of calls, going on after failures. -/
def run (writer : Writer) : List Call → List (Except WriterError Answer) × Writer
  | [] => ([], writer)
  | request :: rest =>
    let (answer, after) := writer.step request
    let (answers, last) := after.run rest
    (answer :: answers, last)

/-- A small document. The end of the element finds text in it, so it becomes an
end tag. -/
example :
    let calls : List Call :=
      [.startElement { localName := "root" }, .attributeString { localName := "id" } "1",
        .text "a < b", .endElement]
    (((create { sink := {} }).run calls).2.release).output.sink.received =
      "<root id=\"1\">a &lt; b</root>".toUTF8 := by decide +kernel

end Writer

end XmlStream
