import XmlStream.Call
import XmlStream.Wrap.FileTree
import XmlStream.Wrap.Options

namespace XmlStream.Wrap

/-! The document that files are wrapped in: a root element with one element for
each file, which has its name and size as attributes and its bytes as content. -/

inductive WrapError
  | unknownEncoding (label : String)
  | cannotCreate (path : String) (cause : FileError)
  | cannotOpen (path : String) (cause : FileError)
  | cannotRead (path : String) (cause : FileError)
  | writing (error : WriterError)
deriving DecidableEq, Repr

namespace WrapError

def message : WrapError → String
  | .unknownEncoding label => s!"unknown encoding '{label}'"
  | .cannotCreate path _ => s!"failed to create {path}"
  | .cannotOpen path _ => s!"failed to open {path}"
  | .cannotRead path _ => s!"failed to read {path}"
  | .writing error => error.message

def cause? : WrapError → Option String
  | .unknownEncoding _ => none
  | .cannotCreate _ cause | .cannotOpen _ cause | .cannotRead _ cause => some cause.message
  | .writing error => error.cause?.map SinkError.message

/-- What is shown to the user: the error, and below it what caused it. -/
def display (error : WrapError) : String :=
  let cause := (error.cause?.map fun cause => "\n\nCaused by:\n    " ++ cause).getD ""
  "Error: " ++ error.message ++ cause ++ "\n"

end WrapError

abbrev Action := EStateM WrapError Writer

def call (request : Call) : Action Unit := fun writer =>
  match Writer.call request writer with
  | .ok _ after => .ok () after
  | .error error after => .error (.writing error) after

/-- The files, and the one among them that the document is written to. -/
structure Sources where
  files : FileTree
  target : Option Location := none

namespace Sources

/-- The files as they are when so many bytes of the document have left the
writer. -/
def during (sources : Sources) (writer : Writer) : FileTree :=
  match sources.target with
  | none => sources.files
  | some location => sources.files.put location writer.output.sink.received

end Sources

def generatorNote : String := " generated by xmltw 0.1.0 "

def chunkSize : Nat := 3 * 4096

def chunks (bytes : ByteArray) : List ByteArray :=
  (List.range ((bytes.size + chunkSize - 1) / chunkSize)).map fun index =>
    bytes.extract (index * chunkSize) ((index + 1) * chunkSize)

def plainAttribute (name value : String) : Action Unit :=
  call (.attributeString { localName := name } value)

def Options.elementNamed (options : Options) (name : String) : NameRequest :=
  { nsPrefix := options.nsPrefix, localName := name, uri := options.uri }

def Options.payload (options : Options) (chunk : ByteArray) : Call :=
  if options.hexadecimal then .hexadecimal chunk.data.toList
  else .base64 chunk.data.toList

/-- Wrap one file. That it is a directory shows only when its content is to be read, behind its
attributes. -/
def wrapFile (options : Options) (sources : Sources) (path : String) : Action Unit := do
  match (sources.during (← get)).opened path with
  | .error cause => throw (.cannotOpen path cause)
  | .ok opened =>
    call (.startElement (options.elementNamed "file"))
    plainAttribute "name" ((lastName? path).getD path)
    plainAttribute "size" (toString opened.size)
    plainAttribute "encoding" (if options.hexadecimal then "hex" else "base64")
    match opened.read with
    | .error cause => throw (.cannotRead path cause)
    | .ok content =>
      (chunks content).forM fun chunk => call (options.payload chunk)
      call .fullEndElement

def wrapFiles (options : Options) (sources : Sources) : Action Unit := do
  call (.startDocument (if options.standalone then some true else none))
  call (.comment generatorNote)
  call (.startElement (options.elementNamed options.root))
  options.files.forM fun path => wrapFile options sources path
  call .endDocument
  call .close

def Options.settings (options : Options) : Settings where
  formatting := if options.indentation.isSome then .indented else .plain
  indentation := options.indentation.getD 2
  quote := if options.singleQuote then .single else .double

end XmlStream.Wrap
