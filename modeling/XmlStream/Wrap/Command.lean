import XmlStream.Wrap.Document

namespace XmlStream.Wrap

/-! The command `xmlwrap` as a function of its arguments and the files it finds. -/

structure Outcome where
  exitCode : Nat
  stdout : ByteArray := .empty
  stderr : String := ""
  files : FileTree

def versionText : String := "xmlwrap 0.1.0\n"

def usageText : String :=
  "Usage: xmlwrap [OPTIONS] <FILES>...\n" ++
  "\n" ++
  "Wrap files into a single XML document as base64 or hex encoded elements.\n" ++
  "\n" ++
  "Options:\n" ++
  "      --root <ROOT>       local name of the root element [default: files]\n" ++
  "      --namespace <URI>   namespace of every element written\n" ++
  "      --prefix <PREFIX>   prefix bound to the namespace\n" ++
  "      --indent <N>        indent the output with N spaces per level\n" ++
  "      --single-quote      quote attribute values with apostrophes\n" ++
  "      --binhex            encode file contents in hexadecimal\n" ++
  "      --encoding <LABEL>  output encoding\n" ++
  "      --standalone        declare the document to be standalone\n" ++
  "  -o, --output <FILE>     save to a given file [default: -]\n" ++
  "  -h, --help              print help\n" ++
  "  -V, --version           print version\n"

def encoderFor (options : Options) : Except WrapError (Option Encoder) :=
  match options.encoding with
  | none => .ok none
  | some label =>
    match Encoder.ofLabel? label with
    | some encoder => .ok (some encoder)
    | none => .error (.unknownEncoding label)

/-- The place the document is written to. A single hyphen is the standard output. -/
def targetFor (options : Options) (files : FileTree) : Except WrapError (Option Location) :=
  if options.output = "-" then .ok none
  else
    match files.placeFor options.output with
    | .ok location => .ok (some location)
    | .error cause => .error (.cannotCreate options.output cause)

/-- Wrap files with an encoder and a place for the document. The place is emptied
before a file is read. Whatever happens, the writer completes its document. -/
def writeDocument (options : Options) (encoder : Option Encoder) (sources : Sources) :
    Option WrapError × ByteArray :=
  let writer := Writer.create { sink := {}, encoder } options.settings
  let (error, last) := match wrapFiles options sources writer with
    | .ok _ last => (none, last)
    | .error error last => (some error, last)
  (error, last.release.output.sink.received)

def wrap (options : Options) (files : FileTree) : Outcome :=
  let setup := do return (← encoderFor options, ← targetFor options files)
  match setup with
  | .error error => { exitCode := 1, stderr := error.display, files }
  | .ok (encoder, target) =>
    let (error, bytes) := writeDocument options encoder { files, target }
    { exitCode := if error.isSome then 1 else 0
      stdout := if target.isSome then .empty else bytes
      stderr := (error.map WrapError.display).getD ""
      files := (target.map fun location => files.put location bytes).getD files }

def run (arguments : List String) (files : FileTree) : Outcome :=
  match Request.ofArguments arguments with
  | .error error =>
    { exitCode := 2, stderr := "error: " ++ error.message ++ "\n\n" ++ usageText, files }
  | .ok .version => { exitCode := 0, stdout := versionText.toUTF8, files }
  | .ok .help => { exitCode := 0, stdout := usageText.toUTF8, files }
  | .ok (.wrap options) => wrap options files

end XmlStream.Wrap
