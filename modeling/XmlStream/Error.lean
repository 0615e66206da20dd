import XmlStream.Phase
import XmlStream.Output.Sink

namespace XmlStream

/-! The reasons for which a call on a writer is refused. -/

/-- The constructs whose content is written as it is, and must therefore not
contain what ends them. -/
inductive VerbatimKind
  | comment
  | cdata
  | processingInstruction
deriving DecidableEq, Repr

def VerbatimKind.name : VerbatimKind → String
  | .comment => "comment"
  | .cdata => "CDATA section"
  | .processingInstruction => "processing instruction"

inductive WriterError
  | misplaced (token : Token) (phase : Phase)
  | undeclaredPrefix (nsPrefix : String)
  | undeclaredNamespace (uri : String)
  | reserved (nsPrefix uri : String)
  | conflict (nsPrefix uri : String)
  | emptyNamespace (nsPrefix : String)
  | namespacesDisabled
  | invalidName (name : String)
  | invalidContent (kind : VerbatimKind)
  | invalidWhitespace
  | invalidSpaceValue (value : String)
  | invalidCharacter (code : Nat)
  | unquotable (literal : String)
  | duplicateDeclaration
  | closed
  | noOpenElement
  | incomplete
  | invalidQuote (character : Char)
  | locked
  | sink (cause : SinkError)
deriving DecidableEq, Repr

namespace WriterError

/-- A code point in the notation that pads it to four hexadecimal digits. -/
def codeNotation (code : Nat) : String :=
  let digits := (Nat.toDigits 16 code).map Char.toUpper
  "U+" ++ String.ofList (List.replicate (4 - digits.length) '0' ++ digits)

def message : WriterError → String
  | .misplaced token phase =>
    s!"Token {token.name} in state {phase.name} would result in an invalid XML document"
  | .undeclaredPrefix nsPrefix => s!"An undefined prefix is in use: '{nsPrefix}'"
  | .undeclaredNamespace uri => s!"The namespace '{uri}' is not defined"
  | .reserved nsPrefix uri =>
    s!"The prefix '{nsPrefix}' cannot be bound to the namespace '{uri}'"
  | .conflict "" uri =>
    s!"The default namespace cannot be redefined to '{uri}' within the same start element tag"
  | .conflict nsPrefix uri =>
    s!"The prefix '{nsPrefix}' cannot be redefined to '{uri}' within the same start element tag"
  | .emptyNamespace nsPrefix => s!"Cannot use a prefix '{nsPrefix}' with an empty namespace"
  | .namespacesDisabled => "Cannot set the namespace if Namespaces is 'false'"
  | .invalidName name => s!"Invalid name character in '{name}'"
  | .invalidContent kind => s!"Invalid {kind.name} content"
  | .invalidWhitespace => "Only white space characters should be used"
  | .invalidSpaceValue value => s!"'{value}' is an invalid xml:space value"
  | .invalidCharacter code => s!"Invalid character {codeNotation code}"
  | .unquotable literal => s!"The literal '{literal}' contains both kinds of quotes"
  | .duplicateDeclaration =>
    "The XML declaration can only be written once at the start of a document"
  | .closed => "The writer is closed"
  | .noOpenElement => "There was no XML start tag open"
  | .incomplete => "The document is not complete"
  | .invalidQuote character =>
    s!"Invalid quote character '{character}', only '\"' and '\\'' are allowed"
  | .locked => "The setting cannot be changed once writing has started"
  | .sink cause => s!"I/O error: {cause.message}"

def cause? : WriterError → Option SinkError
  | .sink cause => some cause
  | _ => none

example : message (.invalidCharacter 0xB) = "Invalid character U+000B" := by decide +kernel

end WriterError

end XmlStream
