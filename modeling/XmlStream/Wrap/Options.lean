import XmlStream.Settings

namespace XmlStream.Wrap

/-! The arguments of the command that wraps files. -/

structure Options where
  files : List String
  root : String := "files"
  uri : Option String := none
  nsPrefix : Option String := none
  /-- How many spaces to indent a level by, if at all. -/
  indentation : Option Width := none
  singleQuote : Bool := false
  /-- Whether content is written in hexadecimal and not in base64. -/
  hexadecimal : Bool := false
  encoding : Option String := none
  standalone : Bool := false
  output : String := "-"
deriving DecidableEq, Repr

inductive Switch
  | singleQuote
  | hexadecimal
  | standalone
deriving DecidableEq, Repr

inductive Parameter
  | root
  | uri
  | nsPrefix
  | indentation
  | encoding
  | output
deriving DecidableEq, Repr

inductive OptionKind
  | switch (switch : Switch)
  | parameter (parameter : Parameter)
  | version
  | help
deriving DecidableEq, Repr

def OptionKind.ofLong? : String → Option OptionKind
  | "root" => some (.parameter .root)
  | "namespace" => some (.parameter .uri)
  | "prefix" => some (.parameter .nsPrefix)
  | "indent" => some (.parameter .indentation)
  | "encoding" => some (.parameter .encoding)
  | "output" => some (.parameter .output)
  | "single-quote" => some (.switch .singleQuote)
  | "binhex" => some (.switch .hexadecimal)
  | "standalone" => some (.switch .standalone)
  | "version" => some .version
  | "help" => some .help
  | _ => none

def OptionKind.ofLetter? : Char → Option OptionKind
  | 'o' => some (.parameter .output)
  | 'V' => some .version
  | 'h' => some .help
  | _ => none

inductive UsageError
  | unknown (argument : String)
  | repeated (argument : String)
  | missingValue (argument : String)
  | needlessValue (argument : String)
  | badNumber (value : String)
  | noFile
  | prefixAlone
deriving DecidableEq, Repr

def UsageError.message : UsageError → String
  | .unknown argument => s!"unexpected argument '{argument}' found"
  | .repeated argument => s!"the argument '{argument}' cannot be used multiple times"
  | .missingValue argument => s!"a value is required for '{argument}' but none was supplied"
  | .needlessValue argument => s!"unexpected value for '{argument}' found; no more were expected"
  | .badNumber value => s!"invalid value '{value}' for '--indent <N>'"
  | .noFile => "the following required arguments were not provided:\n  <FILES>..."
  | .prefixAlone =>
    "the following required arguments were not provided:\n  --namespace <URI>"

inductive Request
  | wrap (options : Options)
  | version
  | help
deriving DecidableEq, Repr

structure WrittenOption where
  kind : OptionKind
  value : Option String := none
deriving DecidableEq, Repr

/-- An argument that begins with a hyphen is an option, unless it is nothing but a
hyphen. -/
def looksLikeOption (argument : String) : Bool :=
  argument.toList.head? == some '-' && argument ≠ "-"

/-- A long option. A value can follow an equals sign. -/
def longOption? (text : List Char) : Option WrittenOption := do
  let name := text.takeWhile (· ≠ '=')
  let kind ← OptionKind.ofLong? (String.ofList name)
  match text.drop name.length with
  | [] => return { kind }
  | _ :: value => return { kind, value := some (String.ofList value) }

/-- An option by its letter. The value of a parameter can follow at once, or after
an equals sign; what follows another option is not looked at, since the command
ends with it. -/
def shortOption? : List Char → Option WrittenOption
  | [] => none
  | letter :: rest => do
    let kind ← OptionKind.ofLetter? letter
    match kind, rest with
    | .parameter _, '=' :: value => return { kind, value := some (String.ofList value) }
    | .parameter _, first :: value =>
      return { kind, value := some (String.ofList (first :: value)) }
    | _, _ => return { kind }

def writtenOption? (argument : String) : Option WrittenOption :=
  match argument.toList with
  | '-' :: '-' :: text => longOption? text
  | '-' :: text => shortOption? text
  | _ => none

/-- A number in decimal digits, which a plus sign may precede. -/
def number? (text : String) : Option Width :=
  let digits := match text.toList with
    | '+' :: digits => digits
    | digits => digits
  let value := digits.foldl (fun value digit => value * 10 + (digit.toNat - '0'.toNat)) 0
  if !digits.isEmpty && digits.all Char.isDigit then Width.ofNat? value else none

structure Reading where
  files : List String := []
  switches : List Switch := []
  values : List (Parameter × String) := []

namespace Reading

def value? (reading : Reading) (parameter : Parameter) : Option String :=
  reading.values.lookup parameter

/-- Take note of a parameter. Each one can be given once. -/
def setValue (reading : Reading) (argument : String) (parameter : Parameter)
    (value : String) : Except UsageError Reading :=
  if (reading.value? parameter).isSome then .error (.repeated argument)
  else if parameter = .indentation ∧ number? value = none then .error (.badNumber value)
  else .ok { reading with values := (parameter, value) :: reading.values }

def setSwitch (reading : Reading) (argument : String) (switch : Switch) :
    Except UsageError Reading :=
  if reading.switches.contains switch then .error (.repeated argument)
  else .ok { reading with switches := switch :: reading.switches }

def finish (reading : Reading) : Except UsageError Request :=
  if reading.files.isEmpty then .error .noFile
  else if (reading.value? .nsPrefix).isSome && (reading.value? .uri).isNone then
    .error .prefixAlone
  else
    .ok <| .wrap {
      files := reading.files
      root := (reading.value? .root).getD "files"
      uri := reading.value? .uri
      nsPrefix := reading.value? .nsPrefix
      indentation := (reading.value? .indentation).bind number?
      singleQuote := reading.switches.contains .singleQuote
      hexadecimal := reading.switches.contains .hexadecimal
      encoding := reading.value? .encoding
      standalone := reading.switches.contains .standalone
      output := (reading.value? .output).getD "-" }

/-- Read the remaining arguments. After two hyphens all of them are files. -/
def readAll (reading : Reading) : List String → Except UsageError Request
  | [] => reading.finish
  | "--" :: rest => { reading with files := reading.files ++ rest }.finish
  | argument :: rest =>
    if !looksLikeOption argument then
      { reading with files := reading.files ++ [argument] }.readAll rest
    else
      match writtenOption? argument with
      | none => .error (.unknown argument)
      | some { kind := .version, value := none } => .ok .version
      | some { kind := .help, value := none } => .ok .help
      | some { kind := .switch switch, value := none } => do
        (← reading.setSwitch argument switch).readAll rest
      | some { kind := .parameter parameter, value := some value } => do
        (← reading.setValue argument parameter value).readAll rest
      | some { kind := .parameter parameter, value := none } =>
        match rest with
        | value :: rest =>
          if looksLikeOption value then .error (.missingValue argument)
          else do (← reading.setValue argument parameter value).readAll rest
        | [] => .error (.missingValue argument)
      | some _ => .error (.needlessValue argument)

end Reading

def Request.ofArguments (arguments : List String) : Except UsageError Request :=
  ({} : Reading).readAll arguments

end XmlStream.Wrap
