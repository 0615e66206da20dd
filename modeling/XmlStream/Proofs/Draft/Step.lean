import XmlStream.Proofs.Draft.Frame

namespace XmlStream

/-! The steps in which a document grows. A call on a writer takes some of them: it
completes what is open, one construct at a time, and adds its own construct. Each
step says what it requires, which text it adds, and what is known afterwards. -/

def TextPosition.escaped (position : TextPosition) (text : String) : String :=
  (position.pieces text).foldr (· ++ ·) ""

inductive Piece
  | text (text : String)
  | entity (name : String)
  | character (character : Char)
  | hexadecimal (bytes : List UInt8)
  | whitespace (text : String)
  | raw (text : String)
deriving DecidableEq, Repr

namespace Piece

def token : Piece → Token
  | .text _ | .entity _ | .character _ | .hexadecimal _ => .text
  | .whitespace _ => .whitespace
  | .raw _ => .raw

def value : Piece → String
  | .text content | .whitespace content | .raw content => content
  | .entity name => entityReference name
  | .character code => String.singleton code
  | .hexadecimal bytes => String.ofList (Hexadecimal.encode bytes)

def written (position : TextPosition) : Piece → String
  | .text content | .whitespace content => position.escaped content
  | .raw content => content
  | .entity name => entityReference name
  | .character code => hexReference code
  | .hexadecimal bytes => String.ofList (Hexadecimal.encode bytes)

end Piece

inductive Setting
  | namespaces (enabled : Bool)
  | formatting (formatting : Formatting)
  | indentation (width : Width)
  | indentChar (character : Char)
  | quote (quote : Quote)
deriving DecidableEq, Repr

def Setting.apply : Setting → Settings → Settings
  | .namespaces enabled, settings => { settings with namespaces := enabled }
  | .formatting chosen, settings => { settings with formatting := chosen }
  | .indentation width, settings => { settings with indentation := width }
  | .indentChar character, settings => { settings with indentChar := character }
  | .quote chosen, settings => { settings with quote := chosen }

/-- What happens to a document. -/
inductive Event
  | xmlDeclaration (encoding : Option String) (standalone : Option Bool)
  | doctype (name : String) (publicId systemId subset : Option String)
  /-- The begin of a new line for what comes next. -/
  | line (beforeEnd : Bool)
  | comment (text : String)
  | instruction (target text : String)
  | cdata (text : String)
  /-- The begin of a start tag, and whether the element owes the declaration of its
  default namespace. -/
  | startElement (asked : AskedName) (owesDefault : Bool)
  /-- The begin of an attribute, and whether the start tag relies on the prefix that is
  asked for already. -/
  | startAttribute (asked : AskedName) (relied : Bool)
  | endAttribute
  | endStartTag
  | endEmptyTag
  | endTag
  /-- A piece, and the kind of the special attribute that it stands in. -/
  | write (piece : Piece) (kind : Option SpecialKind)
  /-- The prefix of a qualified name in text, likewise. -/
  | qualify (uri : String) (kind : Option SpecialKind)
  /-- A chunk of a base64 payload, likewise. -/
  | feed (chunk : List UInt8) (kind : Option SpecialKind)
  | endPayload
  | configure (setting : Setting)
  /-- The end of a document or fragment in which nothing is open any more. -/
  | finish
deriving DecidableEq, Repr

def Event.completes : Event → Bool
  | .line _ | .endAttribute | .endStartTag | .endEmptyTag | .endTag | .endPayload => true
  | _ => false

namespace Draft

def position (draft : Draft) (phase : Phase) : TextPosition :=
  match phase with
  | .attribute | .topAttribute => .attribute draft.settings.quote
  | _ => .content

def declarationPart (quote : Quote) (name value : String) : String :=
  " " ++ name ++ "=" ++ quote.text ++ value ++ quote.text

def xmlDeclaration (draft : Draft) (encoding : Option String) (standalone : Option Bool) :
    String :=
  let part := declarationPart draft.settings.quote
  let encoding := encoding.map (part "encoding")
  let standing := standalone.map fun alone => part "standalone" (if alone then "yes" else "no")
  "<?xml" ++ part "version" "1.0" ++ encoding.getD "" ++ standing.getD "" ++ "?>"

/-- A literal of a document type, in quotes that it does not contain. -/
def quoted? (draft : Draft) (literal : String) : Option String :=
  (Writer.literalQuote? draft.settings.quote literal).map fun quote =>
    quote.text ++ literal ++ quote.text

def externalId? (draft : Draft) (publicId systemId : Option String) : Option String :=
  match publicId, systemId with
  | none, none => some ""
  | none, some systemId => (draft.quoted? systemId).map (" SYSTEM " ++ ·)
  | some publicId, systemId => do
    let publicLiteral ← draft.quoted? publicId
    let systemLiteral ← draft.quoted? (systemId.getD "")
    return " PUBLIC " ++ publicLiteral ++ " " ++ systemLiteral

def lineText (draft : Draft) (beforeEnd : Bool) : String :=
  let level := if beforeEnd then draft.depth - 1 else draft.depth
  if draft.depth = 0 then "\n"
  else
    String.ofList
      ('\n' :: List.replicate (draft.settings.indentation.times level) draft.settings.indentChar)

def declarationText (quote : Quote) (binding : Binding) : String :=
  " xmlns:" ++ TextPosition.escaped (.attribute quote) binding.nsPrefix ++ "=" ++ quote.text ++
    TextPosition.escaped (.attribute quote) binding.uri ++ quote.text

def defaultText (quote : Quote) (uri : String) : String :=
  " xmlns=" ++ quote.text ++ TextPosition.escaped (.attribute quote) uri ++ quote.text

def owedText (draft : Draft) : String :=
  ((draft.scope.owed draft.top.bindingMark).map fun entry =>
    declarationText draft.settings.quote entry.1).foldr (· ++ ·) "" ++
    if draft.owesDefault then defaultText draft.settings.quote draft.top.defaultUri else ""

/-- The phase after the end of the innermost element. A document is over with its
root. -/
def phaseAfterElement (draft : Draft) : Phase :=
  if draft.mode = .document ∧ draft.depth = 1 then .epilog else .content

def Between (draft : Draft) : Prop :=
  draft.phase ≠ .element ∧ draft.phase ≠ .attribute ∧ draft.phase ≠ .topAttribute

def enter (draft : Draft) (next : Phase) : Draft := { draft with phase := next }

section Enter

variable (draft : Draft) (next : Phase)

@[simp] theorem enter_settings : (draft.enter next).settings = draft.settings := rfl

@[simp] theorem enter_phase : (draft.enter next).phase = next := rfl

@[simp] theorem enter_mode : (draft.enter next).mode = draft.mode := rfl

@[simp] theorem enter_elements : (draft.enter next).elements = draft.elements := rfl

@[simp] theorem enter_scope : (draft.enter next).scope = draft.scope := rfl

@[simp] theorem enter_special : (draft.enter next).special = draft.special := rfl

@[simp] theorem enter_carry : (draft.enter next).carry = draft.carry := rfl

@[simp] theorem enter_unflushed : (draft.enter next).unflushed = draft.unflushed := rfl

@[simp] theorem enter_payload : (draft.enter next).payload = draft.payload := rfl

@[simp] theorem enter_top : (draft.enter next).top = draft.top := rfl

@[simp] theorem enter_depth : (draft.enter next).depth = draft.depth := rfl

end Enter

/-- The draft in the phase that text leads to. Content makes its element mixed. -/
def enterText (draft : Draft) (next : Phase) : Draft :=
  if next = .content then draft.markMixed.enter next else draft.enter next

@[simp] theorem enterText_settings (draft : Draft) (next : Phase) :
    (draft.enterText next).settings = draft.settings := by
  unfold enterText
  split <;> rfl

@[simp] theorem enterText_phase (draft : Draft) (next : Phase) :
    (draft.enterText next).phase = next := by
  unfold enterText
  split <;> rfl

@[simp] theorem enterText_mode (draft : Draft) (next : Phase) :
    (draft.enterText next).mode = draft.mode := by
  unfold enterText
  split <;> rfl

@[simp] theorem enterText_scope (draft : Draft) (next : Phase) :
    (draft.enterText next).scope = draft.scope := by
  unfold enterText
  split <;> rfl

@[simp] theorem enterText_special (draft : Draft) (next : Phase) :
    (draft.enterText next).special = draft.special := by
  unfold enterText
  split <;> rfl

@[simp] theorem enterText_carry (draft : Draft) (next : Phase) :
    (draft.enterText next).carry = draft.carry := by
  unfold enterText
  split <;> rfl

@[simp] theorem enterText_unflushed (draft : Draft) (next : Phase) :
    (draft.enterText next).unflushed = draft.unflushed := by
  unfold enterText
  split <;> rfl

@[simp] theorem enterText_payload (draft : Draft) (next : Phase) :
    (draft.enterText next).payload = draft.payload := by
  unfold enterText
  split <;> rfl

@[simp] theorem enterText_top_defaultUri (draft : Draft) (next : Phase) :
    (draft.enterText next).top.defaultUri = draft.top.defaultUri := by
  unfold enterText
  split
  · simp [markMixed]
  · rfl

theorem enterText_top_mixed (draft : Draft) {next : Phase} (content : next = .content) :
    (draft.enterText next).top.mixed = true := by
  simp [enterText, content, markMixed]

def reset (draft : Draft) : Draft :=
  { draft with
    scope := draft.scope.take 1, elements := {}, mode := .fragment, phase := .start }

/-- One step of a document: what happens, and the text it adds. -/
inductive Step (draft : Draft) : Event → String → Draft → Prop
  | xmlDeclaration (encoding : Option String) (standalone : Option Bool)
      (start : draft.phase = .start) :
      Step draft (.xmlDeclaration encoding standalone)
        (draft.xmlDeclaration encoding standalone)
        { draft with phase := .prolog, mode := .document }
  | doctype (name : String) (publicId systemId subset : Option String) (ids : String)
      (next : Phase) (usable : Name.isUsable .qualified draft.settings.namespaces name)
      (identified : draft.externalId? publicId systemId = some ids)
      (leads : draft.mode.next? .doctype draft.phase = some next) :
      Step draft (.doctype name publicId systemId subset)
        ("<!DOCTYPE " ++ name ++ ids ++
          (subset.map fun subset => "[" ++ subset ++ "]").getD "" ++ ">")
        (draft.enter next)
  | line (beforeEnd : Bool) (between : draft.Between) (indents : draft.settings.indents)
      (notStart : draft.phase ≠ .start) (plain : draft.depth > 0 → draft.top.mixed = false)
      (inContent : beforeEnd → draft.phase = .content ∧ 0 < draft.depth) :
      Step draft (.line beforeEnd) (draft.lineText beforeEnd) draft
  | comment (text : String) (next : Phase) (between : draft.Between)
      (noDashes : occursIn "--".toList text.toList = false)
      (noDash : text.toList.getLast? ≠ some '-')
      (leads : draft.mode.next? .comment draft.phase = some next) :
      Step draft (.comment text) ("<!--" ++ text ++ "-->") (draft.enter next)
  | instruction (target text : String) (next : Phase) (between : draft.Between)
      (noEnd : occursIn "?>".toList text.toList = false)
      (notXml : equalIgnoringCase target "xml" →
        draft.mode = .fragment ∧ draft.phase = .start)
      (usable : Name.isUsable .qualified draft.settings.namespaces target)
      (leads : draft.mode.next? .processingInstruction draft.phase = some next) :
      Step draft (.instruction target text)
        ("<?" ++ target ++ (if text = "" then "" else " " ++ text) ++ "?>")
        (draft.enter next)
  | cdata (text : String) (next : Phase) (between : draft.Between)
      (noEnd : occursIn "]]>".toList text.toList = false)
      (leads : draft.mode.next? .cdata draft.phase = some next) :
      Step draft (.cdata text) ("<![CDATA[" ++ text ++ "]]>")
        (draft.markMixed.enter next)
  | startElement (request : NameRequest) (nsPrefix : Option String) (after : Draft)
      (between : draft.Between) (named : request.localName ≠ "")
      (notXmlns : request.nsPrefix ≠ some "xmlns")
      (disabled : draft.settings.namespaces = false → request.usesNamespaces = false)
      (leads : draft.mode.next? .startElement draft.phase = some .element)
      (noPayload : draft.payload = none)
      (names : (draft.push.enter .element).NamesElement request nsPrefix after) :
      Step draft (.startElement (draft.asked request) after.owesDefault)
        ("<" ++ writtenName nsPrefix request.localName)
        (after.modifyTop fun element => { element with name := request.localName, nsPrefix })
  | startAttribute (request : NameRequest) (nsPrefix : Option String)
      (kind : Option SpecialKind) (next : Phase) (after : Draft)
      (notInside : draft.phase ≠ .attribute) (named : request.localName ≠ "")
      (disabled : draft.settings.namespaces = false → request.usesNamespaces = false)
      (leads : draft.mode.next? .startAttribute draft.phase = some next)
      (names : (draft.enter next).NamesAttribute request nsPrefix kind after) :
      Step draft (.startAttribute (draft.asked request) (draft.relies request))
        ((if draft.phase = .element then " " else "") ++
          writtenName nsPrefix request.localName ++ "=" ++ draft.settings.quote.text)
        { after.noteAttribute nsPrefix with special := kind.map fun kind => { kind } }
  | endAttribute (next : Phase) (after : Draft)
      (leads : draft.mode.next? .endAttribute draft.phase = some next)
      (noPayload : draft.payload = none)
      (applies : match draft.special with
        | some special => Applies { draft with special := none } special after
        | none => after = draft) :
      Step draft .endAttribute draft.settings.quote.text (after.enter next)
  | endStartTag (inTag : draft.phase = .element) :
      Step draft .endStartTag (draft.owedText ++ ">") (draft.settle.enter .content)
  | endEmptyTag (inTag : draft.phase = .element) (inside : 0 < draft.depth) :
      Step draft .endEmptyTag (draft.owedText ++ " />")
        (draft.settle.pop.enter draft.phaseAfterElement)
  | endTag (inContent : draft.phase = .content) (inside : 0 < draft.depth)
      (noPayload : draft.payload = none) :
      Step draft .endTag ("</" ++ writtenName draft.top.nsPrefix draft.top.name ++ ">")
        (draft.pop.enter draft.phaseAfterElement)
  | write (piece : Piece) (next : Phase) (closed : draft.phase ≠ .element)
      (leads : draft.mode.next? piece.token draft.phase = some next)
      (blank : ∀ text, piece = .whitespace text →
        text.toList.all CharacterClass.blank.hasChar = true)
      (named : ∀ name, piece = .entity name →
        Name.isUsable .qualified draft.settings.namespaces name = true)
      (legal : ∀ character, piece = .character character →
        CharacterClass.xml.hasChar character = true) :
      Step draft (.write piece (draft.special.map (·.kind)))
        (piece.written (draft.position next)) ((draft.enterText next).capture piece.value)
  | qualify (uri nsPrefix : String) (next : Phase) (after : Draft)
      (closed : draft.phase ≠ .element) (enabled : draft.settings.namespaces = true)
      (nonEmpty : uri ≠ "") (notDefault : uri ≠ draft.top.defaultUri)
      (leads : draft.mode.next? .text draft.phase = some next)
      (finds : (draft.enterText next).QualifiesText uri nsPrefix after) :
      Step draft (.qualify uri (draft.special.map (·.kind)))
        (TextPosition.escaped (draft.position next) nsPrefix ++
          TextPosition.escaped (draft.position next) ":")
        ((if next = .attribute then after.notePrefix nsPrefix else after).capture
          (nsPrefix ++ ":"))
  | feed (chunk : List UInt8) (next : Phase) (closed : draft.phase ≠ .element)
      (leads : draft.mode.next? .base64 draft.phase = some next) :
      Step draft (.feed chunk (draft.special.map (·.kind)))
        (String.ofList (draft.carry.feed chunk).1)
        { (draft.enterText next).capture (String.ofList (draft.carry.feed chunk).1) with
          carry := (draft.carry.feed chunk).2, unflushed := true }
  | endPayload (pending : draft.unflushed = true) :
      Step draft .endPayload (String.ofList draft.carry.lastGroup)
        { draft.capture (String.ofList draft.carry.lastGroup) with
          carry := .empty, unflushed := false }
  | configure (setting : Setting)
      (atStart : ∀ enabled, setting = .namespaces enabled → draft.phase = .start)
      (unquoted : ∀ quote, setting = .quote quote →
        draft.phase ≠ .attribute ∧ draft.phase ≠ .topAttribute) :
      Step draft (.configure setting) "" { draft with settings := setting.apply draft.settings }
  | finish (between : draft.Between) (outside : draft.depth = 0)
      (complete : draft.mode = .document →
        draft.phase ≠ .prolog ∧ draft.phase ≠ .afterDoctype)
      (noPayload : draft.payload = none) :
      Step draft .finish "" draft.reset

inductive Path : Draft → List Event → String → Draft → Prop
  | nil (draft : Draft) : Path draft [] "" draft
  | cons {first second last : Draft} {event : Event} {events : List Event}
      {text more : String} (step : first.Step event text second)
      (rest : Path second events more last) :
      Path first (event :: events) (text ++ more) last

theorem Path.single {before after : Draft} {event : Event} {text : String}
    (step : before.Step event text after) : Path before [event] text after := by
  simpa using Path.cons step (.nil after)

theorem Path.append {first second third : Draft} {events later : List Event}
    {text more : String} (path : Path first events text second)
    (rest : Path second later more third) :
    Path first (events ++ later) (text ++ more) third := by
  induction path with
  | nil draft => simpa using rest
  | cons step _ induction =>
      rw [List.cons_append, String.append_assoc]
      exact .cons step (induction rest)

end Draft

end XmlStream
