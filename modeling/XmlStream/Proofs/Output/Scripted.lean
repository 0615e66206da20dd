import XmlStream.Call
import XmlStream.Proofs.Output.Script
import XmlStream.Proofs.Simulation.Writing

namespace XmlStream.Writer

/-! All that a writer does before it is closed follows scripts. Only the declaration of a
document depends on the encoding. -/

variable {plain : Prop}

/-! ## Text -/

theorem scripted_report (event : LogEvent) : Scripted plain (report event) := .change fun _ _ => rfl

theorem scripted_modifyTop (update : OpenElement → OpenElement) : Scripted plain (modifyTop update) :=
  .change fun _ _ => rfl

theorem scripted_emit (markup : String) : Scripted plain (emit markup) :=
  .onOutput (.write fun _ => markup) fun _ _ _ => rfl

theorem scripted_flush : Scripted plain (onOutput OutputBuffer.flush) := .onOutput .flush fun _ => trivial

theorem scripted_emitQuote : Scripted plain emitQuote :=
  .get_bind (fun _ _ => rfl) fun _ => scripted_emit _

theorem scripted_emitEscaped (position : TextPosition) (text : String) :
    Scripted plain (emitEscaped position text) :=
  .forM _ scripted_emit

theorem scripted_capture (text : String) : Scripted plain (capture text) := .change fun _ _ => rfl

theorem scripted_emitText (text : String) : Scripted plain (emitText text) :=
  .bind (scripted_capture text) fun _ => .get_bind (fun _ _ => rfl) fun _ =>
    scripted_emitEscaped _ text

theorem scripted_emitVerbatim (text : String) : Scripted plain (emitVerbatim text) :=
  .bind (scripted_capture text) fun _ => scripted_emit text

theorem scripted_emitEntity (name : String) : Scripted plain (emitEntity name) :=
  .bind (scripted_capture _) fun _ => .bind (scripted_emit _) fun _ =>
    .bind (scripted_emit _) fun _ => scripted_emit _

theorem scripted_emitCharacter (character : Char) : Scripted plain (emitCharacter character) :=
  .bind (scripted_capture _) fun _ => scripted_emit _

/-! ## Namespaces -/

theorem scripted_checkSpelling (nsPrefix uri : String) : Scripted plain (checkSpelling nsPrefix uri) :=
  .ite (.throw _) (.pure _)

theorem scripted_checkReserved (nsPrefix : Option String) (uri : String) :
    Scripted plain (checkReserved nsPrefix uri) :=
  .ite (.throw _) (.pure _)

theorem scripted_pushBinding (nsPrefix uri : String) (declared : Bool) :
    Scripted plain (pushBinding nsPrefix uri declared) :=
  .get_bind (fun _ _ => rfl) fun _ => .bind (.change fun _ _ => rfl) fun _ =>
    .ite (scripted_report _) (.pure _)

theorem scripted_bindDefault (uri : String) (declared : Bool) :
    Scripted plain (bindDefault uri declared) :=
  .bind (scripted_checkReserved none uri) fun _ => .get_bind (fun _ _ => rfl) fun _ =>
    .ite (.throw _) (scripted_modifyTop _)

theorem scripted_bindPrefix (nsPrefix uri : String) (declared : Bool) :
    Scripted plain (bindPrefix nsPrefix uri declared) := by
  refine .bind (scripted_checkReserved _ uri) fun _ => .ite (.throw _) (.get_bind_of fun writer => ?_)
  dsimp only
  cases writer.bindings.boundTo? nsPrefix uri with
  | some position =>
      cases declared with
      | true =>
          exact ⟨modify fun writer =>
            { writer with bindings := writer.bindings.setDeclared position },
            .change fun _ _ => rfl, fun _ => rfl⟩
      | false => exact ⟨return, .pure _, fun _ => rfl⟩
  | none =>
      refine ⟨do
        if writer.prefixInUse nsPrefix then throw (.conflict nsPrefix uri)
        pushBinding nsPrefix uri declared, ?_, fun _ => rfl⟩
      exact .ite (.throw _) (scripted_pushBinding nsPrefix uri declared)

theorem scripted_bind (nsPrefix : Option String) (uri : String) (declared : Bool) :
    Scripted plain (bind nsPrefix uri declared) := by
  cases nsPrefix with
  | none => exact scripted_bindDefault uri declared
  | some nsPrefix => exact scripted_bindPrefix nsPrefix uri declared

theorem scripted_makePrefix : Scripted plain makePrefix :=
  .get_bind (fun _ _ => rfl) fun _ => .bind (scripted_modifyTop _) fun _ => .pure _

theorem scripted_notePrefix (nsPrefix : String) : Scripted plain (notePrefix nsPrefix) :=
  scripted_modifyTop _

/-! ## Completions -/

theorem scripted_finishPayload : Scripted plain finishPayload := by
  refine .get_bind (fun _ _ => rfl) fun writer => .ite ?_ (.pure _)
  refine .bind (.change fun _ _ => rfl) fun _ => .bind (scripted_emitVerbatim _) fun _ => ?_
  exact .change fun _ _ => rfl

theorem scripted_indent (beforeEnd : Bool) : Scripted plain (indent beforeEnd) :=
  .get_bind (fun _ _ => rfl) fun _ => .ite (scripted_emit _) (.ite (scripted_emit _) (.pure _))

theorem scripted_indentNext : Scripted plain indentNext :=
  .get_bind (fun _ _ => rfl) fun _ => .ite (scripted_indent false) (.pure _)

theorem scripted_markMixed : Scripted plain markMixed := scripted_modifyTop _

theorem scripted_emitDeclaration (quote : Quote) (binding : Binding) :
    Scripted plain (emitDeclaration quote binding) :=
  .bind (scripted_emit _) fun _ => .bind (scripted_emitEscaped _ _) fun _ =>
    .bind (scripted_emit _) fun _ => .bind (scripted_emit _) fun _ =>
      .bind (scripted_emitEscaped _ _) fun _ => scripted_emit _

theorem scripted_emitDefaultDeclaration (quote : Quote) :
    Scripted plain (emitDefaultDeclaration quote) := by
  refine .get_bind (fun _ _ => rfl) fun _ => .ite ?_ (.pure _)
  exact .bind (scripted_emit _) fun _ => .bind (scripted_emit _) fun _ =>
    .bind (scripted_emitEscaped _ _) fun _ => .bind (scripted_emit _) fun _ =>
      scripted_modifyTop _

theorem scripted_closeStartTag (isEmpty : Bool) : Scripted plain (closeStartTag isEmpty) := by
  refine .get_bind (fun _ _ => rfl) fun _ => ?_
  refine .bind (.forM _ fun _ => scripted_emitDeclaration _ _) fun _ => ?_
  refine .bind (.change fun _ _ => rfl) fun _ => ?_
  exact .bind (scripted_emitDefaultDeclaration _) fun _ => scripted_emit _

theorem scripted_applySpecial (special : SpecialAttribute) :
    Scripted plain (applySpecial special) := by
  obtain ⟨kind, value⟩ := special
  cases kind with
  | language => exact scripted_modifyTop _
  | space =>
      simp only [applySpecial]
      split
      · exact scripted_modifyTop _
      · exact .throw _
  | declaration nsPrefix =>
      have binds : Scripted plain (do if (← get).depth > 0 then bind nsPrefix value true) :=
        .get_bind (fun _ _ => rfl) fun _ => .ite (scripted_bind nsPrefix value true) (.pure _)
      cases nsPrefix with
      | none => exact binds
      | some nsPrefix => exact .bind (scripted_checkSpelling nsPrefix value) fun _ => binds

theorem scripted_closeValue : Scripted plain closeValue := by
  refine .get_bind (fun _ _ => rfl) fun writer => ?_
  cases writer.special with
  | none => exact scripted_emitQuote
  | some special =>
      refine .bind (.change fun _ _ => rfl) fun _ => ?_
      exact .bind (scripted_applySpecial special) fun _ => scripted_emitQuote

theorem scripted_closeOpenTag : Scripted plain closeOpenTag := by
  refine .get_bind (fun _ _ => rfl) fun writer => ?_
  split
  · exact .bind scripted_closeValue fun _ => scripted_closeStartTag false
  · exact scripted_closeStartTag false
  · exact .pure _

theorem scripted_makeRoom (token : Token) (next : Phase) : Scripted plain (makeRoom token next) := by
  refine .get_bind (fun _ _ => rfl) fun _ => ?_
  cases token with
  | doctype => exact .bind scripted_indentNext fun _ => .pure _
  | startElement | comment | processingInstruction =>
      exact .bind scripted_closeOpenTag fun _ => .bind scripted_indentNext fun _ => .pure _
  | cdata => exact .bind scripted_closeOpenTag fun _ => .bind scripted_markMixed fun _ => .pure _
  | endElement | separateEnd =>
      exact .when scripted_closeValue
        (.ite (.pure _) (.bind (scripted_closeStartTag _) fun _ => .pure _))
  | startAttribute => exact .when scripted_closeValue (.when (scripted_emit _) (.pure _))
  | endAttribute => exact .bind scripted_closeValue fun _ => .pure _
  | text | base64 | raw | whitespace =>
      exact .when (scripted_closeStartTag _) (.when scripted_markMixed (.pure _))

theorem scripted_advance (token : Token) : Scripted plain (advance token) := by
  refine .get_bind (fun _ _ => rfl) fun writer => ?_
  cases writer.nextPhase? token with
  | none => exact .throw _
  | some next =>
      refine .when scripted_finishPayload (.bind (scripted_makeRoom token next) fun written => ?_)
      exact .change fun _ _ => rfl

/-! ## Names -/

theorem scripted_checkRequest (request : NameRequest) : Scripted plain (checkRequest request) :=
  .ite (.throw _) (.get_bind (fun _ _ => rfl) fun _ => .ite (.throw _) (.pure _))

theorem scripted_checkBound (nsPrefix : String) : Scripted plain (checkBound nsPrefix) :=
  .get_bind (fun _ _ => rfl) fun _ => .ite (.throw _) (.pure _)

theorem scripted_elementPrefixFor (nsPrefix : Option String) (uri : String) :
    Scripted plain (elementPrefixFor nsPrefix uri) := by
  unfold elementPrefixFor
  split
  · refine .get_bind (fun _ _ => rfl) fun writer => ?_
    cases writer.bindings.findPrefix? uri with
    | some found => exact .pure _
    | none => exact .bind (scripted_bindDefault uri false) fun _ => .pure _
  · exact .bind (scripted_bindDefault uri false) fun _ => .pure _
  · exact .ite (.throw _) (.bind (scripted_checkSpelling _ uri) fun _ =>
      .bind (scripted_bindPrefix _ uri false) fun _ => .pure _)

theorem scripted_elementPrefix (request : NameRequest) : Scripted plain (elementPrefix request) := by
  refine .get_bind (fun _ _ => rfl) fun writer => .ite (.pure _) ?_
  cases request.uri with
  | some uri => exact scripted_elementPrefixFor _ uri
  | none =>
      cases nonEmpty? request.nsPrefix with
      | none => exact .pure _
      | some nsPrefix => exact .bind (scripted_checkBound nsPrefix) fun _ => .pure _

theorem scripted_openElement (request : NameRequest) : Scripted plain (openElement request) := by
  refine .bind (scripted_checkRequest request) fun _ => .ite (.throw _) ?_
  refine .bind (scripted_advance _) fun _ => .bind (.change fun _ _ => rfl) fun _ => ?_
  exact .bind (scripted_elementPrefix request) fun _ => .bind (scripted_emit _) fun _ =>
    scripted_modifyTop _

theorem scripted_closeElement (separate : Bool) : Scripted plain (closeElement separate) := by
  refine .get_bind (fun _ _ => rfl) fun _ => .ite (.throw _) (.bind (scripted_advance _) fun _ => ?_)
  refine .get_bind (fun _ _ => rfl) fun _ => ?_
  refine .ite (.when (scripted_indent true) (.bind (scripted_emit _) fun _ => ?_)) ?_
  all_goals exact .change fun _ _ => rfl

theorem scripted_checkOwnNamespace (nsPrefix own : String) (uri : Option String) :
    Scripted plain (checkOwnNamespace nsPrefix own uri) := by
  unfold checkOwnNamespace
  cases nonEmpty? uri with
  | none => exact .pure _
  | some uri => exact .ite (.throw _) (.pure _)

theorem scripted_attributePrefixFor (nsPrefix : Option String) (uri : String) :
    Scripted plain (attributePrefixFor nsPrefix uri) := by
  unfold attributePrefixFor
  cases nsPrefix
  case' some nsPrefix => refine .bind (scripted_checkSpelling nsPrefix uri) fun _ => ?_
  all_goals
    refine .get_bind (fun _ _ => rfl) fun writer => .ite (.throw _) ?_
    dsimp only
    split
    · exact .pure _
    · exact .bind scripted_makePrefix fun _ => .bind (scripted_bindPrefix _ uri false) fun _ =>
        .pure _
    · exact .when (scripted_bindPrefix _ uri false) (.pure _)

theorem scripted_ordinaryPrefix (nsPrefix uri : Option String) :
    Scripted plain (ordinaryPrefix nsPrefix uri) := by
  unfold ordinaryPrefix
  split
  · cases nsPrefix with
    | none => exact .pure _
    | some nsPrefix => exact .bind (scripted_checkBound nsPrefix) fun _ => .pure _
  · exact .pure _
  · exact .bind (scripted_attributePrefixFor nsPrefix _) fun _ => .pure _

theorem scripted_attributeRole (request : NameRequest) : Scripted plain (attributeRole request) := by
  refine .get_bind (fun _ _ => rfl) fun writer => .ite (.pure _) ?_
  dsimp only
  split
  · exact .bind (scripted_checkOwnNamespace _ _ _) fun _ => .pure _
  · exact .bind (scripted_checkOwnNamespace _ _ _) fun _ => .pure _
  · refine .ite (.bind (scripted_checkOwnNamespace _ _ _) fun _ => .pure _) ?_
    exact .bind (scripted_ordinaryPrefix _ _) fun _ => .pure _

theorem scripted_openAttribute (request : NameRequest) : Scripted plain (openAttribute request) := by
  refine .bind (scripted_checkRequest request) fun _ => .bind (scripted_advance _) fun _ =>
    .bind (scripted_attributeRole request) fun role => ?_
  obtain ⟨nsPrefix, kind⟩ := role
  have writes : Scripted plain (do
      emit (writtenName nsPrefix request.localName)
      emit "="
      emitQuote
      modify fun writer => { writer with special := kind.map fun kind => { kind } }) :=
    .bind (scripted_emit _) fun _ => .bind (scripted_emit _) fun _ =>
      .bind scripted_emitQuote fun _ => .change fun _ _ => rfl
  cases nsPrefix with
  | none => exact writes
  | some nsPrefix =>
      exact .get_bind (fun _ _ => rfl) fun _ => .when (scripted_notePrefix nsPrefix) writes

/-! ## Content -/

theorem scripted_checkName (form : Name.Form) (name : String) : Scripted plain (checkName form name) :=
  .get_bind (fun _ _ => rfl) fun _ => .ite (.throw _) (.pure _)

theorem scripted_putText (text : String) : Scripted plain (putText text) :=
  .ite (.bind (scripted_advance _) fun _ => scripted_emitText text) (.pure _)

theorem scripted_putRaw (text : String) : Scripted plain (putRaw text) :=
  .bind (scripted_advance _) fun _ => scripted_emitVerbatim text

theorem scripted_putWhitespace (text : String) : Scripted plain (putWhitespace text) :=
  .ite (.throw _) (.bind (scripted_advance _) fun _ => scripted_emitText text)

theorem scripted_putName (name : String) : Scripted plain (putName name) :=
  .bind (scripted_checkName _ name) fun _ => .bind (scripted_advance _) fun _ =>
    scripted_emitText name

theorem scripted_putToken (name : String) : Scripted plain (putToken name) :=
  .ite (.throw _) (.bind (scripted_advance _) fun _ => scripted_emitText name)

theorem scripted_textPrefixFor (uri : String) : Scripted plain (textPrefixFor uri) := by
  refine .get_bind (fun _ _ => rfl) fun writer => ?_
  cases writer.bindings.findPrefix? uri with
  | some found => exact .pure _
  | none =>
      exact .ite (.throw _) (.bind scripted_makePrefix fun _ =>
        .bind (scripted_bindPrefix _ uri false) fun _ => .pure _)

theorem scripted_putQualifiedName (localName : String) (uri : Option String) :
    Scripted plain (putQualifiedName localName uri) := by
  refine .bind (scripted_checkName _ localName) fun _ => .get_bind (fun _ _ => rfl) fun _ => ?_
  refine .ite (.throw _) (.bind (scripted_advance _) fun _ => ?_)
  cases nonEmpty? uri with
  | none => exact scripted_emitText localName
  | some uri =>
      refine .get_bind (fun _ _ => rfl) fun _ => .ite ?_ (scripted_emitText localName)
      refine .bind (scripted_textPrefixFor uri) fun nsPrefix => ?_
      refine .bind (scripted_emitText nsPrefix) fun _ => .bind (scripted_emitText ":") fun _ => ?_
      exact .get_bind (fun _ _ => rfl) fun _ =>
        .when (scripted_notePrefix nsPrefix) (scripted_emitText localName)

theorem scripted_putEntity (name : String) : Scripted plain (putEntity name) :=
  .bind (scripted_checkName _ name) fun _ => .bind (scripted_advance _) fun _ =>
    scripted_emitEntity name

theorem scripted_putCharacter (code : Nat) : Scripted plain (putCharacter code) := by
  unfold putCharacter
  cases xmlCharacter? code with
  | none => exact .throw _
  | some character => exact .bind (scripted_advance _) fun _ => scripted_emitCharacter character

theorem scripted_putSurrogates (low high : Nat) : Scripted plain (putSurrogates low high) :=
  .ite (.throw _) (.ite (.throw _) (.bind (scripted_advance _) fun _ => scripted_emitCharacter _))

theorem scripted_putBase64 (chunk : List UInt8) : Scripted plain (putBase64 chunk) :=
  .bind (scripted_advance _) fun _ => .get_bind (fun _ _ => rfl) fun _ =>
    .bind (.change fun _ _ => rfl) fun _ => .bind (scripted_emitVerbatim _) fun _ =>
      .change fun _ _ => rfl

theorem scripted_putHexadecimal (bytes : List UInt8) : Scripted plain (putHexadecimal bytes) :=
  .bind (scripted_advance _) fun _ => scripted_emitVerbatim _

theorem scripted_putCData (text : String) : Scripted plain (putCData text) :=
  .ite (.throw _) (.bind (scripted_advance _) fun _ => .bind (scripted_emit _) fun _ =>
    .bind (scripted_emitVerbatim text) fun _ => scripted_emit _)

theorem scripted_putComment (text : String) : Scripted plain (putComment text) :=
  .ite (.throw _) (.bind (scripted_advance _) fun _ => .bind (scripted_emit _) fun _ =>
    .bind (scripted_emitVerbatim text) fun _ => scripted_emit _)

theorem scripted_putInstruction (target text : String) :
    Scripted plain (putInstruction target text) := by
  refine .ite (.throw _) (.get_bind (fun _ _ => rfl) fun _ => ?_)
  refine .ite (.throw _) (.bind (scripted_checkName _ target) fun _ => ?_)
  refine .bind (scripted_advance _) fun _ => .bind (scripted_emit _) fun _ =>
    .bind (scripted_emit _) fun _ => ?_
  exact .ite (.bind (scripted_emit _) fun _ => .bind (scripted_emitVerbatim text) fun _ =>
    scripted_emit _) (scripted_emit _)

/-! ## Documents -/

theorem scripted_beginDocument (standalone : Option Bool) :
    Scripted False (beginDocument standalone) := by
  refine .get_bind_of fun writer => ?_
  by_cases start : writer.phase = .start
  · refine ⟨do
      modify fun writer =>
        { writer with
          mode := .document, phase := .prolog, lastToken := some .processingInstruction }
      onOutput (Order.write fun encoding =>
        writer.draft.xmlDeclaration encoding standalone).action, ?_, fun output => ?_⟩
    · exact .bind (.change fun _ _ => rfl) fun _ => .onOutput _ False.elim
    · simp only [start]
      rfl
  · refine ⟨do
      if writer.phase ≠ .failed && writer.mode = .document then
        report (.declarationRequested writer.phase)
        throw .duplicateDeclaration
      throw (.misplaced .processingInstruction writer.phase), ?_, fun output => ?_⟩
    · exact .ite (.bind (scripted_report _) fun _ => .throw _) (.throw _)
    · simp only [start, ne_eq, not_false_eq_true, if_true]
      rfl

theorem scripted_quoted (literal : String) : Scripted plain (quoted literal) := by
  refine .get_bind (fun _ _ => rfl) fun writer => ?_
  cases literalQuote? writer.settings.quote literal with
  | none => exact .throw _
  | some quote => exact .pure _

theorem scripted_externalId (publicId systemId : Option String) :
    Scripted plain (externalId publicId systemId) := by
  unfold externalId
  split
  · exact .pure _
  · exact .bind (scripted_quoted _) fun _ => .pure _
  · exact .bind (scripted_quoted _) fun _ => .bind (scripted_quoted _) fun _ => .pure _

theorem scripted_putDoctype (name : String) (publicId systemId subset : Option String) :
    Scripted plain (putDoctype name publicId systemId subset) :=
  .bind (scripted_checkName _ name) fun _ => .bind (scripted_externalId publicId systemId) fun _ =>
    .bind (scripted_advance _) fun _ => scripted_emit _

theorem scripted_closeElements (count : Nat) : Scripted plain (closeElements count) := by
  induction count with
  | zero => exact .pure _
  | succ count induction => exact .bind (scripted_closeElement false) fun _ => induction

theorem scripted_completeAll : Scripted plain completeAll := by
  have closes : Scripted plain (do closeElements (← get).depth) :=
    .get_bind (fun _ _ => rfl) fun _ => scripted_closeElements _
  exact .bind scripted_finishPayload fun _ => .get_bind (fun _ _ => rfl) fun _ =>
    .when (scripted_advance _) closes

theorem scripted_finishDocument : Scripted plain finishDocument :=
  .get_bind (fun _ _ => rfl) fun _ => .ite (.throw _) (.bind scripted_completeAll fun _ =>
    .bind (.change fun _ _ => rfl) fun _ => scripted_flush)

/-! ## Calls -/

theorem scripted_setNamespaces (enabled : Bool) : Scripted plain (setNamespaces enabled) := by
  refine .get_bind_of fun writer => ⟨do
    if writer.phase ≠ .start then throw .locked
    modify fun writer => { writer with settings.namespaces := enabled }, ?_, fun output => ?_⟩
  · exact .ite (.throw _) (.change fun _ _ => rfl)
  · dsimp only
    split <;> rfl

theorem scripted_setQuoteChar (character : Char) : Scripted plain (setQuoteChar character) := by
  unfold setQuoteChar
  split
  · exact .throw _
  · rename_i quote stands
    refine .get_bind_of fun writer => ⟨do
      if writer.phase = .attribute || writer.phase = .topAttribute then throw .locked
      modify fun writer => { writer with settings.quote := quote }, ?_, fun output => ?_⟩
    · exact .ite (.throw _) (.change fun _ _ => rfl)
    · dsimp only
      split <;> rfl

theorem scripted_perform {call : Call} (notClose : call ≠ .close) :
    Scripted (∀ standalone, call ≠ .startDocument standalone) (perform call) := by
  cases call with
  | close => exact absurd rfl notClose
  | query question => exact .pure _
  | setNamespaces enabled => exact scripted_setNamespaces enabled
  | setFormatting | setIndentation | setIndentChar => exact .change fun _ _ => rfl
  | setQuoteChar character => exact scripted_setQuoteChar character
  | startDocument standalone =>
      exact (scripted_beginDocument standalone).guarded.mono fun undeclared => undeclared standalone rfl
  | endDocument => exact scripted_finishDocument.guarded
  | doctype name publicId systemId subset =>
      exact (scripted_putDoctype name publicId systemId subset).guarded
  | startElement request => exact (scripted_openElement request).guarded
  | endElement => exact (scripted_closeElement false).guarded
  | fullEndElement => exact (scripted_closeElement true).guarded
  | startAttribute request => exact (scripted_openAttribute request).guarded
  | endAttribute => exact (scripted_advance _).guarded
  | attributeString request value =>
      exact .bind (scripted_openAttribute request).guarded fun _ =>
        .bind (scripted_putText value).guarded fun _ => (scripted_advance _).guarded
  | elementString request value =>
      refine .bind (scripted_openElement request).guarded fun _ => ?_
      cases value with
      | none => exact (scripted_closeElement false).guarded
      | some value =>
          exact .bind (scripted_putText value).guarded fun _ => (scripted_closeElement false).guarded
  | cdata text => exact (scripted_putCData text).guarded
  | comment text => exact (scripted_putComment text).guarded
  | instruction target text => exact (scripted_putInstruction target text).guarded
  | entity name => exact (scripted_putEntity name).guarded
  | character code => exact (scripted_putCharacter code).guarded
  | surrogates low high => exact (scripted_putSurrogates low high).guarded
  | whitespace text => exact (scripted_putWhitespace text).guarded
  | text text => exact (scripted_putText text).guarded
  | raw text => exact (scripted_putRaw text).guarded
  | base64 chunk => exact (scripted_putBase64 chunk).guarded
  | hexadecimal bytes => exact (scripted_putHexadecimal bytes).guarded
  | name name => exact (scripted_putName name).guarded
  | token name => exact (scripted_putToken name).guarded
  | qualifiedName localName uri => exact (scripted_putQualifiedName localName uri).guarded
  | flush => exact scripted_flush.guarded

end XmlStream.Writer
