import XmlStream.Call
import XmlStream.Proofs.Reset.Actions
import XmlStream.Proofs.Simulation.Ends

namespace XmlStream.Writer

/-! Calls do not see what a writer has written before, and neither do runs of them. -/

variable {Outputs : OutputBuffer → OutputBuffer → Prop} {Stances : Stance → Stance → Prop}
  {Elements : ElementStack → ElementStack → Prop}

/-! ## Checks and names -/

section Checks

variable {Related : Writer → Writer → Prop} [SameSettings Related]

theorem mirrors_checkRequest (request : NameRequest) :
    Mirrors Related (checkRequest request) (checkRequest request) :=
  .ite (.throw _) (.get_bind fun first second related => by
    rw [SameSettings.settings first second related]
    exact .ite (.throw _) (.pure _))

theorem mirrors_checkName (form : Name.Form) (name : String) :
    Mirrors Related (checkName form name) (checkName form name) :=
  .get_bind fun first second related => by
    rw [SameSettings.settings first second related]
    exact .ite (.throw _) (.pure _)

theorem mirrors_quoted (literal : String) : Mirrors Related (quoted literal) (quoted literal) :=
  .get_bind fun first second related => by
    rw [SameSettings.settings first second related]
    cases literalQuote? second.settings.quote literal with
    | none => exact .throw _
    | some quote => exact .pure _

theorem mirrors_externalId (publicId systemId : Option String) :
    Mirrors Related (externalId publicId systemId) (externalId publicId systemId) := by
  unfold externalId
  split
  · exact .pure _
  · exact .bind (mirrors_quoted _) fun _ => .pure _
  · exact .bind (mirrors_quoted _) fun _ => .bind (mirrors_quoted _) fun _ => .pure _

end Checks

theorem blind_checkBound (nsPrefix : String) : Blind Outputs Stances Eq (checkBound nsPrefix) :=
  .get_bind fun first second akin => by
    rw [akin.lookup?]
    exact .ite (.throw _) (.pure _)

theorem blind_elementPrefixFor (nsPrefix : Option String) (uri : String) :
    Blind Outputs Stances Eq (elementPrefixFor nsPrefix uri) := by
  unfold elementPrefixFor
  split
  · refine .get_bind fun first second akin => ?_
    rw [akin.findPrefix?]
    cases second.bindings.findPrefix? uri with
    | some found => exact .pure _
    | none => exact .bind (blind_bindDefault uri false) fun _ => .pure _
  · exact .bind (blind_bindDefault uri false) fun _ => .pure _
  · exact .ite (.throw _) (.bind (blind_checkSpelling _ uri) fun _ =>
      .bind (blind_bindPrefix _ uri false) fun _ => .pure _)

theorem blind_elementPrefix (request : NameRequest) : Blind Outputs Stances Eq (elementPrefix request) :=
  .get_bind fun first second akin => by
    rw [akin.settings]
    refine .ite (.pure _) ?_
    cases request.uri with
    | some uri => exact blind_elementPrefixFor _ uri
    | none =>
        cases nonEmpty? request.nsPrefix with
        | none => exact .pure _
        | some nsPrefix => exact .bind (blind_checkBound nsPrefix) fun _ => .pure _

theorem blind_checkOwnNamespace (nsPrefix own : String) (uri : Option String) :
    Blind Outputs Stances Eq (checkOwnNamespace nsPrefix own uri) := by
  unfold checkOwnNamespace
  cases nonEmpty? uri with
  | none => exact .pure _
  | some uri => exact .ite (.throw _) (.pure _)

theorem blind_attributePrefixFor (nsPrefix : Option String) (uri : String) :
    Blind Outputs Stances Eq (attributePrefixFor nsPrefix uri) := by
  unfold attributePrefixFor
  cases nsPrefix
  case' some nsPrefix => refine .bind (blind_checkSpelling nsPrefix uri) fun _ => ?_
  all_goals
    refine .get_bind fun first second akin => ?_
    simp only [akin.depth, akin.prefixInUse, akin.findPrefix?]
    refine .ite (.throw _) ?_
    split
    · exact .pure _
    · exact .bind blind_makePrefix fun _ => .bind (blind_bindPrefix _ uri false) fun _ => .pure _
    · exact .when (blind_bindPrefix _ uri false) (.pure _)

theorem blind_ordinaryPrefix (nsPrefix uri : Option String) :
    Blind Outputs Stances Eq (ordinaryPrefix nsPrefix uri) := by
  unfold ordinaryPrefix
  split
  · cases nsPrefix with
    | none => exact .pure _
    | some nsPrefix => exact .bind (blind_checkBound nsPrefix) fun _ => .pure _
  · exact .pure _
  · exact .bind (blind_attributePrefixFor nsPrefix _) fun _ => .pure _

theorem blind_attributeRole (request : NameRequest) : Blind Outputs Stances Eq (attributeRole request) :=
  .get_bind fun first second akin => by
    rw [akin.settings]
    refine .ite (.pure _) ?_
    dsimp only
    split
    · exact .bind (blind_checkOwnNamespace _ _ _) fun _ => .pure _
    · exact .bind (blind_checkOwnNamespace _ _ _) fun _ => .pure _
    · refine .ite (.bind (blind_checkOwnNamespace _ _ _) fun _ => .pure _) ?_
      exact .bind (blind_ordinaryPrefix _ _) fun _ => .pure _

theorem blind_textPrefixFor [InPhase Stances] (uri : String) :
    Blind Outputs Stances Eq (textPrefixFor uri) :=
  .get_bind fun first second akin => by
    rw [akin.findPrefix?, akin.phase]
    cases second.bindings.findPrefix? uri with
    | some found => exact .pure _
    | none =>
        exact .ite (.throw _) (.bind blind_makePrefix fun _ =>
          .bind (blind_bindPrefix _ uri false) fun _ => .pure _)

theorem Akin.answer {first second : Writer} (akin : Akin Outputs Eq Eq first second)
    (question : Query) : first.answer question = second.answer question := by
  cases question with
  | settings => simp only [Writer.answer, akin.settings]
  | space | language => simp only [Writer.answer, akin.elements]
  | lookupPrefix uri =>
      simp only [Writer.answer, lookupPrefix, akin.top, akin.findPrefix?]

/-! ## Settings -/

theorem blind_setNamespaces (enabled : Bool) : Blind Outputs Eq Eq (setNamespaces enabled) :=
  .get_bind fun first second akin => by
    rw [akin.phase]
    exact .ite (.throw _) (.set { akin with
      stance := by rw [stance, akin.mode, akin.lastToken]; rfl
      settings := by rw [akin.settings] })

theorem blind_setQuoteChar (character : Char) : Blind Outputs Eq Eq (setQuoteChar character) := by
  unfold setQuoteChar
  split
  · exact .throw _
  · refine .get_bind fun first second akin => ?_
    rw [akin.phase]
    exact .ite (.throw _) (.set { akin with
      stance := by rw [stance, akin.mode, akin.lastToken]; rfl
      settings := by rw [akin.settings] })

variable [OutputBuffer.Faithful Outputs]

/-! ## Elements and attributes -/

theorem blind_nameElement (request : NameRequest) : Blind Outputs Stances Eq (do
    modify fun writer =>
      { writer with elements := writer.elements.push writer.bindings.size }
    let nsPrefix := nonEmpty? (← elementPrefix request)
    emit ("<" ++ writtenName nsPrefix request.localName)
    modifyTop fun element => { element with name := request.localName, nsPrefix }) := by
  refine .bind (.change fun _ _ akin => ?_) fun _ => ?_
  · exact { akin with elements := by rw [akin.elements, akin.size] }
  · exact .bind (blind_elementPrefix request) fun _ => .bind (blind_emit _) fun _ =>
      blind_modifyTop _

theorem blind_openElement (request : NameRequest) : Blind Outputs Eq Eq (openElement request) :=
  .bind (mirrors_checkRequest request) fun _ => .ite (.throw _) <|
    .bind (blind_advance _) fun _ => blind_nameElement request

theorem blind_leaveElement [AfterToken Stances] : Blind Outputs Stances Eq leaveElement :=
  .get_bind fun first second akin => by
    rw [akin.lastToken, akin.indents, akin.top]
    have pops : Blind Outputs Stances Eq (modify popped) := by
      refine .change fun first second akin => ?_
      rw [popped, popped, akin.top]
      exact { akin.popTo second.top.bindingMark with elements := by rw [akin.elements] }
    exact .ite (.when (blind_indent true) (.bind (blind_emit _) fun _ => pops)) pops

theorem blind_closeElement (separate : Bool) : Blind Outputs Eq Eq (closeElement separate) :=
  .get_bind fun first second akin => by
    rw [akin.depth, akin.phase]
    exact .ite (.throw _) (.bind (blind_advance _) fun _ => blind_leaveElement)

theorem blind_nameAttribute (request : NameRequest) : Blind Outputs Stances Eq (do
    let (nsPrefix, kind) ← attributeRole request
    if let some nsPrefix := nsPrefix then
      if (← get).depth > 0 && nsPrefix ≠ "xml" && nsPrefix ≠ "xmlns" then notePrefix nsPrefix
    emit (writtenName nsPrefix request.localName)
    emit "="
    emitQuote
    modify fun writer => { writer with special := kind.map fun kind => { kind } }) := by
  refine .bind (blind_attributeRole request) fun role => ?_
  obtain ⟨nsPrefix, kind⟩ := role
  have writes : Blind Outputs Stances Eq (do
      emit (writtenName nsPrefix request.localName)
      emit "="
      emitQuote
      modify fun writer => { writer with special := kind.map fun kind => { kind } }) :=
    .bind (blind_emit _) fun _ => .bind (blind_emit _) fun _ => .bind blind_emitQuote fun _ =>
      .change fun _ _ akin => { akin with special := rfl }
  cases nsPrefix with
  | none => exact writes
  | some nsPrefix =>
      refine .get_bind fun first second akin => ?_
      rw [akin.depth]
      exact .when (blind_notePrefix nsPrefix) writes

theorem blind_openAttribute (request : NameRequest) : Blind Outputs Eq Eq (openAttribute request) :=
  .bind (mirrors_checkRequest request) fun _ => .bind (blind_advance _) fun _ =>
    blind_nameAttribute request

/-! ## Content -/

theorem blind_putText (text : String) : Blind Outputs Eq Eq (putText text) :=
  .ite (.bind (blind_advance _) fun _ => blind_emitText text) (.pure _)

theorem blind_putRaw (text : String) : Blind Outputs Eq Eq (putRaw text) :=
  .bind (blind_advance _) fun _ => blind_emitVerbatim text

theorem blind_putWhitespace (text : String) : Blind Outputs Eq Eq (putWhitespace text) :=
  .ite (.throw _) (.bind (blind_advance _) fun _ => blind_emitText text)

theorem blind_putName (name : String) : Blind Outputs Eq Eq (putName name) :=
  .bind (mirrors_checkName _ name) fun _ => .bind (blind_advance _) fun _ => blind_emitText name

theorem blind_putToken (name : String) : Blind Outputs Eq Eq (putToken name) :=
  .ite (.throw _) (.bind (blind_advance _) fun _ => blind_emitText name)

theorem blind_emitQualified [InPhase Stances] (localName : String) (uri : Option String) :
    Blind Outputs Stances Eq (do
      if let some uri := uri then
        if uri ≠ (← get).top.defaultUri then
          let nsPrefix ← textPrefixFor uri
          emitText nsPrefix
          emitText ":"
          if (← get).phase = .attribute then notePrefix nsPrefix
      emitText localName) := by
  cases uri with
  | none => exact blind_emitText localName
  | some uri =>
      refine .get_bind fun first second akin => ?_
      rw [akin.top]
      refine .ite (.bind (blind_textPrefixFor uri) fun nsPrefix => ?_) (blind_emitText localName)
      refine .bind (blind_emitText nsPrefix) fun _ => .bind (blind_emitText ":") fun _ => ?_
      refine .get_bind fun first second akin => ?_
      rw [akin.phase]
      exact .when (blind_notePrefix nsPrefix) (blind_emitText localName)

theorem blind_putQualifiedName (localName : String) (uri : Option String) :
    Blind Outputs Eq Eq (putQualifiedName localName uri) := by
  refine .bind (mirrors_checkName _ localName) fun _ => .get_bind fun first second akin => ?_
  rw [akin.settings]
  exact .ite (.throw _) (.bind (blind_advance _) fun _ => blind_emitQualified localName _)

theorem blind_putEntity (name : String) : Blind Outputs Eq Eq (putEntity name) :=
  .bind (mirrors_checkName _ name) fun _ => .bind (blind_advance _) fun _ => blind_emitEntity name

theorem blind_putCharacter (code : Nat) : Blind Outputs Eq Eq (putCharacter code) := by
  unfold putCharacter
  cases xmlCharacter? code with
  | none => exact .throw _
  | some character => exact .bind (blind_advance _) fun _ => blind_emitCharacter character

theorem blind_putSurrogates (low high : Nat) : Blind Outputs Eq Eq (putSurrogates low high) :=
  .ite (.throw _) (.ite (.throw _) (.bind (blind_advance _) fun _ => blind_emitCharacter _))

theorem blind_feed (chunk : List UInt8) : Blind Outputs Stances Elements (do
    let (text, carry) := (← get).carry.feed chunk
    modify fun writer => { writer with carry }
    emitVerbatim (String.ofList text)
    modify fun writer => { writer with unflushed := true }) :=
  .get_bind fun first second akin => by
    rw [akin.carry]
    exact .bind (.change fun _ _ akin => { akin with carry := rfl }) fun _ =>
      .bind (blind_emitVerbatim _) fun _ =>
        .change fun _ _ akin => { akin with unflushed := rfl }

theorem blind_putBase64 (chunk : List UInt8) : Blind Outputs Eq Eq (putBase64 chunk) :=
  .bind (blind_advance _) fun _ => blind_feed chunk

theorem blind_putHexadecimal (bytes : List UInt8) : Blind Outputs Eq Eq (putHexadecimal bytes) :=
  .bind (blind_advance _) fun _ => blind_emitVerbatim _

theorem blind_putCData (text : String) : Blind Outputs Eq Eq (putCData text) :=
  .ite (.throw _) (.bind (blind_advance _) fun _ => .bind (blind_emit _) fun _ =>
    .bind (blind_emitVerbatim text) fun _ => blind_emit _)

theorem blind_putComment (text : String) : Blind Outputs Eq Eq (putComment text) :=
  .ite (.throw _) (.bind (blind_advance _) fun _ => .bind (blind_emit _) fun _ =>
    .bind (blind_emitVerbatim text) fun _ => blind_emit _)

theorem blind_putInstruction (target text : String) : Blind Outputs Eq Eq (putInstruction target text) := by
  refine .ite (.throw _) (.get_bind fun first second akin => ?_)
  rw [akin.mode, akin.phase]
  refine .ite (.throw _) (.bind (mirrors_checkName _ target) fun _ => ?_)
  refine .bind (blind_advance _) fun _ => .bind (blind_emit _) fun _ =>
    .bind (blind_emit _) fun _ => ?_
  exact .ite (.bind (blind_emit _) fun _ => .bind (blind_emitVerbatim text) fun _ => blind_emit _)
    (blind_emit _)

/-! ## Documents -/

theorem Akin.encoding? {first second : Writer} (akin : Akin Outputs Stances Elements first second) :
    first.output.encoding? = second.output.encoding? := by
  exact OutputBuffer.Faithful.encoding? _ _ akin.output

theorem Akin.xmlDeclaration {first second : Writer} (akin : Akin Outputs Eq Eq first second)
    (standalone : Option Bool) :
    first.xmlDeclaration standalone = second.xmlDeclaration standalone := by
  simp only [Writer.xmlDeclaration, akin.settings, akin.encoding?]

theorem blind_beginDocument (standalone : Option Bool) : Blind Outputs Eq Eq (beginDocument standalone) :=
  .get_bind fun first second akin => by
    rw [akin.phase, akin.mode, akin.xmlDeclaration]
    refine .ite (.ite (.bind (blind_report _) fun _ => .throw _) (.throw _)) ?_
    exact .bind (.set { akin with stance := rfl }) fun _ =>
      blind_emit _

theorem blind_putDoctype (name : String) (publicId systemId subset : Option String) :
    Blind Outputs Eq Eq (putDoctype name publicId systemId subset) :=
  .bind (mirrors_checkName _ name) fun _ => .bind (mirrors_externalId publicId systemId) fun _ =>
    .bind (blind_advance _) fun _ => blind_emit _

theorem blind_closeElements (count : Nat) : Blind Outputs Eq Eq (closeElements count) := by
  induction count with
  | zero => exact .pure _
  | succ count induction => exact .bind (blind_closeElement false) fun _ => induction

theorem blind_completeAll : Blind Outputs Eq Eq completeAll := by
  have closes : Blind Outputs Eq Eq (do closeElements (← get).depth) :=
    .get_bind fun first second akin => by
      rw [akin.depth]
      exact blind_closeElements _
  refine .bind blind_finishPayload fun _ => .get_bind fun first second akin => ?_
  rw [akin.phase]
  exact .when (blind_advance _) closes

theorem blind_finishDocument : Blind Outputs Eq Eq finishDocument :=
  .get_bind fun first second akin => by
    rw [akin.phase, akin.mode]
    refine .ite (.throw _) (.bind blind_completeAll fun _ => .bind (.change fun _ _ akin => ?_)
      fun _ => blind_onOutput OutputBuffer.Faithful.flush)
    exact { akin.popTo 1 with elements := rfl, stance := rfl }

theorem blind_shut : Blind Outputs Eq Eq shut :=
  .get_bind fun first second akin => by
    rw [akin.phase]
    refine .ite ?_ (.pure _)
    refine .bind (.tryCatch blind_completeAll fun error => blind_report _) fun _ => ?_
    refine .bind (.change fun _ _ akin => ?_) fun _ =>
      blind_onOutput OutputBuffer.Faithful.finish
    exact { akin with stance := by rw [stance, akin.mode, akin.lastToken]; rfl }

/-! ## Calls -/

theorem blind_perform (call : Call) : Blind Outputs Eq Eq (perform call) := by
  cases call with
  | query question => exact .pure _
  | setNamespaces enabled => exact blind_setNamespaces enabled
  | setFormatting | setIndentation | setIndentChar =>
      exact .change fun _ _ akin => { akin with settings := by rw [akin.settings] }
  | setQuoteChar character => exact blind_setQuoteChar character
  | startDocument standalone => exact blind_guarded (blind_beginDocument standalone)
  | endDocument => exact blind_guarded blind_finishDocument
  | doctype name publicId systemId subset =>
      exact blind_guarded (blind_putDoctype name publicId systemId subset)
  | startElement request => exact blind_guarded (blind_openElement request)
  | endElement => exact blind_guarded (blind_closeElement false)
  | fullEndElement => exact blind_guarded (blind_closeElement true)
  | startAttribute request => exact blind_guarded (blind_openAttribute request)
  | endAttribute => exact blind_guarded (blind_advance _)
  | attributeString request value =>
      exact .bind (blind_guarded (blind_openAttribute request)) fun _ =>
        .bind (blind_guarded (blind_putText value)) fun _ => blind_guarded (blind_advance _)
  | elementString request value =>
      refine .bind (blind_guarded (blind_openElement request)) fun _ => ?_
      cases value with
      | none => exact blind_guarded (blind_closeElement false)
      | some value =>
          exact .bind (blind_guarded (blind_putText value)) fun _ =>
            blind_guarded (blind_closeElement false)
  | cdata text => exact blind_guarded (blind_putCData text)
  | comment text => exact blind_guarded (blind_putComment text)
  | instruction target text => exact blind_guarded (blind_putInstruction target text)
  | entity name => exact blind_guarded (blind_putEntity name)
  | character code => exact blind_guarded (blind_putCharacter code)
  | surrogates low high => exact blind_guarded (blind_putSurrogates low high)
  | whitespace text => exact blind_guarded (blind_putWhitespace text)
  | text text => exact blind_guarded (blind_putText text)
  | raw text => exact blind_guarded (blind_putRaw text)
  | base64 chunk => exact blind_guarded (blind_putBase64 chunk)
  | hexadecimal bytes => exact blind_guarded (blind_putHexadecimal bytes)
  | name name => exact blind_guarded (blind_putName name)
  | token name => exact blind_guarded (blind_putToken name)
  | qualifiedName localName uri => exact blind_guarded (blind_putQualifiedName localName uri)
  | flush => exact blind_guarded (blind_onOutput OutputBuffer.Faithful.flush)
  | close => exact blind_shut

theorem blind_call (request : Call) : Blind Outputs Eq Eq (call request) := by
  cases request
  case query question =>
    refine .get_bind fun first second akin => ?_
    rw [akin.answer]
    exact .pure _
  all_goals exact .bind (blind_perform _) fun _ => .pure _

theorem Akin.step {first second : Writer} (akin : Akin Outputs Eq Eq first second) (request : Call) :
    (first.step request).1 = (second.step request).1 ∧
      Akin Outputs Eq Eq (first.step request).2 (second.step request).2 := by
  have agrees := blind_call request akin
  simp only [Writer.step]
  generalize call request first = result at agrees ⊢
  generalize call request second = result at agrees ⊢
  cases agrees with
  | ok value akin => exact ⟨rfl, akin⟩
  | error error akin => exact ⟨rfl, akin⟩

theorem Akin.run {first second : Writer} (akin : Akin Outputs Eq Eq first second)
    (calls : List Call) :
    (first.run calls).1 = (second.run calls).1 ∧
      Akin Outputs Eq Eq (first.run calls).2 (second.run calls).2 := by
  induction calls generalizing first second with
  | nil => exact ⟨rfl, akin⟩
  | cons request rest induction =>
      obtain ⟨same, akin⟩ := akin.step request
      obtain ⟨sameRest, akin⟩ := induction akin
      refine ⟨?_, akin⟩
      simp only [Writer.run, same, sameRest]

end XmlStream.Writer
