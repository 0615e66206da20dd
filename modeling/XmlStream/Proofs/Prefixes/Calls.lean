import XmlStream.Proofs.Output.Truncation
import XmlStream.Proofs.Prefixes.Grounded

namespace XmlStream

/-! Names are written with prefixes that are bound, so all calls leave writers grounded. -/

namespace Draft

variable {draft after : Draft} {nsPrefix uri : String}

theorem mem_of_bound {scope : Scope} (bound : scope.uri? nsPrefix = some uri) :
    nsPrefix ∈ scope.map (·.nsPrefix) := by
  rcases mem_of_uri? bound with ⟨binding, member, rfl, _⟩
  exact List.mem_map_of_mem member

theorem NamesElement.mem {request : NameRequest}
    (names : draft.NamesElement request (some nsPrefix) after) :
    nsPrefix ∈ after.scope.map (·.nsPrefix) := by
  generalize written : some nsPrefix = found at names
  cases names with
  | withoutNamespaces | bare | default => cases written
  | bound _ _ _ _ isBound =>
      cases written
      exact Bindings.mem_of_position? isBound
  | found _ _ _ _ _ stands =>
      rcases nonEmpty?_eq_some written.symm with ⟨same, _⟩
      cases same
      exact mem_of_bound (Scope.uri?_of_prefixOf? stands)
  | binding _ _ _ _ _ _ _ binds =>
      cases written
      exact mem_of_bound binds.uri?

theorem FindsPrefix.mem {asked : Option String}
    (finds : draft.FindsPrefix asked uri nsPrefix after) :
    nsPrefix ∈ after.scope.map (·.nsPrefix) := by
  cases finds with
  | found _ stands => exact mem_of_bound (Scope.uri?_of_prefixOf? stands)
  | kept _ _ stands => exact mem_of_bound (Scope.uri?_of_prefixOf? stands)
  | made _ _ _ _ _ _ binds => exact mem_of_bound binds.uri?
  | bound _ _ _ _ binds => exact mem_of_bound binds.uri?

theorem QualifiesText.mem (qualifies : draft.QualifiesText uri nsPrefix after) :
    nsPrefix ∈ after.scope.map (·.nsPrefix) := by
  cases qualifies with
  | found stands => exact mem_of_bound (Scope.uri?_of_prefixOf? stands)
  | made _ _ _ _ _ _ binds => exact mem_of_bound binds.uri?

theorem NamesAttribute.mem {request : NameRequest} {kind : Option SpecialKind}
    (names : draft.NamesAttribute request (some nsPrefix) kind after) :
    nsPrefix = "xml" ∨ nsPrefix = "xmlns" ∨ nsPrefix ∈ after.scope.map (·.nsPrefix) := by
  cases names with
  | xml => exact .inl rfl
  | declaration => exact .inr (.inl rfl)
  | bound _ _ _ _ _ _ isBound => exact .inr (.inr (Bindings.mem_of_position? isBound))
  | namespaced _ _ _ _ _ _ _ _ _ _ finds => exact .inr (.inr finds.mem)

end Draft

namespace Writer

variable {before after : Writer}

theorem Grounded.notePrefix (grounded : before.Grounded) {nsPrefix : String}
    (bound : nsPrefix ∈ before.bindings.scope.map (·.nsPrefix)) :
    EndsIn Grounded (Writer.notePrefix nsPrefix before) := by
  refine grounded.modifyTop rfl fun other member => ?_
  simp only [OpenElement.prefixes, List.mem_append, List.mem_cons] at member ⊢
  rcases member with named | rfl | used
  · exact .inl (.inl named)
  · exact .inr bound
  · exact .inl (.inr used)

/-! ## Elements -/

theorem grounds_checkRequest (request : NameRequest) : Grounds (checkRequest request) :=
  .ite (.throw _) (.get_bind fun _ => .ite (.throw _) (.pure _))

theorem grounds_checkBound (nsPrefix : String) : Grounds (checkBound nsPrefix) :=
  .get_bind fun _ => .ite (.throw _) (.pure _)

theorem grounds_elementPrefixFor (nsPrefix : Option String) (uri : String) :
    Grounds (elementPrefixFor nsPrefix uri) := by
  unfold elementPrefixFor
  split
  · refine .get_bind fun writer => ?_
    cases writer.bindings.findPrefix? uri with
    | some found => exact .pure _
    | none => exact .bind (grounds_bindDefault uri false) fun _ => .pure _
  · exact .bind (grounds_bindDefault uri false) fun _ => .pure _
  · exact .ite (.throw _) (.bind (grounds_checkSpelling _ uri) fun _ =>
      .bind (grounds_bindPrefix _ uri false) fun _ => .pure _)

theorem grounds_elementPrefix (request : NameRequest) : Grounds (elementPrefix request) := by
  refine .get_bind fun writer => .ite (.pure _) ?_
  cases request.uri with
  | some uri => exact grounds_elementPrefixFor _ uri
  | none =>
      cases nonEmpty? request.nsPrefix with
      | none => exact .pure _
      | some nsPrefix => exact .bind (grounds_checkBound nsPrefix) fun _ => .pure _

theorem Grounded.push (grounded : before.Grounded) :
    { before with elements := before.elements.push before.bindings.size }.Grounded := by
  refine ⟨grounded.sound, by simp [OpenElement.prefixes], ?_⟩
  have size : (before.bindings.scope.map (·.nsPrefix)).length = before.bindings.size := by simp
  simp only
  rw [← size, List.take_length]
  exact grounded.tags

theorem grounds_openElement (request : NameRequest) : Grounds (openElement request) := by
  refine .bind (grounds_checkRequest request) fun _ => .ite (.throw _) ?_
  refine .bind (grounds_advance _) fun _ => .bind (.change fun _ => Grounded.push) fun _ => ?_
  refine .bind_of (grounds_elementPrefix request) fun writer nsPrefix named grounded does still => ?_
  have names := (elementPrefix_ok grounded.sound does).2
  refine endsIn_bind_untouched (untouched_emit _ named) (fun _ middle untouched => ?_)
    fun _ untouched => untouched.grounded still
  refine (untouched.grounded still).modifyTop rfl fun given member => ?_
  rw [untouched.bindings]
  simp only [OpenElement.prefixes, List.mem_append, Option.mem_toList] at member ⊢
  rcases member with written | used
  · rw [written] at names
    exact .inr names.mem
  · exact .inl (.inr used)

theorem Grounded.popped (grounded : before.Grounded) : before.popped.Grounded := by
  refine ⟨grounded.sound.popTo _, ?_⟩
  have tags := grounded.tags
  simp only [Writer.popped, Bindings.scope_popTo, List.map_take, ElementStack.pop, top,
    ElementStack.top]
  cases found : before.elements.opened with
  | nil => trivial
  | cons innermost outer =>
      rw [found] at tags
      exact tags.2

theorem grounds_closeElement (separate : Bool) : Grounds (closeElement separate) := by
  refine .get_bind fun _ => .ite (.throw _) (.bind (grounds_advance _) fun _ => .get_bind fun _ => ?_)
  have pops : Grounds (modify popped) := .change fun _ => Grounded.popped
  exact .ite (.when (grounds_indent true) (.bind (grounds_emit _) fun _ => pops)) pops

/-! ## Attributes -/

theorem grounds_checkOwnNamespace (nsPrefix own : String) (uri : Option String) :
    Grounds (checkOwnNamespace nsPrefix own uri) := by
  unfold checkOwnNamespace
  cases nonEmpty? uri with
  | none => exact .pure _
  | some uri => exact .ite (.throw _) (.pure _)

theorem grounds_attributePrefixFor (nsPrefix : Option String) (uri : String) :
    Grounds (attributePrefixFor nsPrefix uri) := by
  unfold attributePrefixFor
  cases nsPrefix
  case' some nsPrefix => refine .bind (grounds_checkSpelling nsPrefix uri) fun _ => ?_
  all_goals
    refine .get_bind fun writer => .ite (.throw _) ?_
    dsimp only
    split
    · exact .pure _
    · exact .bind grounds_makePrefix fun _ => .bind (grounds_bindPrefix _ uri false) fun _ => .pure _
    · exact .when (grounds_bindPrefix _ uri false) (.pure _)

theorem grounds_ordinaryPrefix (nsPrefix uri : Option String) :
    Grounds (ordinaryPrefix nsPrefix uri) := by
  unfold ordinaryPrefix
  split
  · cases nsPrefix with
    | none => exact .pure _
    | some nsPrefix => exact .bind (grounds_checkBound nsPrefix) fun _ => .pure _
  · exact .pure _
  · exact .bind (grounds_attributePrefixFor nsPrefix _) fun _ => .pure _

theorem grounds_attributeRole (request : NameRequest) : Grounds (attributeRole request) := by
  refine .get_bind fun writer => .ite (.pure _) ?_
  dsimp only
  split
  · exact .bind (grounds_checkOwnNamespace _ _ _) fun _ => .pure _
  · exact .bind (grounds_checkOwnNamespace _ _ _) fun _ => .pure _
  · refine .ite (.bind (grounds_checkOwnNamespace _ _ _) fun _ => .pure _) ?_
    exact .bind (grounds_ordinaryPrefix _ _) fun _ => .pure _

theorem grounds_openAttribute (request : NameRequest) : Grounds (openAttribute request) := by
  refine .bind (grounds_checkRequest request) fun _ => .bind (grounds_advance _) fun _ => ?_
  refine .bind_of (grounds_attributeRole request) fun writer role named grounded does still => ?_
  rcases role with ⟨nsPrefix, kind⟩
  have names := (attributeRole_ok grounded.sound does).2
  have writes : Grounds (do
      emit (writtenName nsPrefix request.localName)
      emit "="
      emitQuote
      modify fun writer => { writer with special := kind.map fun kind => { kind } }) :=
    .bind (grounds_emit _) fun _ => .bind (grounds_emit _) fun _ =>
      .bind grounds_emitQuote fun _ => .change_other (fun _ => rfl) fun _ => rfl
  cases nsPrefix with
  | none => exact writes named still
  | some nsPrefix =>
      dsimp only [get_bind_eq]
      split
      · rename_i notes
        simp only [Bool.and_eq_true, decide_eq_true_eq] at notes
        rcases names.mem with isXml | isXmlns | bound
        · exact absurd isXml notes.1.2
        · exact absurd isXmlns notes.2
        · exact endsIn_bind (still.notePrefix bound) fun _ => writes
      · exact writes named still

/-! ## Content -/

theorem grounds_checkName (form : Name.Form) (name : String) : Grounds (checkName form name) :=
  .get_bind fun _ => .ite (.throw _) (.pure _)

theorem grounds_putText (text : String) : Grounds (putText text) :=
  .ite (.bind (grounds_advance _) fun _ => grounds_emitText text) (.pure _)

theorem grounds_textPrefixFor (uri : String) : Grounds (textPrefixFor uri) := by
  refine .get_bind fun writer => ?_
  cases writer.bindings.findPrefix? uri with
  | some found => exact .pure _
  | none =>
      exact .ite (.throw _) (.bind grounds_makePrefix fun _ =>
        .bind (grounds_bindPrefix _ uri false) fun _ => .pure _)

theorem grounds_putQualifiedName (localName : String) (uri : Option String) :
    Grounds (putQualifiedName localName uri) := by
  refine .bind (grounds_checkName _ localName) fun _ => .get_bind fun _ => ?_
  refine .ite (.throw _) (.bind (grounds_advance _) fun _ => ?_)
  cases nonEmpty? uri with
  | none => exact grounds_emitText localName
  | some uri =>
      refine .get_bind fun _ => .ite ?_ (grounds_emitText localName)
      refine .bind_of (grounds_textPrefixFor uri) fun writer nsPrefix named grounded does still => ?_
      have bound := (textPrefixFor_ok grounded.sound does).2.mem
      refine endsIn_bind_untouched (untouched_emitText nsPrefix named) (fun _ first untouched => ?_)
        fun _ untouched => untouched.grounded still
      refine endsIn_bind_untouched (untouched_emitText ":" first) (fun _ second untouchedToo => ?_)
        fun _ untouchedToo => (untouched.trans untouchedToo).grounded still
      have stillThere := (untouched.trans untouchedToo).grounded still
      dsimp only [get_bind_eq]
      split
      · refine endsIn_bind (stillThere.notePrefix ?_) fun _ => grounds_emitText localName
        rw [(untouched.trans untouchedToo).bindings]
        exact bound
      · exact grounds_emitText localName second stillThere

theorem grounds_putCharacter (code : Nat) : Grounds (putCharacter code) := by
  unfold putCharacter
  cases xmlCharacter? code with
  | none => exact .throw _
  | some character => exact .bind (grounds_advance _) fun _ => grounds_emitCharacter character

theorem grounds_putSurrogates (low high : Nat) : Grounds (putSurrogates low high) :=
  .ite (.throw _) (.ite (.throw _) (.bind (grounds_advance _) fun _ => grounds_emitCharacter _))

theorem grounds_putBase64 (chunk : List UInt8) : Grounds (putBase64 chunk) :=
  .bind (grounds_advance _) fun _ => .get_bind fun _ =>
    .bind (.change_other (fun _ => rfl) fun _ => rfl) fun _ =>
      .bind (grounds_emitVerbatim _) fun _ => .change_other (fun _ => rfl) fun _ => rfl

theorem grounds_putCData (text : String) : Grounds (putCData text) :=
  .ite (.throw _) (.bind (grounds_advance _) fun _ => .bind (grounds_emit _) fun _ =>
    .bind (grounds_emitVerbatim text) fun _ => grounds_emit _)

theorem grounds_putComment (text : String) : Grounds (putComment text) :=
  .ite (.throw _) (.bind (grounds_advance _) fun _ => .bind (grounds_emit _) fun _ =>
    .bind (grounds_emitVerbatim text) fun _ => grounds_emit _)

theorem grounds_putInstruction (target text : String) : Grounds (putInstruction target text) := by
  refine .ite (.throw _) (.get_bind fun _ => ?_)
  refine .ite (.throw _) (.bind (grounds_checkName _ target) fun _ => ?_)
  refine .bind (grounds_advance _) fun _ => .bind (grounds_emit _) fun _ =>
    .bind (grounds_emit _) fun _ => ?_
  exact .ite (.bind (grounds_emit _) fun _ => .bind (grounds_emitVerbatim text) fun _ =>
    grounds_emit _) (grounds_emit _)

/-! ## Documents -/

theorem grounds_beginDocument (standalone : Option Bool) : Grounds (beginDocument standalone) := by
  refine .get_bind_of fun writer grounded => ?_
  have begins : Grounds (do
      modify fun _ => { writer with
        mode := .document, phase := .prolog, lastToken := some .processingInstruction }
      emit (writer.xmlDeclaration standalone)) :=
    .bind (.change fun _ _ => grounded.of_eq rfl rfl) fun _ => grounds_emit _
  have refuses : Grounds (do
      report (.declarationRequested writer.phase)
      throw .duplicateDeclaration : Action Unit) := .bind (grounds_report _) fun _ => .throw _
  split
  · exact Grounds.ite refuses (.throw _) writer grounded
  · exact begins writer grounded

theorem grounds_quoted (literal : String) : Grounds (quoted literal) := by
  refine .get_bind fun writer => ?_
  cases literalQuote? writer.settings.quote literal with
  | none => exact .throw _
  | some quote => exact .pure _

theorem grounds_externalId (publicId systemId : Option String) :
    Grounds (externalId publicId systemId) := by
  unfold externalId
  split
  · exact .pure _
  · exact .bind (grounds_quoted _) fun _ => .pure _
  · exact .bind (grounds_quoted _) fun _ => .bind (grounds_quoted _) fun _ => .pure _

theorem grounds_putDoctype (name : String) (publicId systemId subset : Option String) :
    Grounds (putDoctype name publicId systemId subset) :=
  .bind (grounds_checkName _ name) fun _ => .bind (grounds_externalId publicId systemId) fun _ =>
    .bind (grounds_advance _) fun _ => grounds_emit _

theorem grounds_closeElements (count : Nat) : Grounds (closeElements count) := by
  induction count with
  | zero => exact .pure _
  | succ count induction => exact .bind (grounds_closeElement false) fun _ => induction

theorem grounds_completeAll : Grounds completeAll := by
  have closes : Grounds (do closeElements (← get).depth) := .get_bind fun _ => grounds_closeElements _
  exact .bind grounds_finishPayload fun _ => .get_bind fun _ => .when (grounds_advance _) closes

theorem grounds_finishDocument : Grounds finishDocument :=
  .get_bind fun _ => .ite (.throw _) (.bind grounds_completeAll fun _ =>
    .bind (.change fun _ grounded => ⟨grounded.sound.popTo 1, trivial⟩) fun _ => .onOutput _)

theorem grounds_shut : Grounds shut :=
  .get_bind fun _ => .ite (.bind (.tryCatch grounds_completeAll fun _ => grounds_report _) fun _ =>
    .bind (.change_other (fun _ => rfl) fun _ => rfl) fun _ => .onOutput _) (.pure _)

/-! ## Calls -/

theorem grounds_setNamespaces (enabled : Bool) : Grounds (setNamespaces enabled) := by
  refine .get_bind_of fun writer grounded => ?_
  split
  · exact grounded
  · exact grounded.of_eq rfl rfl

theorem grounds_setQuoteChar (character : Char) : Grounds (setQuoteChar character) := by
  unfold setQuoteChar
  split
  · exact .throw _
  · refine .get_bind_of fun writer grounded => ?_
    split
    · exact grounded
    · exact grounded.of_eq rfl rfl

theorem grounds_perform (call : Call) : Grounds (perform call) := by
  cases call with
  | query question => exact .pure _
  | setNamespaces enabled => exact grounds_setNamespaces enabled
  | setFormatting | setIndentation | setIndentChar =>
      exact .change_other (fun _ => rfl) fun _ => rfl
  | setQuoteChar character => exact grounds_setQuoteChar character
  | startDocument standalone => exact (grounds_beginDocument standalone).guarded
  | endDocument => exact grounds_finishDocument.guarded
  | doctype name publicId systemId subset =>
      exact (grounds_putDoctype name publicId systemId subset).guarded
  | startElement request => exact (grounds_openElement request).guarded
  | endElement => exact (grounds_closeElement false).guarded
  | fullEndElement => exact (grounds_closeElement true).guarded
  | startAttribute request => exact (grounds_openAttribute request).guarded
  | endAttribute => exact (grounds_advance _).guarded
  | attributeString request value =>
      exact .bind (grounds_openAttribute request).guarded fun _ =>
        .bind (grounds_putText value).guarded fun _ => (grounds_advance _).guarded
  | elementString request value =>
      refine .bind (grounds_openElement request).guarded fun _ => ?_
      cases value with
      | none => exact (grounds_closeElement false).guarded
      | some value =>
          exact .bind (grounds_putText value).guarded fun _ => (grounds_closeElement false).guarded
  | cdata text => exact (grounds_putCData text).guarded
  | comment text => exact (grounds_putComment text).guarded
  | instruction target text => exact (grounds_putInstruction target text).guarded
  | entity name =>
      exact Grounds.guarded (.bind (grounds_checkName _ name) fun _ =>
        .bind (grounds_advance _) fun _ => grounds_emitEntity name)
  | character code => exact (grounds_putCharacter code).guarded
  | surrogates low high => exact (grounds_putSurrogates low high).guarded
  | whitespace text =>
      exact Grounds.guarded (.ite (.throw _) (.bind (grounds_advance _) fun _ =>
        grounds_emitText text))
  | text text => exact (grounds_putText text).guarded
  | raw text =>
      exact Grounds.guarded (.bind (grounds_advance _) fun _ => grounds_emitVerbatim text)
  | base64 chunk => exact (grounds_putBase64 chunk).guarded
  | hexadecimal bytes =>
      exact Grounds.guarded (.bind (grounds_advance _) fun _ => grounds_emitVerbatim _)
  | name name =>
      exact Grounds.guarded (.bind (grounds_checkName _ name) fun _ =>
        .bind (grounds_advance _) fun _ => grounds_emitText name)
  | token name =>
      exact Grounds.guarded (.ite (.throw _) (.bind (grounds_advance _) fun _ =>
        grounds_emitText name))
  | qualifiedName localName uri => exact (grounds_putQualifiedName localName uri).guarded
  | flush => exact Grounds.guarded (.onOutput _)
  | close => exact grounds_shut

theorem Grounded.step (grounded : before.Grounded) (request : Call) :
    (before.step request).2.Grounded := by
  have ends := grounds_perform request before grounded
  obtain ⟨answer, steps⟩ := step_eq before request
  rw [steps]
  generalize perform request before = result at ends ⊢
  cases result <;> exact ends

/-- Writers stay grounded, whichever calls fail. -/
theorem Grounded.run (grounded : before.Grounded) (calls : List Call) :
    (before.run calls).2.Grounded := by
  induction calls generalizing before with
  | nil => exact grounded
  | cons request rest induction => exact induction (grounded.step request)

theorem grounded_create (output : OutputBuffer) (settings : Settings) :
    (create output settings).Grounded where
  sound := (Bindings.sound_of_index_eq_none rfl).push _ _ _
  tags := trivial

end Writer

end XmlStream
