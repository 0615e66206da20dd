import XmlStream.Call
import XmlStream.Proofs.Indentation.Abreast

namespace XmlStream.Writer

/-! The actions that calls are made of are steady, but for those that begin lines, open or close
elements, or make them mixed. -/

/-! ## Text -/

theorem steady_report (event : LogEvent) : Steady (report event) :=
  .change (aside_log (·.push event))

theorem steady_emit (markup : String) : Steady (emit markup) := .onOutput (.write fun _ => markup)

theorem steady_emitQuote : Steady emitQuote :=
  .get_bind (fun _ _ _ => rfl) fun _ => steady_emit _

theorem steady_emitEscaped (position : TextPosition) (text : String) :
    Steady (emitEscaped position text) :=
  .forM _ steady_emit

theorem steady_capture (text : String) : Steady (capture text) := .change (aside_special _)

theorem steady_emitText (text : String) : Steady (emitText text) :=
  .bind (steady_capture text) fun _ => .get_bind (fun _ _ _ => rfl) fun _ =>
    steady_emitEscaped _ text

theorem steady_emitVerbatim (text : String) : Steady (emitVerbatim text) :=
  .bind (steady_capture text) fun _ => steady_emit text

theorem prints_emitVerbatim (text : String) : Prints text (emitVerbatim text) := by
  have noted : Prints "" (capture text) := .change (aside_special _)
  have prints : Prints ("" ++ text) (emitVerbatim text) := noted.bind (.emit text)
  rwa [String.empty_append] at prints

theorem steady_emitEntity (name : String) : Steady (emitEntity name) :=
  .bind (steady_capture _) fun _ => .bind (steady_emit _) fun _ => .bind (steady_emit _) fun _ =>
    steady_emit _

theorem steady_emitCharacter (character : Char) : Steady (emitCharacter character) :=
  .bind (steady_capture _) fun _ => steady_emit _

/-! ## Namespaces -/

theorem steady_modifyTop {update : OpenElement → OpenElement}
    (keeps : ∀ element, (update element).mixed = element.mixed) : Steady (modifyTop update) :=
  .change (aside_modifyTop keeps)

theorem steady_checkSpelling (nsPrefix uri : String) : Steady (checkSpelling nsPrefix uri) :=
  .ite (.throw _) (.pure _)

theorem steady_checkReserved (nsPrefix : Option String) (uri : String) :
    Steady (checkReserved nsPrefix uri) :=
  .ite (.throw _) (.pure _)

theorem steady_pushBinding (nsPrefix uri : String) (declared : Bool) :
    Steady (pushBinding nsPrefix uri declared) :=
  .get_bind (fun _ _ _ => rfl) fun _ => .bind (.change (aside_bindings fun _ => _)) fun _ =>
    .ite (steady_report _) (.pure _)

theorem steady_bindDefault (uri : String) (declared : Bool) : Steady (bindDefault uri declared) :=
  .bind (steady_checkReserved none uri) fun _ => .get_bind (fun _ _ _ => rfl) fun _ =>
    .ite (.throw _) (steady_modifyTop fun _ => rfl)

theorem steady_bindPrefix (nsPrefix uri : String) (declared : Bool) :
    Steady (bindPrefix nsPrefix uri declared) := by
  refine .bind (steady_checkReserved _ uri) fun _ =>
    .ite (.throw _) (.get_bind_of fun writer => ?_)
  dsimp only
  cases writer.bindings.boundTo? nsPrefix uri with
  | some position =>
      cases declared with
      | true =>
          exact ⟨modify fun writer =>
            { writer with bindings := writer.bindings.setDeclared position },
            .change (aside_bindings (·.setDeclared position)), fun _ _ => rfl⟩
      | false => exact ⟨return, .pure _, fun _ _ => rfl⟩
  | none =>
      refine ⟨do
        if writer.prefixInUse nsPrefix then throw (.conflict nsPrefix uri)
        pushBinding nsPrefix uri declared, ?_, fun _ _ => rfl⟩
      exact .ite (.throw _) (steady_pushBinding nsPrefix uri declared)

theorem steady_bind (nsPrefix : Option String) (uri : String) (declared : Bool) :
    Steady (bind nsPrefix uri declared) := by
  cases nsPrefix with
  | none => exact steady_bindDefault uri declared
  | some nsPrefix => exact steady_bindPrefix nsPrefix uri declared

theorem steady_makePrefix : Steady makePrefix :=
  .get_bind (fun _ _ _ => rfl) fun _ => .bind (steady_modifyTop fun _ => rfl) fun _ => .pure _

theorem steady_notePrefix (nsPrefix : String) : Steady (notePrefix nsPrefix) :=
  steady_modifyTop fun _ => rfl

/-! ## Completions -/

theorem steady_emitDeclaration (quote : Quote) (binding : Binding) :
    Steady (emitDeclaration quote binding) :=
  .bind (steady_emit _) fun _ => .bind (steady_emitEscaped _ _) fun _ =>
    .bind (steady_emit _) fun _ => .bind (steady_emit _) fun _ =>
      .bind (steady_emitEscaped _ _) fun _ => steady_emit _

theorem steady_emitDefaultDeclaration (quote : Quote) : Steady (emitDefaultDeclaration quote) := by
  refine .get_bind (fun _ _ _ => rfl) fun _ => .ite ?_ (.pure _)
  exact .bind (steady_emit _) fun _ => .bind (steady_emit _) fun _ =>
    .bind (steady_emitEscaped _ _) fun _ => .bind (steady_emit _) fun _ =>
      steady_modifyTop fun _ => rfl

theorem steady_applySpecial (special : SpecialAttribute) : Steady (applySpecial special) := by
  obtain ⟨kind, value⟩ := special
  cases kind with
  | language => exact steady_modifyTop fun _ => rfl
  | space =>
      simp only [applySpecial]
      split
      · exact steady_modifyTop fun _ => rfl
      · exact .throw _
  | declaration nsPrefix =>
      have binds : Steady (do if (← get).depth > 0 then bind nsPrefix value true) :=
        .get_bind (fun _ _ _ => rfl) fun _ => .ite (steady_bind nsPrefix value true) (.pure _)
      cases nsPrefix with
      | none => exact binds
      | some nsPrefix => exact .bind (steady_checkSpelling nsPrefix value) fun _ => binds

theorem steady_closeValue : Steady closeValue := by
  refine .get_bind (fun _ _ _ => rfl) fun writer => ?_
  cases writer.special with
  | none => exact steady_emitQuote
  | some special =>
      exact .bind (.change (aside_special fun _ => none)) fun _ => .bind (steady_applySpecial special) fun _ =>
        steady_emitQuote

theorem steady_finishPayload : Steady finishPayload := by
  refine .get_bind (fun _ _ _ => rfl) fun _ => .ite ?_ (.pure _)
  exact .bind (.change (aside_carry .empty)) fun _ => .bind (steady_emitVerbatim _) fun _ =>
    .change aside_flushed

theorem steadyTo_closeStartTag (isEmpty : Bool) :
    SteadyTo (if isEmpty then " />" else ">") (closeStartTag isEmpty) := by
  refine .get_bind (fun _ _ _ => rfl) fun writer => ?_
  let owed := writer.bindings.owed writer.top.bindingMark
  refine .bind (.forM owed fun _ => steady_emitDeclaration _ _) fun _ => ?_
  refine .bind (.change (aside_bindings (owed.foldl fun bindings entry =>
    bindings.setDeclared entry.1))) fun _ => ?_
  exact .bind (steady_emitDefaultDeclaration _) fun _ =>
    .of_prints (.emit _)

/-! ## Names -/

theorem steady_checkRequest (request : NameRequest) : Steady (checkRequest request) :=
  .ite (.throw _) (.get_bind (fun _ _ _ => rfl) fun _ => .ite (.throw _) (.pure _))

theorem steady_checkBound (nsPrefix : String) : Steady (checkBound nsPrefix) :=
  .get_bind (fun _ _ _ => rfl) fun _ => .ite (.throw _) (.pure _)

theorem steady_elementPrefixFor (nsPrefix : Option String) (uri : String) :
    Steady (elementPrefixFor nsPrefix uri) := by
  unfold elementPrefixFor
  split
  · refine .get_bind (fun _ _ _ => rfl) fun writer => ?_
    cases writer.bindings.findPrefix? uri with
    | some found => exact .pure _
    | none => exact .bind (steady_bindDefault uri false) fun _ => .pure _
  · exact .bind (steady_bindDefault uri false) fun _ => .pure _
  · exact .ite (.throw _) (.bind (steady_checkSpelling _ uri) fun _ =>
      .bind (steady_bindPrefix _ uri false) fun _ => .pure _)

theorem steady_elementPrefix (request : NameRequest) : Steady (elementPrefix request) := by
  refine .get_bind (fun _ _ _ => rfl) fun _ => .ite (.pure _) ?_
  cases request.uri with
  | some uri => exact steady_elementPrefixFor _ uri
  | none =>
      cases nonEmpty? request.nsPrefix with
      | none => exact .pure _
      | some nsPrefix => exact .bind (steady_checkBound nsPrefix) fun _ => .pure _

theorem steady_checkOwnNamespace (nsPrefix own : String) (uri : Option String) :
    Steady (checkOwnNamespace nsPrefix own uri) := by
  unfold checkOwnNamespace
  cases nonEmpty? uri with
  | none => exact .pure _
  | some uri => exact .ite (.throw _) (.pure _)

theorem steady_attributePrefixFor (nsPrefix : Option String) (uri : String) :
    Steady (attributePrefixFor nsPrefix uri) := by
  unfold attributePrefixFor
  cases nsPrefix
  case' some nsPrefix => refine .bind (steady_checkSpelling nsPrefix uri) fun _ => ?_
  all_goals
    refine .get_bind (fun _ _ _ => rfl) fun writer => .ite (.throw _) ?_
    dsimp only
    split
    · exact .pure _
    · exact .bind steady_makePrefix fun _ => .bind (steady_bindPrefix _ uri false) fun _ => .pure _
    · exact .when (steady_bindPrefix _ uri false) (.pure _)

theorem steady_ordinaryPrefix (nsPrefix uri : Option String) :
    Steady (ordinaryPrefix nsPrefix uri) := by
  unfold ordinaryPrefix
  split
  · cases nsPrefix with
    | none => exact .pure _
    | some nsPrefix => exact .bind (steady_checkBound nsPrefix) fun _ => .pure _
  · exact .pure _
  · exact .bind (steady_attributePrefixFor nsPrefix _) fun _ => .pure _

theorem steady_attributeRole (request : NameRequest) : Steady (attributeRole request) := by
  refine .get_bind (fun _ _ _ => rfl) fun _ => .ite (.pure _) ?_
  dsimp only
  split
  · exact .bind (steady_checkOwnNamespace _ _ _) fun _ => .pure _
  · exact .bind (steady_checkOwnNamespace _ _ _) fun _ => .pure _
  · refine .ite (.bind (steady_checkOwnNamespace _ _ _) fun _ => .pure _) ?_
    exact .bind (steady_ordinaryPrefix _ _) fun _ => .pure _

theorem steady_checkName (form : Name.Form) (name : String) : Steady (checkName form name) :=
  .get_bind (fun _ _ _ => rfl) fun _ => .ite (.throw _) (.pure _)

theorem steady_textPrefixFor (uri : String) : Steady (textPrefixFor uri) := by
  refine .get_bind (fun _ _ _ => rfl) fun writer => ?_
  cases writer.bindings.findPrefix? uri with
  | some found => exact .pure _
  | none =>
      exact .ite (.throw _) (.bind steady_makePrefix fun _ =>
        .bind (steady_bindPrefix _ uri false) fun _ => .pure _)

theorem steady_quoted (literal : String) : Steady (quoted literal) := by
  refine .get_bind (fun _ _ _ => rfl) fun writer => ?_
  cases literalQuote? writer.settings.quote literal with
  | none => exact .throw _
  | some quote => exact .pure _

theorem steady_externalId (publicId systemId : Option String) :
    Steady (externalId publicId systemId) := by
  unfold externalId
  split
  · exact .pure _
  · exact .bind (steady_quoted _) fun _ => .pure _
  · exact .bind (steady_quoted _) fun _ => .bind (steady_quoted _) fun _ => .pure _

end XmlStream.Writer
