import XmlStream.Proofs.Reset.Alike
import XmlStream.Proofs.Simulation.Completion

namespace XmlStream.Writer

/-! The actions that calls are made of do not see what a writer has written before, nor
how it finds its bindings. Most of them do not see in which stance it is either. -/

/-- An action that does the same to writers that hold the same. -/
abbrev Blind {α : Type} (Outputs : OutputBuffer → OutputBuffer → Prop)
    (Stances : Stance → Stance → Prop) (Elements : ElementStack → ElementStack → Prop)
    (action : Action α) : Prop :=
  Mirrors (Akin Outputs Stances Elements) action action

variable {Outputs : OutputBuffer → OutputBuffer → Prop} {Stances : Stance → Stance → Prop}
  {Elements : ElementStack → ElementStack → Prop}

/-! ## Changes -/

theorem blind_report (event : LogEvent) : Blind Outputs Stances Elements (report event) :=
  .change fun _ _ akin => { akin with }

theorem blind_modifyTop (change : OpenElement → OpenElement) :
    Blind Outputs Stances Eq (modifyTop change) :=
  .change fun _ _ akin => akin.modifyTop change

theorem blind_capture (text : String) : Blind Outputs Stances Elements (capture text) :=
  .change fun _ _ akin => { akin with special := by rw [akin.special] }

theorem blind_markMixed : Blind Outputs Stances Eq markMixed := blind_modifyTop _

theorem blind_onOutput {action : OutputBuffer.Action Unit}
    (mirrors : Mirrors Outputs action action) :
    Blind Outputs Stances Elements (onOutput action) := by
  intro first second akin
  have here := mirrors akin.output
  simp only [onOutput]
  generalize action first.output = result at here ⊢
  generalize action second.output = result at here ⊢
  cases here with
  | ok value continues => exact .ok _ { akin with output := continues }
  | error error continues => exact .error _ { akin with output := continues }

/-! ## Namespaces -/

theorem blind_checkSpelling (nsPrefix uri : String) :
    Blind Outputs Stances Eq (checkSpelling nsPrefix uri) :=
  .ite (.throw _) (.pure _)

theorem blind_checkReserved (nsPrefix : Option String) (uri : String) :
    Blind Outputs Stances Eq (checkReserved nsPrefix uri) :=
  .ite (.throw _) (.pure _)

theorem pushBinding_eq (writer : Writer) (nsPrefix uri : String) (declared : Bool) :
    ∃ log, pushBinding nsPrefix uri declared writer =
      .ok () { writer with bindings := writer.bindings.push nsPrefix uri declared, log } := by
  have built := (Bindings.push writer.bindings nsPrefix uri declared).isIndexed &&
    !writer.bindings.isIndexed
  simp only [pushBinding, Bind.bind, EStateM.bind, get_run,
    modify_run]
  split
  · exact ⟨_, rfl⟩
  · exact ⟨_, rfl⟩

theorem blind_pushBinding (nsPrefix uri : String) (declared : Bool) :
    Blind Outputs Stances Eq (pushBinding nsPrefix uri declared) := by
  intro first second akin
  obtain ⟨log, pushes⟩ := pushBinding_eq first nsPrefix uri declared
  obtain ⟨logToo, pushesToo⟩ := pushBinding_eq second nsPrefix uri declared
  rw [pushes, pushesToo]
  exact .ok _ (akin.push nsPrefix uri declared log logToo)

theorem blind_bindDefault (uri : String) (declared : Bool) :
    Blind Outputs Stances Eq (bindDefault uri declared) :=
  .bind (blind_checkReserved none uri) fun _ => .get_bind fun first second akin => by
    rw [akin.top]
    exact .ite (.throw _) (blind_modifyTop _)

theorem blind_bindPrefix (nsPrefix uri : String) (declared : Bool) :
    Blind Outputs Stances Eq (bindPrefix nsPrefix uri declared) := by
  refine .bind (blind_checkReserved _ uri) fun _ => .ite (.throw _) ?_
  refine .get_bind fun first second akin => ?_
  rw [akin.boundTo?, akin.prefixInUse]
  cases second.bindings.boundTo? nsPrefix uri with
  | some position => exact .ite (.set (akin.setDeclared position)) (.pure _)
  | none => exact .ite (.throw _) (blind_pushBinding nsPrefix uri declared)

theorem blind_bind (nsPrefix : Option String) (uri : String) (declared : Bool) :
    Blind Outputs Stances Eq (bind nsPrefix uri declared) := by
  cases nsPrefix with
  | none => exact blind_bindDefault uri declared
  | some nsPrefix => exact blind_bindPrefix nsPrefix uri declared

theorem blind_makePrefix : Blind Outputs Stances Eq makePrefix :=
  .get_bind fun first second akin => by
    rw [akin.depth, akin.top, akin.nextNumber]
    exact .bind (blind_modifyTop _) fun _ => .pure _

theorem blind_notePrefix (nsPrefix : String) :
    Blind Outputs Stances Eq (notePrefix nsPrefix) :=
  blind_modifyTop _

theorem blind_applySpecial (special : SpecialAttribute) :
    Blind Outputs Stances Eq (applySpecial special) := by
  obtain ⟨kind, value⟩ := special
  cases kind with
  | language => exact blind_modifyTop _
  | space =>
      simp only [applySpecial]
      split
      · exact blind_modifyTop _
      · exact .throw _
  | declaration nsPrefix =>
      have binds : Blind Outputs Stances Eq (do if (← get).depth > 0 then bind nsPrefix value true) :=
        .get_bind fun first second akin => by
          rw [akin.depth]
          exact .ite (blind_bind nsPrefix value true) (.pure _)
      cases nsPrefix with
      | none => exact binds
      | some nsPrefix => exact .bind (blind_checkSpelling nsPrefix value) fun _ => binds

def bareEntries (owed : List (Nat × Binding)) : List (Binding × Nat) :=
  owed.map fun entry => (entry.2.bare, entry.1)

theorem Akin.foldl_setDeclared {first second : Writer}
    (akin : Akin Outputs Stances Eq first second)
    {owed other : List (Nat × Binding)} (same : bareEntries owed = bareEntries other) :
    Akin Outputs Stances Eq
      { first with
        bindings := owed.foldl (fun bindings (position, _) => bindings.setDeclared position)
          first.bindings }
      { second with
        bindings := other.foldl (fun bindings (position, _) => bindings.setDeclared position)
          second.bindings } :=
  { akin with
    scope := by
      have same : owed.map (fun entry => (entry.2.bare, entry.1)) =
        other.map fun entry => (entry.2.bare, entry.1) := same
      rw [scope_foldl_setDeclared, scope_foldl_setDeclared, same, akin.scope]
    sound := sound_foldl_setDeclared akin.sound owed
    soundToo := sound_foldl_setDeclared akin.soundToo other }

variable [OutputBuffer.Faithful Outputs]

/-! ## Text -/

theorem blind_emit (markup : String) : Blind Outputs Stances Elements (emit markup) :=
  blind_onOutput (OutputBuffer.Faithful.write markup)

theorem blind_emitQuote : Blind Outputs Stances Elements emitQuote :=
  .get_bind fun first second akin => by
    rw [akin.settings]
    exact blind_emit _

theorem blind_emitEscaped (position : TextPosition) (text : String) :
    Blind Outputs Stances Elements (emitEscaped position text) :=
  .forM _ blind_emit

theorem blind_emitText [InPhase Stances] (text : String) :
    Blind Outputs Stances Elements (emitText text) :=
  .bind (blind_capture text) fun _ => .get_bind fun first second akin => by
    rw [akin.textPosition]
    exact blind_emitEscaped _ text

theorem blind_emitVerbatim (text : String) :
    Blind Outputs Stances Elements (emitVerbatim text) :=
  .bind (blind_capture text) fun _ => blind_emit text

theorem blind_emitEntity (name : String) :
    Blind Outputs Stances Elements (emitEntity name) :=
  .bind (blind_capture _) fun _ => .bind (blind_emit _) fun _ =>
    .bind (blind_emit _) fun _ => blind_emit _

theorem blind_emitCharacter (character : Char) :
    Blind Outputs Stances Elements (emitCharacter character) :=
  .bind (blind_capture _) fun _ => blind_emit _

/-! ## Completions -/

theorem blind_finishPayload : Blind Outputs Stances Elements finishPayload :=
  .get_bind fun first second akin => by
    rw [akin.carry, akin.unflushed]
    refine .ite ?_ (.pure _)
    refine .bind (.change fun _ _ akin => { akin with carry := rfl }) fun _ => ?_
    refine .bind (blind_emitVerbatim _) fun _ => ?_
    exact .change fun _ _ akin => { akin with unflushed := rfl }

theorem blind_indent (beforeEnd : Bool) :
    Blind Outputs Stances Eq (indent beforeEnd) :=
  .get_bind fun first second akin => by
    rw [akin.depth, akin.top, akin.settings]
    exact .ite (blind_emit _) (.ite (blind_emit _) (.pure _))

theorem blind_indentNext [InPhase Stances] : Blind Outputs Stances Eq indentNext :=
  .get_bind fun first second akin => by
    rw [akin.indents, akin.phase]
    exact .ite (blind_indent false) (.pure _)

theorem blind_emitDeclaration (quote : Quote) (binding : Binding) :
    Blind Outputs Stances Eq (emitDeclaration quote binding) :=
  .bind (blind_emit _) fun _ => .bind (blind_emitEscaped _ _) fun _ =>
    .bind (blind_emit _) fun _ => .bind (blind_emit _) fun _ =>
      .bind (blind_emitEscaped _ _) fun _ => blind_emit _

theorem blind_emitDefaultDeclaration (quote : Quote) :
    Blind Outputs Stances Eq (emitDefaultDeclaration quote) :=
  .get_bind fun first second akin => by
    rw [akin.depth, akin.top, akin.elements]
    refine .ite ?_ (.pure _)
    exact .bind (blind_emit _) fun _ => .bind (blind_emit _) fun _ =>
      .bind (blind_emitEscaped _ _) fun _ => .bind (blind_emit _) fun _ => blind_modifyTop _

theorem mirrors_forM_emitDeclaration (quote : Quote) {owed other : List (Nat × Binding)}
    (same : bareEntries owed = bareEntries other) :
    Mirrors (Akin Outputs Stances Eq) (owed.forM fun (_, binding) => emitDeclaration quote binding)
      (other.forM fun (_, binding) => emitDeclaration quote binding) := by
  induction owed generalizing other with
  | nil =>
      cases other with
      | nil => exact .pure _
      | cons => simp [bareEntries] at same
  | cons entry rest induction =>
      cases other with
      | nil => simp [bareEntries] at same
      | cons head tail =>
          simp only [bareEntries, List.map_cons, List.cons.injEq, Prod.mk.injEq] at same
          obtain ⟨⟨bare, _⟩, same⟩ := same
          refine .bind ?_ fun _ => induction same
          change Mirrors (Akin Outputs Stances Eq) (emitDeclaration quote entry.2.bare)
            (emitDeclaration quote head.2.bare)
          rw [bare]
          exact blind_emitDeclaration quote _

theorem blind_closeStartTag (isEmpty : Bool) :
    Blind Outputs Stances Eq (closeStartTag isEmpty) := by
  refine .get_bind fun first second akin => ?_
  have owed := akin.owed second.top.bindingMark
  rw [akin.settings, akin.top]
  refine .bind (mirrors_forM_emitDeclaration _ owed) fun _ => ?_
  refine .bind (.change fun _ _ akin => akin.foldl_setDeclared owed) fun _ => ?_
  exact .bind (blind_emitDefaultDeclaration _) fun _ => blind_emit _

theorem blind_closeValue : Blind Outputs Stances Eq closeValue :=
  .get_bind fun first second akin => by
    rw [akin.special]
    cases second.special with
    | none => exact blind_emitQuote
    | some special =>
        refine .bind (.change fun _ _ akin => { akin with special := rfl }) fun _ => ?_
        exact .bind (blind_applySpecial special) fun _ => blind_emitQuote

theorem blind_closeOpenTag [InPhase Stances] : Blind Outputs Stances Eq closeOpenTag :=
  .get_bind fun first second akin => by
    rw [akin.phase]
    split
    · exact .bind blind_closeValue fun _ => blind_closeStartTag false
    · exact blind_closeStartTag false
    · exact .pure _

theorem blind_makeRoom [InPhase Stances] [AfterToken Stances] (token : Token) (next : Phase) :
    Blind Outputs Stances Eq (makeRoom token next) :=
  .get_bind fun first second akin => by
    rw [akin.phase, akin.lastToken]
    cases token with
    | doctype => exact .bind blind_indentNext fun _ => .pure _
    | startElement | comment | processingInstruction =>
        exact .bind blind_closeOpenTag fun _ => .bind blind_indentNext fun _ => .pure _
    | cdata => exact .bind blind_closeOpenTag fun _ => .bind blind_markMixed fun _ => .pure _
    | endElement | separateEnd =>
        exact .when blind_closeValue (.ite (.pure _) (.bind (blind_closeStartTag _) fun _ => .pure _))
    | startAttribute =>
        exact .when blind_closeValue (.when (blind_emit _) (.pure _))
    | endAttribute => exact .bind blind_closeValue fun _ => .pure _
    | text | base64 | raw | whitespace =>
        exact .when (blind_closeStartTag _) (.when blind_markMixed (.pure _))

theorem blind_advance (token : Token) : Blind Outputs Eq Eq (advance token) :=
  .get_bind fun first second akin => by
    rw [akin.nextPhase?, akin.phase]
    cases second.nextPhase? token with
    | none => exact .throw _
    | some next =>
        refine .when blind_finishPayload (.bind (blind_makeRoom token next) fun written => ?_)
        exact .change fun _ _ akin => { akin with stance := by rw [stance, akin.mode]; rfl }

omit [OutputBuffer.Faithful Outputs] in
theorem blind_guarded {call : Action Unit} (blind : Blind Outputs Eq Eq call) :
    Blind Outputs Eq Eq (guarded call) := by
  intro first second akin
  have agrees := blind akin
  simp only [guarded, akin.phase]
  split
  · exact .error _ akin
  · generalize call first = result at agrees ⊢
    generalize call second = result at agrees ⊢
    cases agrees with
    | ok value akin => exact .ok _ akin
    | error error akin =>
        exact .error _ { akin with stance := by rw [stance, akin.mode, akin.lastToken]; rfl }

end XmlStream.Writer
