import XmlStream.Proofs.Bindings.Tiers
import XmlStream.Proofs.Simulation.Writing

namespace XmlStream

/-! What is written in an element and leaves it open does not reach beyond it: the elements
around it stay as they are, and so do the bindings that are older and declared. -/

theorem Scope.isPrefix_declare {base scope : Scope}
    (declared : ∀ binding ∈ base, binding.declared = true) (stands : base <+: scope)
    (position : Nat) : base <+: scope.declare position := by
  rw [List.prefix_iff_eq_take] at stands ⊢
  rw [take_declare, ← stands, declare_of_declared declared]

namespace Writer

variable {α β : Type} {before after : Writer}

/-- What stands around the innermost element is the same, and older declared bindings are
still the oldest ones. -/
structure Spares (before after : Writer) : Prop where
  mode : after.mode = before.mode
  depth : after.depth = before.depth
  tail : after.elements.opened.tail = before.elements.opened.tail
  mark : after.top.bindingMark = before.top.bindingMark
  outside : 0 < before.depth → after.elements.outside = before.elements.outside
  scope : ∀ base : Scope, (∀ binding ∈ base, binding.declared = true) →
    base <+: before.bindings.scope → base <+: after.bindings.scope

namespace Spares

theorem refl (writer : Writer) : writer.Spares writer :=
  ⟨rfl, rfl, rfl, rfl, fun _ => rfl, fun _ _ => id⟩

theorem trans {first second third : Writer} (earlier : first.Spares second)
    (later : second.Spares third) : first.Spares third where
  mode := later.mode.trans earlier.mode
  depth := later.depth.trans earlier.depth
  tail := later.tail.trans earlier.tail
  mark := later.mark.trans earlier.mark
  outside inside := (later.outside (by rwa [earlier.depth])).trans (earlier.outside inside)
  scope base declared stands := later.scope base declared (earlier.scope base declared stands)

theorem of_eq (mode : after.mode = before.mode) (elements : after.elements = before.elements)
    (bindings : after.bindings = before.bindings) : before.Spares after where
  mode := mode
  depth := congrArg ElementStack.depth elements
  tail := by rw [elements]
  mark := by rw [top, elements, ← top]
  outside _ := by rw [elements]
  scope base _ stands := by rwa [bindings]

theorem of_modifyTop {change : OpenElement → OpenElement}
    (mark : (change before.top).bindingMark = before.top.bindingMark)
    (result : after = { before with elements := before.elements.modifyTop change }) :
    before.Spares after := by
  subst result
  exact
    { mode := rfl
      depth := ElementStack.depth_modifyTop _ _
      tail := ElementStack.tail_opened_modifyTop _ _
      mark := by
        rw [top, ElementStack.top_modifyTop]
        exact mark
      outside := ElementStack.outside_modifyTop _ _
      scope := fun _ _ => id }

theorem of_bindings (mode : after.mode = before.mode) (elements : after.elements = before.elements)
    (scope : ∀ base : Scope, (∀ binding ∈ base, binding.declared = true) →
      base <+: before.bindings.scope → base <+: after.bindings.scope) : before.Spares after where
  mode := mode
  depth := congrArg ElementStack.depth elements
  tail := by rw [elements]
  mark := by rw [top, elements, ← top]
  outside _ := by rw [elements]
  scope := scope

end Spares

def Local (action : Action α) : Prop :=
  ∀ ⦃before value after⦄, action before = .ok value after → before.Spares after

namespace Local

theorem pure (value : α) : Local (Pure.pure value) := by
  intro before result after ok
  rw [pure_eq_ok] at ok
  rw [← ok.2]
  exact .refl before

theorem throw (error : WriterError) : Local (MonadExcept.throw error : Action α) := by
  intro before value after ok
  simp at ok

theorem bind {action : Action α} {next : α → Action β} (isLocal : Local action)
    (later : ∀ value, Local (next value)) : Local (action >>= next) := by
  intro before value after ok
  rcases bind_eq_ok.mp ok with ⟨first, middle, does, rest⟩
  exact (isLocal does).trans (later first rest)

theorem get_bind {next : Writer → Action α} (later : ∀ writer, Local (next writer)) :
    Local (get >>= next) :=
  fun before _ _ ok => later before ok

theorem change {update : Writer → Writer} (spares : ∀ writer : Writer, writer.Spares (update writer)) :
    Local (modify update) := by
  intro before value after ok
  rw [modify_eq_ok] at ok
  rw [← ok]
  exact spares before

theorem ite {condition : Prop} [Decidable condition] {action other : Action α}
    (isLocal : Local action) (otherwise : Local other) :
    Local (if condition then action else other) := by
  split
  · exact isLocal
  · exact otherwise

theorem when {condition : Prop} [Decidable condition] {action : Action PUnit}
    {next : PUnit → Action β} (isLocal : Local action) (later : Local (next ⟨⟩)) :
    Local (if condition then action >>= next else next ⟨⟩) :=
  .ite (.bind isLocal fun _ => later) later

theorem forM {γ : Type} (entries : List γ) {action : γ → Action PUnit}
    (isLocal : ∀ entry, Local (action entry)) : Local (entries.forM action) := by
  induction entries with
  | nil => exact pure _
  | cons entry rest induction => exact bind (isLocal entry) fun _ => induction

theorem onOutput (action : OutputBuffer.Action Unit) : Local (Writer.onOutput action) := by
  intro before value after ok
  rcases onOutput_ok ok with ⟨_, _, rfl⟩
  exact .of_eq rfl rfl rfl

theorem modifyTop {change : OpenElement → OpenElement}
    (mark : ∀ element, (change element).bindingMark = element.bindingMark) :
    Local (Writer.modifyTop change) :=
  .change fun _ => .of_modifyTop (mark _) rfl

end Local

/-! ## Text -/

theorem local_emit (markup : String) : Local (emit markup) := .onOutput _

theorem local_emitQuote : Local emitQuote := .get_bind fun _ => local_emit _

theorem local_emitEscaped (position : TextPosition) (text : String) :
    Local (emitEscaped position text) :=
  .forM _ local_emit

theorem local_capture (text : String) : Local (capture text) := .change fun _ => .of_eq rfl rfl rfl

theorem local_emitText (text : String) : Local (emitText text) :=
  .bind (local_capture text) fun _ => .get_bind fun _ => local_emitEscaped _ text

theorem local_emitVerbatim (text : String) : Local (emitVerbatim text) :=
  .bind (local_capture text) fun _ => local_emit text

theorem local_emitEntity (name : String) : Local (emitEntity name) :=
  .bind (local_capture _) fun _ => .bind (local_emit _) fun _ => .bind (local_emit _) fun _ =>
    local_emit _

theorem local_emitCharacter (character : Char) : Local (emitCharacter character) :=
  .bind (local_capture _) fun _ => local_emit _

/-! ## Namespaces -/

theorem local_checkSpelling (nsPrefix uri : String) : Local (checkSpelling nsPrefix uri) :=
  .ite (.throw _) (.pure _)

theorem local_checkReserved (nsPrefix : Option String) (uri : String) :
    Local (checkReserved nsPrefix uri) :=
  .ite (.throw _) (.pure _)

theorem local_pushBinding (nsPrefix uri : String) (declared : Bool) :
    Local (pushBinding nsPrefix uri declared) := by
  intro before value after ok
  rcases bind_eq_ok.mp ok with ⟨_, _, gets, ok⟩
  rcases get_eq_ok.mp gets with ⟨rfl, rfl⟩
  rcases bind_eq_ok.mp ok with ⟨_, pushed, changes, reports⟩
  rw [modify_eq_ok] at changes
  have spares : before.Spares pushed := by
    subst changes
    refine .of_bindings rfl rfl fun base _ stands => ?_
    rw [Bindings.scope_push]
    exact stands.trans (List.prefix_append _ _)
  have reporting : Local (if (before.bindings.push nsPrefix uri declared).isIndexed &&
      !before.bindings.isIndexed then
      report (.indexBuilt (before.bindings.push nsPrefix uri declared).size) else Pure.pure ()) :=
    .ite (.change fun _ => .of_eq rfl rfl rfl) (.pure _)
  exact spares.trans (reporting reports)

theorem local_bindDefault (uri : String) (declared : Bool) : Local (bindDefault uri declared) :=
  .bind (local_checkReserved none uri) fun _ => .get_bind fun _ => .ite (.throw _)
    (.modifyTop fun _ => rfl)

theorem local_bindPrefix (nsPrefix uri : String) (declared : Bool) :
    Local (bindPrefix nsPrefix uri declared) := by
  refine .bind (local_checkReserved _ uri) fun _ => .ite (.throw _) ?_
  intro before value after ok
  rcases bind_eq_ok.mp ok with ⟨_, _, gets, ok⟩
  rcases get_eq_ok.mp gets with ⟨rfl, rfl⟩
  cases found : before.bindings.boundTo? nsPrefix uri with
  | some position =>
      simp only [found, ite_eq_ok, set_eq_ok, pure_eq_ok, true_and] at ok
      rcases ok with ⟨_, rfl⟩ | ⟨_, rfl⟩
      · refine .of_bindings rfl rfl fun base oldDeclared stands => ?_
        rw [Bindings.scope_setDeclared]
        exact Scope.isPrefix_declare oldDeclared stands position
      · exact .refl before
  | none =>
      simp only [found, refuse_bind_eq_ok] at ok
      exact local_pushBinding nsPrefix uri declared ok.2

theorem local_bind (nsPrefix : Option String) (uri : String) (declared : Bool) :
    Local (bind nsPrefix uri declared) := by
  cases nsPrefix with
  | none => exact local_bindDefault uri declared
  | some nsPrefix => exact local_bindPrefix nsPrefix uri declared

theorem local_makePrefix : Local makePrefix :=
  .get_bind fun _ => .bind (.modifyTop fun _ => rfl) fun _ => .pure _

theorem local_notePrefix (nsPrefix : String) : Local (notePrefix nsPrefix) :=
  .modifyTop fun _ => rfl

/-! ## Completions -/

theorem local_finishPayload : Local finishPayload := by
  refine .get_bind fun writer => .ite ?_ (.pure _)
  refine .bind (.change fun _ => .of_eq rfl rfl rfl) fun _ =>
    .bind (local_emitVerbatim _) fun _ => ?_
  exact .change fun _ => .of_eq rfl rfl rfl

theorem local_indent (beforeEnd : Bool) : Local (indent beforeEnd) :=
  .get_bind fun _ => .ite (local_emit _) (.ite (local_emit _) (.pure _))

theorem local_indentNext : Local indentNext :=
  .get_bind fun _ => .ite (local_indent false) (.pure _)

theorem local_markMixed : Local markMixed := .modifyTop fun _ => rfl

theorem local_emitDeclaration (quote : Quote) (binding : Binding) :
    Local (emitDeclaration quote binding) :=
  .bind (local_emit _) fun _ => .bind (local_emitEscaped _ _) fun _ =>
    .bind (local_emit _) fun _ => .bind (local_emit _) fun _ =>
      .bind (local_emitEscaped _ _) fun _ => local_emit _

theorem local_emitDefaultDeclaration (quote : Quote) : Local (emitDefaultDeclaration quote) := by
  refine .get_bind fun _ => .ite ?_ (.pure _)
  exact .bind (local_emit _) fun _ => .bind (local_emit _) fun _ =>
    .bind (local_emitEscaped _ _) fun _ => .bind (local_emit _) fun _ => .modifyTop fun _ => rfl

theorem isPrefix_foldl_setDeclared {base : Scope} (owed : List (Nat × Binding))
    (declared : ∀ binding ∈ base, binding.declared = true) {bindings : Bindings}
    (stands : base <+: bindings.scope) :
    base <+: (owed.foldl (fun bindings (position, _) => bindings.setDeclared position)
      bindings).scope := by
  induction owed generalizing bindings with
  | nil => exact stands
  | cons entry rest induction =>
      apply induction
      rw [Bindings.scope_setDeclared]
      exact Scope.isPrefix_declare declared stands entry.1

theorem local_closeStartTag (isEmpty : Bool) : Local (closeStartTag isEmpty) := by
  refine .get_bind fun writer => .bind (.forM _ fun _ => local_emitDeclaration _ _) fun _ => ?_
  refine .bind (.change fun _ => ?_) fun _ =>
    .bind (local_emitDefaultDeclaration _) fun _ => local_emit _
  exact .of_bindings rfl rfl fun base declared stands =>
    isPrefix_foldl_setDeclared _ declared stands

theorem local_applySpecial (special : SpecialAttribute) : Local (applySpecial special) := by
  rcases special with ⟨kind, value⟩
  cases kind with
  | language => exact .modifyTop fun _ => rfl
  | space =>
      simp only [applySpecial]
      cases spaceHandling? value with
      | some space => exact .modifyTop fun _ => rfl
      | none => exact .throw _
  | declaration nsPrefix =>
      have binds : Local (do if (← get).depth > 0 then bind nsPrefix value true) :=
        .get_bind fun _ => .ite (local_bind nsPrefix value true) (.pure _)
      cases nsPrefix with
      | none => exact binds
      | some nsPrefix => exact .bind (local_checkSpelling nsPrefix value) fun _ => binds

theorem local_closeValue : Local closeValue := by
  refine .get_bind fun writer => ?_
  cases writer.special with
  | none => exact local_emitQuote
  | some special =>
      exact .bind (.change fun _ => .of_eq rfl rfl rfl) fun _ =>
        .bind (local_applySpecial special) fun _ => local_emitQuote

theorem local_closeOpenTag : Local closeOpenTag := by
  refine .get_bind fun writer => ?_
  split
  · exact .bind local_closeValue fun _ => local_closeStartTag false
  · exact local_closeStartTag false
  · exact .pure _

theorem local_makeRoom (token : Token) (next : Phase) : Local (makeRoom token next) := by
  refine .get_bind fun writer => ?_
  split
  · exact .bind local_indentNext fun _ => .pure _
  · exact .bind local_closeOpenTag fun _ => .bind local_indentNext fun _ => .pure _
  · exact .bind local_closeOpenTag fun _ => .bind local_indentNext fun _ => .pure _
  · exact .bind local_closeOpenTag fun _ => .bind local_indentNext fun _ => .pure _
  · exact .bind local_closeOpenTag fun _ => .bind local_markMixed fun _ => .pure _
  · exact .when local_closeValue (.ite (.pure _) (.bind (local_closeStartTag _) fun _ => .pure _))
  · exact .when local_closeValue (.ite (.pure _) (.bind (local_closeStartTag _) fun _ => .pure _))
  · exact .when local_closeValue (.when (local_emit _) (.pure _))
  · exact .bind local_closeValue fun _ => .pure _
  all_goals exact .when (local_closeStartTag false) (.when local_markMixed (.pure _))

theorem local_advance (token : Token) : Local (advance token) := by
  refine .get_bind fun writer => ?_
  cases writer.nextPhase? token with
  | none => exact .throw _
  | some next =>
      refine .when local_finishPayload (.bind (local_makeRoom token next) fun written => ?_)
      exact .change fun _ => .of_eq rfl rfl rfl

end Writer

end XmlStream
