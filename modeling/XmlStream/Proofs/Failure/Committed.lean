import XmlStream.Proofs.Simulation.Completing

namespace XmlStream

/-! What can go wrong in a call. A call is refused for what it asks, or for when it is made, before
it does anything. Once it has begun to write, it fails for other reasons only. -/

/-- The errors by which a call is refused for what it asks, or for when it is made. All other errors
come from namespaces, from values of special attributes and from the sink. -/
def WriterError.isRefusal : WriterError → Bool
  | .misplaced _ _ | .namespacesDisabled | .invalidName _ | .invalidContent _
  | .invalidWhitespace | .invalidCharacter _ | .unquotable _ | .duplicateDeclaration | .closed
  | .noOpenElement | .incomplete | .invalidQuote _ | .locked => true
  | .undeclaredPrefix _ | .undeclaredNamespace _ | .reserved _ _ | .conflict _ _
  | .emptyNamespace _ | .invalidSpaceValue _ | .sink _ => false

namespace Writer

variable {α β : Type} {before after : Writer}

/-! ## Actions that have begun -/

def Committed (action : Action α) : Prop :=
  ∀ ⦃writer error after⦄, action writer = .error error after → error.isRefusal = false

namespace Committed

theorem pure (value : α) : Committed (Pure.pure value) := by
  intro writer error after fails
  simp at fails

theorem throw {error : WriterError} (other : error.isRefusal = false) :
    Committed (MonadExcept.throw error : Action α) := by
  intro writer thrown after fails
  rw [throw_eq_error] at fails
  rw [← fails.1, other]

theorem bind {action : Action α} {next : α → Action β} (committed : Committed action)
    (later : ∀ value, Committed (next value)) : Committed (action >>= next) := by
  intro writer error after fails
  rcases bind_eq_error.mp fails with fails | ⟨value, middle, _, fails⟩
  · exact committed fails
  · exact later value fails

theorem get_bind {next : Writer → Action α} (later : ∀ writer, Committed (next writer)) :
    Committed (get >>= next) :=
  fun writer _ _ fails => later writer fails

theorem change (update : Writer → Writer) : Committed (modify update) := by
  intro writer error after fails
  simp at fails

theorem ite {condition : Prop} [Decidable condition] {action other : Action α}
    (committed : Committed action) (otherwise : Committed other) :
    Committed (if condition then action else other) := by
  split
  · exact committed
  · exact otherwise

theorem when {condition : Prop} [Decidable condition] {action : Action PUnit}
    {next : PUnit → Action β} (committed : Committed action) (later : Committed (next ⟨⟩)) :
    Committed (if condition then action >>= next else next ⟨⟩) :=
  .ite (.bind committed fun _ => later) later

theorem forM {γ : Type} (entries : List γ) {action : γ → Action PUnit}
    (committed : ∀ entry, Committed (action entry)) : Committed (entries.forM action) := by
  induction entries with
  | nil => exact pure _
  | cons entry rest induction => exact bind (committed entry) fun _ => induction

theorem onOutput (action : OutputBuffer.Action Unit) : Committed (Writer.onOutput action) := by
  intro writer error after fails
  rcases onOutput_error fails with ⟨cause, _, isSink, _⟩
  rw [isSink]
  rfl

end Committed

theorem RefusesValue.committed {special : SpecialAttribute} {error : WriterError}
    (refuses : RefusesValue special error) : error.isRefusal = false := by
  cases refuses <;> rfl

theorem committed_modifyTop (change : OpenElement → OpenElement) : Committed (modifyTop change) :=
  .change _

theorem committed_emit (markup : String) : Committed (emit markup) := .onOutput _

theorem committed_emitQuote : Committed emitQuote := .get_bind fun _ => committed_emit _

theorem committed_emitEscaped (position : TextPosition) (text : String) :
    Committed (emitEscaped position text) :=
  .forM _ committed_emit

theorem committed_emitText (text : String) : Committed (emitText text) :=
  .bind (.change _) fun _ => .get_bind fun _ => committed_emitEscaped _ text

theorem committed_emitVerbatim (text : String) : Committed (emitVerbatim text) :=
  .bind (.change _) fun _ => committed_emit text

theorem committed_emitEntity (name : String) : Committed (emitEntity name) :=
  .bind (.change _) fun _ => .bind (committed_emit _) fun _ => .bind (committed_emit _) fun _ =>
    committed_emit _

theorem committed_emitCharacter (character : Char) : Committed (emitCharacter character) :=
  .bind (.change _) fun _ => committed_emit _

theorem committed_finishPayload : Committed finishPayload := by
  refine .get_bind fun writer => .ite ?_ (.pure _)
  exact .bind (.change _) fun _ => .bind (committed_emitVerbatim _) fun _ => .change _

theorem committed_indent (beforeEnd : Bool) : Committed (indent beforeEnd) :=
  .get_bind fun _ => .ite (committed_emit _) (.ite (committed_emit _) (.pure _))

theorem committed_indentNext : Committed indentNext :=
  .get_bind fun _ => .ite (committed_indent false) (.pure _)

theorem committed_emitDeclaration (quote : Quote) (binding : Binding) :
    Committed (emitDeclaration quote binding) :=
  .bind (committed_emit _) fun _ => .bind (committed_emitEscaped _ _) fun _ =>
    .bind (committed_emit _) fun _ => .bind (committed_emit _) fun _ =>
      .bind (committed_emitEscaped _ _) fun _ => committed_emit _

theorem committed_emitDefaultDeclaration (quote : Quote) :
    Committed (emitDefaultDeclaration quote) := by
  apply Committed.get_bind
  intro writer
  apply Committed.ite _ (.pure _)
  exact .bind (committed_emit _) fun _ => .bind (committed_emit _) fun _ =>
    .bind (committed_emitEscaped _ _) fun _ => .bind (committed_emit _) fun _ =>
      committed_modifyTop _

theorem committed_closeStartTag (isEmpty : Bool) : Committed (closeStartTag isEmpty) := by
  apply Committed.get_bind
  intro writer
  apply Committed.bind (.forM _ fun _ => committed_emitDeclaration _ _)
  intro _
  exact .bind (.change _) fun _ => .bind (committed_emitDefaultDeclaration _) fun _ =>
    committed_emit _

theorem committed_closeValue : Committed closeValue := by
  apply Committed.get_bind
  intro writer
  cases writer.special with
  | none => exact committed_emitQuote
  | some special =>
      have applies : Committed (applySpecial special) := fun _ _ _ fails =>
        (applySpecial_error fails).1.committed
      exact .bind (.change _) fun _ => .bind applies fun _ => committed_emitQuote

theorem committed_closeOpenTag : Committed closeOpenTag := by
  apply Committed.get_bind
  intro writer
  split
  · exact .bind committed_closeValue fun _ => committed_closeStartTag false
  · exact committed_closeStartTag false
  · exact .pure _

theorem committed_makeRoom (token : Token) (next : Phase) : Committed (makeRoom token next) := by
  apply Committed.get_bind
  intro writer
  cases token with
  | doctype => exact .bind committed_indentNext fun _ => .pure _
  | startElement | comment | processingInstruction =>
      exact .bind committed_closeOpenTag fun _ => .bind committed_indentNext fun _ => .pure _
  | cdata =>
      exact .bind committed_closeOpenTag fun _ => .bind (committed_modifyTop _) fun _ => .pure _
  | endElement | separateEnd =>
      exact .when committed_closeValue
        (.ite (.pure _) (.bind (committed_closeStartTag _) fun _ => .pure _))
  | startAttribute =>
      exact .when committed_closeValue (.when (committed_emit _) (.pure _))
  | endAttribute => exact .bind committed_closeValue fun _ => .pure _
  | text | base64 | raw | whitespace =>
      exact .when (committed_closeStartTag false) (.when (committed_modifyTop _) (.pure _))

theorem committed_advance {token : Token} {next : Phase} {error : WriterError}
    (leads : before.nextPhase? token = some next)
    (fails : advance token before = .error error after) : error.isRefusal = false := by
  simp only [advance, bind_eq_error, get_eq_error, false_or, get_eq_ok] at fails
  rcases fails with ⟨_, _, ⟨rfl, rfl⟩, fails⟩
  simp only [leads] at fails
  have rest : Committed (do
      let written ← makeRoom token next
      modify fun writer : Writer => { writer with phase := next, lastToken := some written }) :=
    .bind (committed_makeRoom token next) fun _ => .change _
  have all : Committed (do
      if token ≠ .base64 then finishPayload
      let written ← makeRoom token next
      modify fun writer : Writer => { writer with phase := next, lastToken := some written }) :=
    .when committed_finishPayload rest
  exact all fails

/-- Only a token that cannot stand here is refused, before anything is done. -/
theorem advance_refused {token : Token} {error : WriterError} (refused : error.isRefusal = true)
    (fails : advance token before = .error error after) :
    before.nextPhase? token = none ∧ before = after := by
  cases leads : before.nextPhase? token with
  | none =>
      simp only [advance, bind_eq_error, get_eq_error, false_or, get_eq_ok] at fails
      rcases fails with ⟨_, _, ⟨rfl, rfl⟩, fails⟩
      simp only [leads, throw_eq_error] at fails
      exact ⟨rfl, fails.2⟩
  | some next =>
      rw [committed_advance leads fails] at refused
      cases refused

theorem advance_of_failed {token : Token} (failed : before.phase = .failed) :
    advance token before = .error (.misplaced token .failed) before := by
  have cannot : before.nextPhase? token = none := by
    have nowhere : before.mode.next? token .failed = none := by
      cases before.mode <;> cases token <;> rfl
    simp [nextPhase?, failed, nowhere]
  cases result : advance token before with
  | ok _ after => exact (advance_failed failed result).elim
  | error error after =>
      simp only [advance, bind_eq_error, get_eq_error, false_or, get_eq_ok] at result
      rcases result with ⟨_, _, ⟨rfl, rfl⟩, result⟩
      simp only [cannot, throw_eq_error, failed] at result
      rw [result.1, result.2]

/-! ## Names -/

theorem committed_bind (nsPrefix : Option String) (uri : String) (declared : Bool) :
    Committed (Writer.bind nsPrefix uri declared) :=
  fun _ _ _ fails => (bind_error fails).1.committed

theorem committed_bindDefault (uri : String) (declared : Bool) :
    Committed (bindDefault uri declared) :=
  committed_bind none uri declared

theorem committed_bindPrefix (nsPrefix uri : String) (declared : Bool) :
    Committed (bindPrefix nsPrefix uri declared) :=
  committed_bind (some nsPrefix) uri declared

theorem committed_checkSpelling (nsPrefix uri : String) : Committed (checkSpelling nsPrefix uri) :=
  .ite (.throw rfl) (.pure _)

theorem committed_checkBound (nsPrefix : String) : Committed (checkBound nsPrefix) :=
  .get_bind fun _ => .ite (.throw rfl) (.pure _)

theorem committed_makePrefix : Committed makePrefix :=
  .get_bind fun _ => .bind (committed_modifyTop _) fun _ => .pure _

theorem committed_elementPrefixFor (nsPrefix : Option String) (uri : String) :
    Committed (elementPrefixFor nsPrefix uri) := by
  have joins : Committed (do bindDefault uri false; return none : Action (Option String)) :=
    .bind (committed_bindDefault uri false) fun _ => .pure _
  unfold elementPrefixFor
  split
  · apply Committed.get_bind
    intro writer
    cases writer.bindings.findPrefix? uri with
    | none => exact joins
    | some found => exact .pure _
  · exact joins
  · exact .when (.throw rfl) (.bind (committed_checkSpelling _ uri) fun _ =>
      .bind (committed_bindPrefix _ uri false) fun _ => .pure _)

theorem committed_elementPrefix (request : NameRequest) : Committed (elementPrefix request) := by
  apply Committed.get_bind
  intro writer
  apply Committed.ite (.pure _)
  cases request.uri with
  | some uri => exact committed_elementPrefixFor _ uri
  | none =>
      dsimp only
      cases nonEmpty? request.nsPrefix with
      | none => exact .pure _
      | some nsPrefix => exact .bind (committed_checkBound nsPrefix) fun _ => .pure _

theorem committed_checkOwnNamespace (nsPrefix own : String) (uri : Option String) :
    Committed (checkOwnNamespace nsPrefix own uri) := by
  unfold checkOwnNamespace
  cases nonEmpty? uri with
  | none => exact .pure _
  | some uri => exact .ite (.throw rfl) (.pure _)

theorem committed_attributePrefixFor (nsPrefix : Option String) (uri : String) :
    Committed (attributePrefixFor nsPrefix uri) := by
  unfold attributePrefixFor
  cases nsPrefix
  case' some nsPrefix => refine .bind (committed_checkSpelling nsPrefix uri) fun _ => ?_
  all_goals
    apply Committed.get_bind
    intro writer
    apply Committed.when (.throw rfl)
    dsimp only
    split
    · exact .pure _
    · exact .bind committed_makePrefix fun _ =>
        .bind (committed_bindPrefix _ uri false) fun _ => .pure _
    · exact .when (committed_bindPrefix _ uri false) (.pure _)

theorem committed_ordinaryPrefix (nsPrefix uri : Option String) :
    Committed (ordinaryPrefix nsPrefix uri) := by
  unfold ordinaryPrefix
  split
  · cases nsPrefix with
    | none => exact .pure _
    | some nsPrefix => exact .bind (committed_checkBound nsPrefix) fun _ => .pure _
  · exact .pure _
  · exact .bind (committed_attributePrefixFor nsPrefix _) fun _ => .pure _

theorem committed_attributeRole (request : NameRequest) : Committed (attributeRole request) := by
  apply Committed.get_bind
  intro writer
  apply Committed.ite (.pure _)
  dsimp only
  split
  · exact .bind (committed_checkOwnNamespace _ _ _) fun _ => .pure _
  · exact .bind (committed_checkOwnNamespace _ _ _) fun _ => .pure _
  · exact .ite (.bind (committed_checkOwnNamespace _ _ _) fun _ => .pure _)
      (.bind (committed_ordinaryPrefix _ _) fun _ => .pure _)

theorem committed_textPrefixFor (uri : String) : Committed (textPrefixFor uri) := by
  apply Committed.get_bind
  intro writer
  cases writer.bindings.findPrefix? uri with
  | some found => exact .pure _
  | none =>
      exact .when (.throw rfl) (.bind committed_makePrefix fun _ =>
        .bind (committed_bindPrefix _ uri false) fun _ => .pure _)

end Writer

end XmlStream
