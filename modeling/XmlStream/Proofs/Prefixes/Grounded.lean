import Mathlib.Data.List.Infix
import XmlStream.Proofs.Bindings.Search
import XmlStream.Proofs.Namespaces.Pledges
import XmlStream.Proofs.Output.Script
import XmlStream.Proofs.Simulation.Naming

namespace XmlStream

/-! Every prefix that occurs in the start tag of an open element is bound there. No action undoes
this, whether it succeeds or fails, so it holds of every writer and at every point of a call. -/

/-- The prefixes that occur in the start tag of an element, but for the reserved ones. -/
def OpenElement.prefixes (element : OpenElement) : List String :=
  element.nsPrefix.toList ++ element.usedPrefixes

/-- The prefixes of each element are among those that are bound in it. The elements are innermost
first, and what is bound in the one around was bound before this one was opened. -/
def GroundedIn : (bound : List String) → List OpenElement → Prop
  | _, [] => True
  | bound, element :: outer =>
    (∀ nsPrefix ∈ element.prefixes, nsPrefix ∈ bound) ∧
      GroundedIn (bound.take element.bindingMark) outer

theorem GroundedIn.mono {bound more : List String} {opened : List OpenElement}
    (grounded : GroundedIn bound opened) (longer : bound <+: more) : GroundedIn more opened := by
  induction opened generalizing bound more with
  | nil => trivial
  | cons element outer induction =>
      exact ⟨fun nsPrefix member => longer.subset (grounded.1 nsPrefix member),
        induction grounded.2 (List.IsPrefix.take longer element.bindingMark)⟩

namespace Writer

variable {α β : Type} {before after : Writer}

structure Grounded (writer : Writer) : Prop where
  sound : writer.bindings.Sound
  tags : GroundedIn (writer.bindings.scope.map (·.nsPrefix)) writer.elements.opened

namespace Grounded

theorem of_eq (grounded : before.Grounded) (elements : after.elements = before.elements)
    (bindings : after.bindings = before.bindings) : after.Grounded where
  sound := by
    rw [bindings]
    exact grounded.sound
  tags := by
    rw [bindings, elements]
    exact grounded.tags

theorem of_bindings (grounded : before.Grounded) (elements : after.elements = before.elements)
    (sound : after.bindings.Sound) (longer : before.bindings.scope.map (·.nsPrefix) <+:
      after.bindings.scope.map (·.nsPrefix)) : after.Grounded where
  sound := sound
  tags := by
    rw [elements]
    exact grounded.tags.mono longer

theorem modifyTop (grounded : before.Grounded) {change : OpenElement → OpenElement}
    (mark : (change before.top).bindingMark = before.top.bindingMark)
    (bound : ∀ nsPrefix ∈ (change before.top).prefixes, nsPrefix ∈ before.top.prefixes ∨
      nsPrefix ∈ before.bindings.scope.map (·.nsPrefix)) :
    { before with elements := before.elements.modifyTop change }.Grounded := by
  refine ⟨grounded.sound, ?_⟩
  have tags := grounded.tags
  simp only [top, ElementStack.top] at mark bound
  cases found : before.elements.opened with
  | nil => simp [ElementStack.modifyTop, found, GroundedIn]
  | cons innermost outer =>
      simp only [found, List.headD_cons] at tags mark bound
      simp only [ElementStack.modifyTop, found]
      refine ⟨fun nsPrefix member => ?_, by rw [mark]; exact tags.2⟩
      exact (bound nsPrefix member).elim (tags.1 nsPrefix) id

theorem mem_of_top (grounded : before.Grounded) (inside : 0 < before.depth) {nsPrefix : String}
    (occurs : nsPrefix ∈ before.top.prefixes) :
    nsPrefix ∈ before.bindings.scope.map (·.nsPrefix) := by
  have tags := grounded.tags
  simp only [depth, ElementStack.depth] at inside
  simp only [top, ElementStack.top] at occurs
  cases found : before.elements.opened with
  | nil => simp [found] at inside
  | cons innermost outer =>
      rw [found] at tags occurs
      exact tags.1 nsPrefix occurs

theorem prefixInUse_of_free (grounded : before.Grounded) {nsPrefix : String}
    (free : before.bindings.lookup? nsPrefix = none) : before.prefixInUse nsPrefix = false := by
  have unbound := grounded.sound.notMem_of_lookup? free
  have notHere : before.bindings.lookupFrom? before.top.bindingMark nsPrefix = none := by
    rw [grounded.sound.lookup?_eq] at free
    rw [grounded.sound.lookupFrom?_eq, free, Option.filter_none]
  by_contra inUse
  simp only [prefixInUse, notHere, Bool.and_eq_true, Bool.or_eq_true, decide_eq_true_eq,
    beq_iff_eq, List.contains_iff_mem, Option.isSome_none, Bool.false_eq_true, false_or,
    Bool.not_eq_false] at inUse
  obtain ⟨inside, occurs⟩ := inUse
  refine unbound (grounded.mem_of_top inside (List.mem_append.mpr (occurs.imp_left fun named => ?_)))
  rw [named]
  exact List.mem_singleton.mpr rfl

end Grounded

def Grounds (action : Action α) : Prop :=
  ∀ writer, writer.Grounded → EndsIn Grounded (action writer)

namespace Grounds

theorem pure (value : α) : Grounds (Pure.pure value) := fun _ => id

theorem throw (error : WriterError) : Grounds (MonadExcept.throw error : Action α) := fun _ => id

theorem of_ok {action : Action α} {value : α} (grounds : Grounds action) (grounded : before.Grounded)
    (ok : action before = .ok value after) : after.Grounded := by
  have ends := grounds before grounded
  rw [ok] at ends
  exact ends

theorem bind {action : Action α} {next : α → Action β} (grounds : Grounds action)
    (later : ∀ value, Grounds (next value)) : Grounds (action >>= next) :=
  fun writer grounded => endsIn_bind (grounds writer grounded) fun value => later value

theorem bind_of {action : Action α} {next : α → Action β} (grounds : Grounds action)
    (later : ∀ writer value middle, writer.Grounded → action writer = .ok value middle →
      middle.Grounded → EndsIn Grounded (next value middle)) : Grounds (action >>= next) := by
  intro writer grounded
  have ends := grounds writer grounded
  cases does : action writer with
  | ok value middle =>
      rw [does] at ends
      simp only [Bind.bind, EStateM.bind, does]
      exact later writer value middle grounded does ends
  | error error middle =>
      rw [does] at ends
      simp only [Bind.bind, EStateM.bind, does]
      exact ends

theorem get_bind_of {next : Writer → Action α}
    (later : ∀ writer : Writer, writer.Grounded → EndsIn Grounded (next writer writer)) :
    Grounds (get >>= next) :=
  later

theorem get_bind {next : Writer → Action α} (later : ∀ writer, Grounds (next writer)) :
    Grounds (get >>= next) :=
  fun writer => later writer writer

theorem change {update : Writer → Writer}
    (kept : ∀ writer : Writer, writer.Grounded → (update writer).Grounded) :
    Grounds (modify update) :=
  kept

theorem change_other {update : Writer → Writer}
    (elements : ∀ writer, (update writer).elements = writer.elements)
    (bindings : ∀ writer, (update writer).bindings = writer.bindings) : Grounds (modify update) :=
  .change fun writer grounded => grounded.of_eq (elements writer) (bindings writer)

theorem ite {condition : Prop} [Decidable condition] {action other : Action α}
    (grounds : Grounds action) (otherwise : Grounds other) :
    Grounds (if condition then action else other) := by
  split
  · exact grounds
  · exact otherwise

theorem when {condition : Prop} [Decidable condition] {action : Action PUnit}
    {next : PUnit → Action β} (grounds : Grounds action) (later : Grounds (next ⟨⟩)) :
    Grounds (if condition then action >>= next else next ⟨⟩) :=
  .ite (.bind grounds fun _ => later) later

theorem forM {γ : Type} (entries : List γ) {action : γ → Action PUnit}
    (grounds : ∀ entry, Grounds (action entry)) : Grounds (entries.forM action) := by
  induction entries with
  | nil => exact pure _
  | cons entry rest induction => exact bind (grounds entry) fun _ => induction

theorem tryCatch {action : Action α} {handler : WriterError → Action α} (grounds : Grounds action)
    (handles : ∀ error, Grounds (handler error)) :
    Grounds (MonadExcept.tryCatch action handler) := by
  intro writer grounded
  have ends := grounds writer grounded
  rw [tryCatch_run]
  cases does : action writer with
  | ok value after =>
      rw [does] at ends
      exact ends
  | error error middle =>
      rw [does] at ends
      exact handles error middle ends

theorem onOutput (action : OutputBuffer.Action Unit) : Grounds (Writer.onOutput action) := by
  intro writer grounded
  unfold Writer.onOutput
  split <;> exact grounded.of_eq rfl rfl

theorem guarded {call : Action Unit} (grounds : Grounds call) : Grounds (Writer.guarded call) := by
  intro writer grounded
  have ends := grounds writer grounded
  unfold Writer.guarded
  split
  · exact grounded
  · generalize call writer = result at ends ⊢
    cases result with
    | ok _ after => exact ends
    | error error after => exact Grounded.of_eq ends rfl rfl

theorem modifyTop {change : OpenElement → OpenElement}
    (mark : ∀ element, (change element).bindingMark = element.bindingMark)
    (prefixes : ∀ element, (change element).prefixes = element.prefixes) :
    Grounds (Writer.modifyTop change) :=
  .change fun writer grounded => grounded.modifyTop (mark writer.top) fun nsPrefix member => by
    rw [prefixes] at member
    exact .inl member

end Grounds

/-! ## Text -/

/-- One writer comes from another one by writing: its elements and bindings are the same. -/
structure Untouched (before after : Writer) : Prop where
  elements : after.elements = before.elements
  bindings : after.bindings = before.bindings

theorem Untouched.grounded (untouched : before.Untouched after) (grounded : before.Grounded) :
    after.Grounded :=
  grounded.of_eq untouched.elements untouched.bindings

theorem Grounds.of_untouched {action : Action α}
    (untouched : ∀ writer, EndsIn writer.Untouched (action writer)) : Grounds action := by
  intro writer grounded
  have ends := untouched writer
  generalize action writer = result at ends ⊢
  cases result <;> exact Untouched.grounded ends grounded

theorem endsIn_bind_untouched {Holds : Writer → Prop} {action : Action α} {next : α → Action β}
    (ends : EndsIn before.Untouched (action before))
    (later : ∀ value middle, before.Untouched middle → EndsIn Holds (next value middle))
    (kept : ∀ middle, before.Untouched middle → Holds middle) :
    EndsIn Holds ((action >>= next) before) := by
  simp only [Bind.bind, EStateM.bind]
  generalize action before = result at ends ⊢
  cases result with
  | ok value middle => exact later value middle ends
  | error error middle => exact kept middle ends

theorem Untouched.trans {first second third : Writer} (earlier : first.Untouched second)
    (later : second.Untouched third) : first.Untouched third :=
  ⟨later.elements.trans earlier.elements, later.bindings.trans earlier.bindings⟩

theorem untouched_bind {action : Action α} {next : α → Action β}
    (untouched : ∀ writer, EndsIn writer.Untouched (action writer))
    (later : ∀ value writer, EndsIn writer.Untouched (next value writer)) (writer : Writer) :
    EndsIn writer.Untouched ((action >>= next) writer) := by
  refine endsIn_bind_untouched (untouched writer) (fun value middle earlier => ?_) fun _ => id
  have ends := later value middle
  generalize next value middle = result at ends ⊢
  cases result <;> exact earlier.trans ends

theorem untouched_emit (markup : String) (writer : Writer) :
    EndsIn writer.Untouched (emit markup writer) := by
  unfold emit onOutput
  split <;> exact ⟨rfl, rfl⟩

theorem untouched_emitEscaped (position : TextPosition) (text : String) (writer : Writer) :
    EndsIn writer.Untouched (emitEscaped position text writer) := by
  unfold emitEscaped
  induction position.pieces text generalizing writer with
  | nil => exact ⟨rfl, rfl⟩
  | cons piece rest induction => exact untouched_bind (untouched_emit piece) (fun _ => induction) writer

theorem untouched_emitText (text : String) (writer : Writer) :
    EndsIn writer.Untouched (emitText text writer) := by
  have captures (writer : Writer) : EndsIn writer.Untouched (capture text writer) := ⟨rfl, rfl⟩
  exact untouched_bind captures
    (fun _ middle => untouched_emitEscaped middle.textPosition text middle) writer

theorem grounds_report (event : LogEvent) : Grounds (report event) :=
  .change_other (fun _ => rfl) fun _ => rfl

theorem grounds_emit (markup : String) : Grounds (emit markup) := .of_untouched (untouched_emit markup)

theorem grounds_emitQuote : Grounds emitQuote := .get_bind fun _ => grounds_emit _

theorem grounds_emitEscaped (position : TextPosition) (text : String) :
    Grounds (emitEscaped position text) :=
  .of_untouched (untouched_emitEscaped position text)

theorem grounds_capture (text : String) : Grounds (capture text) :=
  .change_other (fun _ => rfl) fun _ => rfl

theorem grounds_emitText (text : String) : Grounds (emitText text) :=
  .of_untouched (untouched_emitText text)

theorem grounds_emitVerbatim (text : String) : Grounds (emitVerbatim text) :=
  .bind (grounds_capture text) fun _ => grounds_emit text

theorem grounds_emitEntity (name : String) : Grounds (emitEntity name) :=
  .bind (grounds_capture _) fun _ => .bind (grounds_emit _) fun _ => .bind (grounds_emit _) fun _ =>
    grounds_emit _

theorem grounds_emitCharacter (character : Char) : Grounds (emitCharacter character) :=
  .bind (grounds_capture _) fun _ => grounds_emit _

/-! ## Namespaces -/

theorem grounds_checkSpelling (nsPrefix uri : String) : Grounds (checkSpelling nsPrefix uri) :=
  .ite (.throw _) (.pure _)

theorem grounds_checkReserved (nsPrefix : Option String) (uri : String) :
    Grounds (checkReserved nsPrefix uri) :=
  .ite (.throw _) (.pure _)

theorem grounds_pushBinding (nsPrefix uri : String) (declared : Bool) :
    Grounds (pushBinding nsPrefix uri declared) := by
  refine .get_bind_of fun writer grounded => ?_
  have pushes : EndsIn Grounded ((modify fun other =>
      { other with bindings := writer.bindings.push nsPrefix uri declared } : Action PUnit) writer) := by
    refine grounded.of_bindings rfl (grounded.sound.push _ _ _) ?_
    simp only [Bindings.scope_push, List.map_append]
    exact List.prefix_append _ _
  exact endsIn_bind pushes fun _ => Grounds.ite (grounds_report _) (.pure _)

theorem grounds_bindDefault (uri : String) (declared : Bool) : Grounds (bindDefault uri declared) :=
  .bind (grounds_checkReserved none uri) fun _ => .get_bind fun _ =>
    .ite (.throw _) (.modifyTop (fun _ => rfl) fun _ => rfl)

theorem Grounded.setDeclared (grounded : before.Grounded) (position : Nat) :
    { before with bindings := before.bindings.setDeclared position }.Grounded := by
  refine grounded.of_bindings rfl (grounded.sound.setDeclared position) ?_
  simp only [Bindings.scope_setDeclared, Scope.map_nsPrefix_declare]
  exact List.prefix_refl _

theorem grounds_bindPrefix (nsPrefix uri : String) (declared : Bool) :
    Grounds (bindPrefix nsPrefix uri declared) := by
  refine .bind (grounds_checkReserved _ uri) fun _ => .ite (.throw _) ?_
  refine .get_bind_of fun writer grounded => ?_
  cases writer.bindings.boundTo? nsPrefix uri with
  | some position =>
      cases declared with
      | true => exact grounded.setDeclared position
      | false => exact grounded
  | none => exact Grounds.ite (.throw _) (grounds_pushBinding nsPrefix uri declared) writer grounded

theorem grounds_bind (nsPrefix : Option String) (uri : String) (declared : Bool) :
    Grounds (bind nsPrefix uri declared) := by
  cases nsPrefix with
  | none => exact grounds_bindDefault uri declared
  | some nsPrefix => exact grounds_bindPrefix nsPrefix uri declared

theorem grounds_makePrefix : Grounds makePrefix :=
  .get_bind fun _ => .bind (.modifyTop (fun _ => rfl) fun _ => rfl) fun _ => .pure _

/-! ## Completions -/

theorem grounds_finishPayload : Grounds finishPayload := by
  refine .get_bind fun writer => .ite ?_ (.pure _)
  exact .bind (.change_other (fun _ => rfl) fun _ => rfl) fun _ =>
    .bind (grounds_emitVerbatim _) fun _ => .change_other (fun _ => rfl) fun _ => rfl

theorem grounds_indent (beforeEnd : Bool) : Grounds (indent beforeEnd) :=
  .get_bind fun _ => .ite (grounds_emit _) (.ite (grounds_emit _) (.pure _))

theorem grounds_indentNext : Grounds indentNext :=
  .get_bind fun _ => .ite (grounds_indent false) (.pure _)

theorem grounds_markMixed : Grounds markMixed := .modifyTop (fun _ => rfl) fun _ => rfl

theorem grounds_emitDeclaration (quote : Quote) (binding : Binding) :
    Grounds (emitDeclaration quote binding) :=
  .bind (grounds_emit _) fun _ => .bind (grounds_emitEscaped _ _) fun _ =>
    .bind (grounds_emit _) fun _ => .bind (grounds_emit _) fun _ =>
      .bind (grounds_emitEscaped _ _) fun _ => grounds_emit _

theorem grounds_emitDefaultDeclaration (quote : Quote) :
    Grounds (emitDefaultDeclaration quote) := by
  refine .get_bind fun _ => .ite ?_ (.pure _)
  exact .bind (grounds_emit _) fun _ => .bind (grounds_emit _) fun _ =>
    .bind (grounds_emitEscaped _ _) fun _ => .bind (grounds_emit _) fun _ =>
      .modifyTop (fun _ => rfl) fun _ => rfl

theorem Grounded.foldl_setDeclared (grounded : before.Grounded) (owed : List (Nat × Binding)) :
    { before with
      bindings := owed.foldl
        (fun (bindings : Bindings) (entry : Nat × Binding) => bindings.setDeclared entry.1)
        before.bindings }.Grounded := by
  induction owed generalizing before with
  | nil => exact grounded
  | cons entry rest induction => exact induction (grounded.setDeclared entry.1)

theorem grounds_closeStartTag (isEmpty : Bool) : Grounds (closeStartTag isEmpty) :=
  .get_bind fun _ => .bind (.forM _ fun _ => grounds_emitDeclaration _ _) fun _ =>
    .bind (.change fun _ grounded => grounded.foldl_setDeclared _) fun _ =>
      .bind (grounds_emitDefaultDeclaration _) fun _ => grounds_emit _

theorem grounds_applySpecial (special : SpecialAttribute) : Grounds (applySpecial special) := by
  rcases special with ⟨kind, value⟩
  cases kind with
  | language => exact .modifyTop (fun _ => rfl) fun _ => rfl
  | space =>
      simp only [applySpecial]
      cases spaceHandling? value with
      | some space => exact .modifyTop (fun _ => rfl) fun _ => rfl
      | none => exact .throw _
  | declaration nsPrefix =>
      have binds : Grounds (do if (← get).depth > 0 then bind nsPrefix value true) :=
        .get_bind fun _ => .ite (grounds_bind nsPrefix value true) (.pure _)
      cases nsPrefix with
      | none => exact binds
      | some nsPrefix => exact .bind (grounds_checkSpelling nsPrefix value) fun _ => binds

theorem grounds_closeValue : Grounds closeValue := by
  refine .get_bind fun writer => ?_
  cases writer.special with
  | none => exact grounds_emitQuote
  | some special =>
      exact .bind (.change_other (fun _ => rfl) fun _ => rfl) fun _ =>
        .bind (grounds_applySpecial special) fun _ => grounds_emitQuote

theorem grounds_closeOpenTag : Grounds closeOpenTag := by
  refine .get_bind fun writer => ?_
  split
  · exact .bind grounds_closeValue fun _ => grounds_closeStartTag false
  · exact grounds_closeStartTag false
  · exact .pure _

theorem grounds_makeRoom (token : Token) (next : Phase) : Grounds (makeRoom token next) := by
  refine .get_bind fun _ => ?_
  cases token with
  | doctype => exact .bind grounds_indentNext fun _ => .pure _
  | startElement | comment | processingInstruction =>
      exact .bind grounds_closeOpenTag fun _ => .bind grounds_indentNext fun _ => .pure _
  | cdata => exact .bind grounds_closeOpenTag fun _ => .bind grounds_markMixed fun _ => .pure _
  | endElement | separateEnd =>
      exact .when grounds_closeValue
        (.ite (.pure _) (.bind (grounds_closeStartTag _) fun _ => .pure _))
  | startAttribute => exact .when grounds_closeValue (.when (grounds_emit _) (.pure _))
  | endAttribute => exact .bind grounds_closeValue fun _ => .pure _
  | text | base64 | raw | whitespace =>
      exact .when (grounds_closeStartTag _) (.when grounds_markMixed (.pure _))

theorem grounds_advance (token : Token) : Grounds (advance token) := by
  refine .get_bind fun writer => ?_
  cases writer.nextPhase? token with
  | none => exact .throw _
  | some next =>
      refine .when grounds_finishPayload (.bind (grounds_makeRoom token next) fun written => ?_)
      exact .change_other (fun _ => rfl) fun _ => rfl

end Writer

end XmlStream
