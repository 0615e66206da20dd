import XmlStream.Proofs.Reset.Mirror
import XmlStream.Proofs.Simulation.Completing

namespace XmlStream

/-! Most calls can be made while a value is being written, and complete it first. It is the same as if
the value had been ended by a call of its own. -/

namespace Writer

variable {α β : Type} {before middle after : Writer}

/-! ## What follows a value -/

def Level (first second : Writer) : Prop :=
  ∃ phase lastToken, second = { first with phase, lastToken } ∧ first.phase ≠ .start ∧
    phase ≠ .start

theorem level_change {update : Writer → Writer}
    (keeps : ∀ writer phase lastToken, update { writer with phase, lastToken } =
      { update writer with phase, lastToken })
    (stays : ∀ writer, (update writer).phase = writer.phase) :
    Mirrors Level (modify update : Action Unit) (modify update) := by
  apply Mirrors.change
  rintro first second ⟨phase, lastToken, rfl, begun, begunToo⟩
  exact ⟨phase, lastToken, keeps first phase lastToken, by rwa [stays], begunToo⟩

theorem level_modifyTop (change : OpenElement → OpenElement) :
    Mirrors Level (modifyTop change) (modifyTop change) :=
  level_change (fun _ _ _ => rfl) fun _ => rfl

theorem level_emit (markup : String) : Mirrors Level (emit markup) (emit markup) := by
  rintro first second ⟨phase, lastToken, rfl, begun, begunToo⟩
  simp only [emit, onOutput]
  cases OutputBuffer.write markup first.output with
  | ok nothing output => exact .ok _ ⟨phase, lastToken, rfl, begun, begunToo⟩
  | error cause output => exact .error _ ⟨phase, lastToken, rfl, begun, begunToo⟩

theorem level_emitEscaped (position : TextPosition) (text : String) :
    Mirrors Level (emitEscaped position text) (emitEscaped position text) :=
  .forM _ level_emit

theorem level_emitDeclaration (quote : Quote) (binding : Binding) :
    Mirrors Level (emitDeclaration quote binding) (emitDeclaration quote binding) :=
  .bind (level_emit _) fun _ => .bind (level_emitEscaped _ _) fun _ =>
    .bind (level_emit _) fun _ => .bind (level_emit _) fun _ =>
      .bind (level_emitEscaped _ _) fun _ => level_emit _

theorem level_emitDefaultDeclaration (quote : Quote) :
    Mirrors Level (emitDefaultDeclaration quote) (emitDefaultDeclaration quote) := by
  apply Mirrors.get_bind
  rintro first second ⟨phase, lastToken, rfl, _, _⟩
  apply Mirrors.ite _ (.pure _)
  exact .bind (level_emit _) fun _ => .bind (level_emit _) fun _ =>
    .bind (level_emitEscaped _ _) fun _ => .bind (level_emit _) fun _ => level_modifyTop _

theorem level_closeStartTag (isEmpty : Bool) :
    Mirrors Level (closeStartTag isEmpty) (closeStartTag isEmpty) := by
  apply Mirrors.get_bind
  rintro first second ⟨phase, lastToken, rfl, _, _⟩
  apply Mirrors.bind (.forM _ fun _ => level_emitDeclaration _ _)
  intro _
  apply Mirrors.bind
  · exact level_change (fun _ _ _ => rfl) fun _ => rfl
  · intro _
    exact .bind (level_emitDefaultDeclaration _) fun _ => level_emit _

theorem level_indent (beforeEnd : Bool) : Mirrors Level (indent beforeEnd) (indent beforeEnd) := by
  apply Mirrors.get_bind
  rintro first second ⟨phase, lastToken, rfl, _, _⟩
  exact .ite (level_emit _) (.ite (level_emit _) (.pure _))

theorem level_indentNext : Mirrors Level indentNext indentNext := by
  apply Mirrors.get_bind
  rintro first second ⟨phase, lastToken, rfl, begun, begunToo⟩
  have same : (decide (first.phase ≠ .start)) = decide (phase ≠ .start) := by simp [begun, begunToo]
  rw [same]
  exact .ite (level_indent false) (.pure _)

def leavesValue : Token → Bool
  | .startElement | .comment | .processingInstruction | .cdata | .endElement | .separateEnd
  | .startAttribute => true
  | _ => false

def leaveTag : Token → Action Unit
  | .startElement | .comment | .processingInstruction => do
    closeStartTag false
    indentNext
  | .cdata => do
    closeStartTag false
    markMixed
  | .endElement => closeStartTag true
  | .separateEnd => closeStartTag false
  | .startAttribute => emit " "
  | _ => return

theorem level_leaveTag (token : Token) : Mirrors Level (leaveTag token) (leaveTag token) := by
  cases token with
  | startElement | comment | processingInstruction =>
      exact .bind (level_closeStartTag false) fun _ => level_indentNext
  | cdata => exact .bind (level_closeStartTag false) fun _ => level_modifyTop _
  | endElement => exact level_closeStartTag true
  | separateEnd => exact level_closeStartTag false
  | startAttribute => exact level_emit " "
  | doctype | endAttribute | text | base64 | raw | whitespace => exact .pure _

def goOn (token : Token) (next : Phase) : Action Unit := do
  leaveTag token
  modify fun writer => { writer with phase := next, lastToken := some token }

/-- What phase a start tag is in does not matter for what follows it. -/
theorem goOn_of_level {token : Token} {next : Phase} (level : before.Level middle)
    (goes : goOn token next before = .ok () after) : goOn token next middle = .ok () after := by
  simp only [goOn, bind_eq_ok, modify_eq_ok] at goes ⊢
  rcases goes with ⟨_, left, leaves, rfl⟩
  have mirrors := level_leaveTag token level
  rw [leaves] at mirrors
  generalize made : leaveTag token middle = result at mirrors
  cases mirrors with
  | ok _ related =>
      rcases related with ⟨phase, lastToken, rfl, _⟩
      exact ⟨_, _, rfl, rfl⟩

theorem Level.symm (level : before.Level middle) : middle.Level before := by
  rcases level with ⟨phase, lastToken, rfl, begun, begunToo⟩
  exact ⟨before.phase, before.lastToken, rfl, begunToo, begun⟩

theorem goOn_level {token : Token} {next : Phase} (level : before.Level middle) :
    goOn token next before = .ok () after ↔ goOn token next middle = .ok () after :=
  ⟨goOn_of_level level, goOn_of_level level.symm⟩

/-! ## Tokens -/

def endValue : Action Unit := do
  finishPayload
  closeValue

theorem nextPhase?_of_value {token : Token} (leaves : leavesValue token = true)
    (inValue : before.phase = .attribute) : ∃ next, before.nextPhase? token = some next := by
  have leads : ∃ next, before.mode.next? token .attribute = some next := by
    cases token <;> cases leaves <;> cases before.mode <;> exact ⟨_, rfl⟩
  rcases leads with ⟨next, leads⟩
  simp only [nextPhase?, inValue, leads]
  split <;> exact ⟨_, rfl⟩

theorem nextPhase?_of_leavesValue {token : Token} (leaves : leavesValue token = true)
    (inValue : before.phase = .attribute) (inTag : middle.phase = .element)
    (mode : middle.mode = before.mode) (depth : middle.depth = before.depth) :
    middle.nextPhase? token = before.nextPhase? token := by
  have leads : before.mode.next? token .element = before.mode.next? token .attribute := by
    cases token <;> cases leaves <;> cases before.mode <;> rfl
  rw [nextPhase?, nextPhase?, inValue, inTag, mode, depth, leads]

theorem makeRoom_of_value {token : Token} (leaves : leavesValue token = true) (next : Phase)
    (inValue : before.phase = .attribute) :
    makeRoom token next before =
      (closeValue >>= fun _ => leaveTag token >>= fun _ => pure token) before := by
  cases token <;> cases leaves <;>
    simp [makeRoom, closeOpenTag, leaveTag, get_bind_eq, inValue, bind_assoc]

theorem makeRoom_of_tag {token : Token} (leaves : leavesValue token = true) (next : Phase)
    (inTag : before.phase = .element) :
    makeRoom token next before = (leaveTag token >>= fun _ => pure token) before := by
  cases token <;> cases leaves <;>
    simp [makeRoom, closeOpenTag, leaveTag, get_bind_eq, inTag, bind_assoc]

theorem advance_eq {token : Token} {next : Phase} (leads : before.nextPhase? token = some next) :
    advance token before = ((if token ≠ .base64 then finishPayload else pure ()) >>= fun _ =>
      makeRoom token next >>= fun written =>
        modify fun writer => { writer with phase := next, lastToken := some written }) before := by
  rw [advance, get_bind_eq, leads]
  dsimp only
  split <;> rfl

theorem endValue_ok (sound : before.bindings.Sound) (inValue : before.phase = .attribute)
    (ends : endValue before = .ok () after) : before.Keeps after ∧ after.payload = none := by
  rw [endValue, bind_eq_ok] at ends
  rcases ends with ⟨_, paid, finished, closed⟩
  rcases finishPayload_ok finished with ⟨_, _, pays, noPayload, _⟩
  have leads : paid.mode.next? .endAttribute paid.phase = some .element := by
    rw [pays.keeps.phase, inValue, next?_endAttribute]
  have closes := closeValue_ok (pays.sound sound) noPayload leads closed
  have rest := payload_of_completes closes.path closes.events noPayload
  exact ⟨pays.keeps.trans closes.keeps, rest⟩

theorem advance_of_value {token : Token} {next : Phase} (leaves : leavesValue token = true)
    (inValue : before.phase = .attribute) (leads : before.nextPhase? token = some next) :
    advance token before = .ok () after ↔
      ∃ ended, endValue before = .ok () ended ∧ goOn token next ended = .ok () after := by
  have other : token ≠ .base64 := by
    rintro rfl
    cases leaves
  rw [advance_eq leads, if_pos other]
  simp only [endValue, goOn, bind_eq_ok, modify_eq_ok]
  constructor
  · rintro ⟨_, paid, finished, written, room, made, rfl⟩
    rcases finishPayload_ok finished with ⟨_, _, pays, _⟩
    rw [makeRoom_of_value leaves next (pays.keeps.phase.trans inValue)] at made
    simp only [bind_eq_ok, pure_eq_ok] at made
    rcases made with ⟨_, valued, closed, _, _, left, rfl, rfl⟩
    exact ⟨valued, ⟨_, paid, finished, closed⟩, _, _, left, rfl⟩
  · rintro ⟨valued, ⟨_, paid, finished, closed⟩, _, room, left, rfl⟩
    rcases finishPayload_ok finished with ⟨_, _, pays, _⟩
    have made : makeRoom token next paid = .ok token room := by
      rw [makeRoom_of_value leaves next (pays.keeps.phase.trans inValue)]
      simp only [bind_eq_ok, pure_eq_ok]
      exact ⟨_, valued, closed, _, room, left, trivial, rfl⟩
    exact ⟨_, paid, finished, token, room, made, rfl⟩

theorem advance_of_tag {token : Token} {next : Phase} (leaves : leavesValue token = true)
    (inTag : before.phase = .element) (noPayload : before.payload = none)
    (leads : before.nextPhase? token = some next) :
    advance token before = .ok () after ↔ goOn token next before = .ok () after := by
  have other : token ≠ .base64 := by
    rintro rfl
    cases leaves
  have nothing := finishPayload_of_none noPayload
  have made : makeRoom token next before = (leaveTag token >>= fun _ => pure token) before :=
    makeRoom_of_tag leaves next inTag
  rw [advance_eq leads, if_pos other, goOn]
  simp only [bind_eq_ok, modify_eq_ok]
  constructor
  · rintro ⟨_, paid, finished, written, room, makes, rfl⟩
    rw [nothing] at finished
    cases finished
    rw [made] at makes
    simp only [bind_eq_ok, pure_eq_ok] at makes
    rcases makes with ⟨_, _, left, rfl, rfl⟩
    exact ⟨_, _, left, rfl⟩
  · rintro ⟨_, room, left, rfl⟩
    have makes : makeRoom token next before = .ok token room := by
      rw [made]
      simp only [bind_eq_ok, pure_eq_ok]
      exact ⟨_, room, left, trivial, rfl⟩
    exact ⟨_, before, nothing, token, room, makes, rfl⟩

theorem advance_endAttribute (inValue : before.phase = .attribute) :
    advance .endAttribute before = .ok () after ↔
      ∃ ended, endValue before = .ok () ended ∧
        after = { ended with phase := .element, lastToken := some .endAttribute } := by
  have leads : before.nextPhase? .endAttribute = some .element := by
    simp [nextPhase?, inValue, next?_endAttribute]
  have makes (writer : Writer) : makeRoom .endAttribute .element writer =
      (closeValue >>= fun _ => pure Token.endAttribute) writer := rfl
  rw [advance_eq leads, if_pos (by simp)]
  simp only [endValue, bind_eq_ok, modify_eq_ok, makes, pure_eq_ok]
  constructor
  · rintro ⟨_, paid, finished, written, room, ⟨_, _, closed, rfl, rfl⟩, rfl⟩
    exact ⟨_, ⟨_, paid, finished, closed⟩, rfl⟩
  · rintro ⟨ended, ⟨_, paid, finished, closed⟩, rfl⟩
    exact ⟨_, paid, finished, .endAttribute, ended, ⟨_, ended, closed, rfl, rfl⟩, rfl⟩

/-- Going on from a value is the same as ending it and going on from there. -/
theorem advance_via_endAttribute {token : Token} (leaves : leavesValue token = true)
    (sound : before.bindings.Sound) (inValue : before.phase = .attribute) :
    advance token before = .ok () after ↔
      ∃ middle, advance .endAttribute before = .ok () middle ∧
        advance token middle = .ok () after := by
  rcases nextPhase?_of_value leaves inValue with ⟨next, leads⟩
  rw [advance_of_value leaves inValue leads]
  have sameFrom {ended : Writer} (ends : endValue before = .ok () ended) :
      goOn token next ended = .ok () after ↔
        advance token { ended with phase := .element, lastToken := some .endAttribute } =
          .ok () after := by
    rcases endValue_ok sound inValue ends with ⟨keeps, noPayload⟩
    let inTag : Writer := { ended with phase := .element, lastToken := some .endAttribute }
    have sameMode : inTag.mode = before.mode := keeps.mode
    have sameDepth : inTag.depth = before.depth := keeps.depth
    have leadsToo : inTag.nextPhase? token = some next :=
      (nextPhase?_of_leavesValue leaves inValue rfl sameMode sameDepth).trans leads
    have noPayloadToo : inTag.payload = none := noPayload
    rw [advance_of_tag leaves rfl noPayloadToo leadsToo]
    exact goOn_level ⟨_, _, rfl, by simp [keeps.phase, inValue], by simp⟩
  constructor
  · rintro ⟨ended, ends, goes⟩
    exact ⟨_, (advance_endAttribute inValue).mpr ⟨ended, ends, rfl⟩, (sameFrom ends).mp goes⟩
  · rintro ⟨middle, went, goes⟩
    rcases (advance_endAttribute inValue).mp went with ⟨ended, ends, rfl⟩
    exact ⟨ended, ends, (sameFrom ends).mpr goes⟩

/-! ## Calls -/

def Completing (action : Action α) : Prop :=
  ∀ ⦃before after : Writer⦄ ⦃value : α⦄, before.Ready → before.phase = .attribute →
    (action before = .ok value after ↔
      ∃ middle, advance .endAttribute before = .ok () middle ∧ action middle = .ok value after)

/-- A writer whose value is being written, and what it is when that has been ended. -/
structure ValueEnds (before middle : Writer) : Prop where
  inValue : before.phase = .attribute
  inTag : middle.phase = .element
  settings : middle.settings = before.settings
  mode : middle.mode = before.mode
  depth : middle.depth = before.depth
  payload : middle.payload = none

theorem valueEnds_of_endAttribute (ready : before.Ready) (inValue : before.phase = .attribute)
    (went : advance .endAttribute before = .ok () middle) : before.ValueEnds middle := by
  rcases (advance_endAttribute inValue).mp went with ⟨ended, ends, rfl⟩
  rcases endValue_ok ready.sound.bindings inValue ends with ⟨keeps, noPayload⟩
  exact ⟨inValue, rfl, keeps.settings, keeps.mode, keeps.depth, noPayload⟩

namespace Completing

theorem bind {action : Action α} {next : α → Action β} (completing : Completing action) :
    Completing (action >>= next) := by
  intro before after value ready inValue
  simp only [bind_eq_ok]
  constructor
  · rintro ⟨first, reached, does, rest⟩
    rcases (completing ready inValue).mp does with ⟨middle, went, does⟩
    exact ⟨middle, went, first, reached, does, rest⟩
  · rintro ⟨middle, went, first, reached, does, rest⟩
    exact ⟨first, reached, (completing ready inValue).mpr ⟨middle, went, does⟩, rest⟩

theorem refuse {condition : Prop} [Decidable condition] {error : WriterError}
    {next : β → Action α} {otherwise : Action α} (later : Completing otherwise) :
    Completing (if condition then throw error >>= next else otherwise) := by
  intro before after value ready inValue
  simp only [refuse_bind_eq_ok]
  rw [later ready inValue]
  constructor
  · rintro ⟨allowed, middle, went, does⟩
    exact ⟨middle, went, allowed, does⟩
  · rintro ⟨middle, went, allowed, does⟩
    exact ⟨allowed, middle, went, does⟩

theorem observe {check : Action Unit} {next : Unit → Action α}
    (steady : ∀ ⦃before middle⦄, before.ValueEnds middle →
      ((∃ reached, check before = .ok () reached) ↔ ∃ reached, check middle = .ok () reached))
    (observes : ∀ ⦃before after⦄, check before = .ok () after → before = after)
    (later : Completing (next ())) : Completing (check >>= next) := by
  intro before after value ready inValue
  simp only [bind_eq_ok]
  constructor
  · rintro ⟨_, reached, checked, does⟩
    have same := observes checked
    subst same
    rcases (later ready inValue).mp does with ⟨middle, went, does⟩
    rcases (steady (valueEnds_of_endAttribute ready inValue went)).mp ⟨_, checked⟩ with
      ⟨reached, checkedToo⟩
    have same := observes checkedToo
    subst same
    exact ⟨middle, went, (), middle, checkedToo, does⟩
  · rintro ⟨middle, went, _, reached, checked, does⟩
    have same := observes checked
    subst same
    rcases (steady (valueEnds_of_endAttribute ready inValue went)).mpr ⟨_, checked⟩ with
      ⟨reached, checkedToo⟩
    have same := observes checkedToo
    subst same
    exact ⟨(), before, checkedToo, (later ready inValue).mpr ⟨middle, went, does⟩⟩

theorem get_refuse {condition : Writer → Prop} [∀ writer, Decidable (condition writer)]
    {error : WriterError} {next : β → Action α} {otherwise : Action α}
    (steady : ∀ ⦃before middle⦄, before.ValueEnds middle → (condition before ↔ condition middle))
    (later : Completing otherwise) :
    Completing (get >>= fun writer =>
      if condition writer then throw error >>= next else otherwise) := by
  intro before after value ready inValue
  simp only [get_bind_eq, refuse_bind_eq_ok]
  rw [later ready inValue]
  constructor
  · rintro ⟨allowed, middle, went, does⟩
    have same := steady (valueEnds_of_endAttribute ready inValue went)
    exact ⟨middle, went, by rwa [← same], does⟩
  · rintro ⟨middle, went, allowed, does⟩
    have same := steady (valueEnds_of_endAttribute ready inValue went)
    exact ⟨by rwa [same], middle, went, does⟩

theorem guarded {action : Action Unit} (completing : Completing action) :
    Completing (Writer.guarded action) := by
  have guards {writer last : Writer} {value : Unit} (notClosed : writer.phase ≠ .closed) :
      Writer.guarded action writer = .ok value last ↔ action writer = .ok value last := by
    constructor
    · intro ok
      exact (guarded_ok ok).2
    · intro ok
      rw [Writer.guarded, if_neg notClosed, ok]
  intro before after value ready inValue
  rw [guards (by simp [inValue]), completing ready inValue]
  constructor
  · rintro ⟨middle, went, does⟩
    have inTag := (valueEnds_of_endAttribute ready inValue went).inTag
    exact ⟨middle, went, (guards (by simp [inTag])).mpr does⟩
  · rintro ⟨middle, went, does⟩
    exact ⟨middle, went, (guarded_ok does).2⟩

end Completing

theorem completing_advance {token : Token} (leaves : leavesValue token = true) :
    Completing (advance token) :=
  fun _ _ _ ready inValue => advance_via_endAttribute leaves ready.sound.bindings inValue

theorem completing_checkRequest {request : NameRequest} {next : Unit → Action α}
    (later : Completing (next ())) : Completing (checkRequest request >>= next) := by
  apply Completing.observe _ (fun _ _ ok => (checkRequest_ok ok).1) later
  intro before middle ends
  simp [checkRequest, get_bind_eq, ends.settings]

theorem completing_openElement (request : NameRequest) : Completing (openElement request) :=
  completing_checkRequest (.refuse (.bind (completing_advance rfl)))

theorem completing_openAttribute (request : NameRequest) : Completing (openAttribute request) :=
  completing_checkRequest (.bind (completing_advance rfl))

theorem completing_closeElement (separate : Bool) : Completing (closeElement separate) := by
  apply Completing.get_refuse
  · intro before middle ends
    simp [ends.depth, ends.inValue, ends.inTag]
  · cases separate <;> exact .bind (completing_advance rfl)

theorem completing_putCData (text : String) : Completing (putCData text) :=
  .refuse (.bind (completing_advance rfl))

theorem completing_putComment (text : String) : Completing (putComment text) :=
  .refuse (.bind (completing_advance rfl))

theorem completing_putInstruction (target text : String) : Completing (putInstruction target text) := by
  apply Completing.refuse
  apply Completing.get_refuse
  · intro before middle ends
    simp [ends.mode, ends.inValue, ends.inTag]
  · apply Completing.observe _ (fun _ _ ok => (checkName_ok ok).1)
    · exact .bind (completing_advance rfl)
    · intro before middle ends
      simp [checkName, get_bind_eq, ends.settings]

/-! ## The end of a document -/

theorem advance_of_paid {token : Token} {next : Phase} {paid : Writer} (other : token ≠ .base64)
    (leads : before.nextPhase? token = some next) (finished : finishPayload before = .ok () paid) :
    advance token paid = advance token before := by
  rcases finishPayload_ok finished with ⟨_, _, pays, noPayload, _⟩
  have leadsToo : paid.nextPhase? token = some next := by
    rw [← leads, nextPhase?, nextPhase?, pays.keeps.mode, pays.keeps.phase, pays.keeps.depth]
  rw [advance_eq leads, advance_eq leadsToo, if_pos other]
  simp only [Bind.bind, EStateM.bind, finished, finishPayload_of_none noPayload]

theorem closeElement_of_paid {paid : Writer}
    (inside : before.phase = .attribute ∨ before.phase = .element ∨ before.phase = .content)
    (depth : 0 < before.depth) (finished : finishPayload before = .ok () paid) :
    closeElement false paid = closeElement false before := by
  rcases finishPayload_ok finished with ⟨_, _, pays, _⟩
  rcases nextPhase?_endElement inside with ⟨next, leads⟩
  have same := advance_of_paid (by simp) leads finished
  have some : ¬(before.depth = 0) := by omega
  simp only [closeElement, get_bind_eq, pays.keeps.depth, some, decide_false, Bool.false_and,
    Bool.false_eq_true, if_false]
  simp only [Bind.bind, EStateM.bind, same]

theorem completeAll_of_paid {paid : Writer} (notTop : before.phase ≠ .topAttribute)
    (finished : finishPayload before = .ok () paid) :
    completeAll before = closeElements before.depth paid := by
  rcases finishPayload_ok finished with ⟨_, _, pays, _⟩
  have stillNotTop : paid.phase ≠ .topAttribute := by rwa [pays.keeps.phase]
  simp only [completeAll, Bind.bind, EStateM.bind, finished, get_run, if_neg stillNotTop, pays.keeps.depth]

theorem completeAll_of_inside {paid : Writer}
    (inside : before.phase = .attribute ∨ before.phase = .element ∨ before.phase = .content)
    (depth : 0 < before.depth) (finished : finishPayload before = .ok () paid) :
    completeAll before = closeElements before.depth before := by
  have notTop : before.phase ≠ .topAttribute := by
    rcases inside with phase | phase | phase <;> simp [phase]
  rcases Nat.exists_eq_add_of_lt depth with ⟨count, counts⟩
  rw [completeAll_of_paid notTop finished, counts]
  simp only [closeElements, Bind.bind, EStateM.bind, closeElement_of_paid inside depth finished]

theorem completeAll_ok_of_inside
    (inside : before.phase = .attribute ∨ before.phase = .element ∨ before.phase = .content)
    (depth : 0 < before.depth) :
    completeAll before = .ok () after ↔ closeElements before.depth before = .ok () after := by
  have rest {paid : Writer} := @completeAll_of_inside before paid inside depth
  constructor
  · intro ok
    have finished := ok
    rw [completeAll, bind_eq_ok] at finished
    rcases finished with ⟨_, paid, finished, _⟩
    rwa [← rest finished]
  · intro ok
    have ended := ok
    rcases Nat.exists_eq_add_of_lt depth with ⟨count, counts⟩
    rw [counts, closeElements, bind_eq_ok] at ended
    rcases ended with ⟨_, _, ended, _⟩
    simp only [closeElement, get_bind_eq, refuse_bind_eq_ok, bind_eq_ok] at ended
    rcases ended with ⟨_, _, _, went, _⟩
    rcases advance_ok went with ⟨_, paid, _, _, _, finished, _⟩
    rcases finished with ⟨_, _, finished⟩ | ⟨base64, _⟩
    · rwa [rest finished]
    · cases base64

theorem completing_completeAll : Completing completeAll := by
  intro before after value ready inValue
  have depth : 0 < before.depth := ready.placed.inside (.inr inValue)
  rcases Nat.exists_eq_add_of_lt depth with ⟨count, counts⟩
  rw [Nat.zero_add] at counts
  have closing : Completing (closeElements (count + 1)) := .bind (completing_closeElement false)
  rw [completeAll_ok_of_inside (.inl inValue) depth, counts, closing ready inValue]
  constructor
  · rintro ⟨middle, went, closes⟩
    have ends := valueEnds_of_endAttribute ready inValue went
    refine ⟨middle, went, ?_⟩
    rwa [completeAll_ok_of_inside (.inr (.inl ends.inTag)) (by rwa [ends.depth]), ends.depth, counts]
  · rintro ⟨middle, went, completes⟩
    have ends := valueEnds_of_endAttribute ready inValue went
    refine ⟨middle, went, ?_⟩
    rwa [completeAll_ok_of_inside (.inr (.inl ends.inTag)) (by rwa [ends.depth]), ends.depth, counts]
      at completes

theorem completing_finishDocument : Completing finishDocument := by
  apply Completing.get_refuse
  · intro before middle ends
    simp [ends.inValue, ends.inTag]
  · exact .bind completing_completeAll

end Writer

/-- The calls that complete the value that is being written before they do what they are for. -/
def Call.leavesValue : Call → Bool
  | .startElement _ | .elementString _ _ | .startAttribute _ | .attributeString _ _ | .comment _
  | .cdata _ | .instruction _ _ | .endElement | .fullEndElement | .endDocument => true
  | _ => false

namespace Writer

variable {before : Writer}

theorem completing_perform {call : Call} (leaves : call.leavesValue = true) :
    Completing (perform call) := by
  cases call with
  | startElement request => exact .guarded (completing_openElement request)
  | elementString request value =>
      cases value <;> exact .bind (.guarded (completing_openElement request))
  | startAttribute request => exact .guarded (completing_openAttribute request)
  | attributeString request value => exact .bind (.guarded (completing_openAttribute request))
  | comment text => exact .guarded (completing_putComment text)
  | cdata text => exact .guarded (completing_putCData text)
  | instruction target text => exact .guarded (completing_putInstruction target text)
  | endElement => exact .guarded (completing_closeElement false)
  | fullEndElement => exact .guarded (completing_closeElement true)
  | endDocument => exact .guarded completing_finishDocument
  | _ => cases leaves

theorem step_of_ok {call : Call} {after : Writer} (notQuery : ∀ question, call ≠ .query question)
    (ok : perform call before = .ok () after) : before.step call = (.ok .done, after) := by
  have answers : Writer.call call before = .ok .done after := by
    cases call with
    | query question => exact absurd rfl (notQuery question)
    | _ => exact bind_eq_ok.mpr ⟨_, _, ok, rfl⟩
  rw [step, answers]

/-- A call that leaves a value can be made after the value has been ended just as well: it succeeds
in both cases or in none, with the same answer and the same writer. -/
theorem step_via_endAttribute {call : Call} (leaves : call.leavesValue = true)
    (ready : before.Ready) (inValue : before.phase = .attribute) :
    ((before.step call).1.isOk = true ↔
      (before.step .endAttribute).1.isOk = true ∧
        ((before.step .endAttribute).2.step call).1.isOk = true) ∧
    ((before.step call).1.isOk = true →
      before.step call = (before.step .endAttribute).2.step call) := by
  have notQuery (question : Query) : call ≠ .query question := by
    rintro rfl
    cases leaves
  have via {after : Writer} := @completing_perform call leaves before after () ready inValue
  have ends {middle : Writer} (went : advance .endAttribute before = .ok () middle) :
      before.step .endAttribute = (.ok .done, middle) := by
    apply step_of_ok (by simp)
    rw [perform, guarded, if_neg (by simp [inValue]), went]
  have forth (ok : (before.step call).1.isOk = true) :
      (before.step .endAttribute).1.isOk = true ∧
        before.step call = (before.step .endAttribute).2.step call := by
    have performed := step_ok ok
    rcases via.mp performed with ⟨middle, went, performedToo⟩
    rw [ends went, step_of_ok notQuery performed, step_of_ok notQuery performedToo]
    exact ⟨rfl, rfl⟩
  refine ⟨⟨fun ok => ?_, ?_⟩, fun ok => (forth ok).2⟩
  · rcases forth ok with ⟨ended, same⟩
    exact ⟨ended, by rwa [← same]⟩
  · rintro ⟨ended, ok⟩
    have went := (guarded_ok (step_ok ended)).2
    have performed := via.mpr ⟨_, went, step_ok ok⟩
    rw [step_of_ok notQuery performed]
    rfl

end Writer

end XmlStream
