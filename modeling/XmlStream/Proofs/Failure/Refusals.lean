import XmlStream.Proofs.Failure.Committed

namespace XmlStream

/-! A call that is refused writes nothing and changes nothing. The checks of a call come before all
that it does, so a refusal leaves the writer as it was, but for its phase. -/

def Call.isSetter : Call → Bool
  | .setNamespaces _ | .setFormatting _ | .setIndentation _ | .setIndentChar _
  | .setQuoteChar _ => true
  | _ => false

def Call.isWriting : Call → Bool
  | .query _ | .flush | .close => false
  | call => !call.isSetter

namespace Writer

variable {α β : Type} {before after : Writer}

/-- Nothing of a writer has changed but its phase and its reports. -/
def Unchanged (before after : Writer) : Prop :=
  after = { before with phase := after.phase, log := after.log }

theorem Unchanged.refl (writer : Writer) : writer.Unchanged writer := rfl

/-! ## Actions that check first -/

/-- An action that fails before it has changed anything, or else on a writer that has not failed and
with no refusal. -/
def Decides (action : Action α) : Prop :=
  ∀ ⦃writer error after⦄, action writer = .error error after →
    writer.Unchanged after ∨ writer.phase ≠ .failed ∧ error.isRefusal = false

def Observes (action : Action α) : Prop :=
  ∀ ⦃writer value after⦄, action writer = .ok value after → writer = after

namespace Decides

theorem pure (value : α) : Decides (Pure.pure value) := by
  intro writer error after fails
  simp at fails

theorem throw (error : WriterError) : Decides (MonadExcept.throw error : Action α) := by
  intro writer thrown after fails
  rw [throw_eq_error] at fails
  rw [← fails.2]
  exact .inl (.refl writer)

theorem observe {action : Action α} {next : α → Action β} (decides : Decides action)
    (observes : Observes action) (later : ∀ value, Decides (next value)) :
    Decides (action >>= next) := by
  intro writer error after fails
  rcases bind_eq_error.mp fails with fails | ⟨value, middle, ok, fails⟩
  · exact decides fails
  · rw [observes ok]
    exact later value fails

theorem get_bind {next : Writer → Action α} (later : ∀ writer, Decides (next writer)) :
    Decides (get >>= next) :=
  fun writer _ _ fails => later writer fails

theorem refuse {condition : Prop} [Decidable condition] {error : WriterError}
    {next : β → Action α} {otherwise : Action α} (later : Decides otherwise) :
    Decides (if condition then MonadExcept.throw error >>= next else otherwise) := by
  split
  · intro writer thrown after fails
    rcases bind_eq_error.mp fails with fails | ⟨_, _, ok, _⟩
    · rw [throw_eq_error] at fails
      rw [← fails.2]
      exact .inl (.refl writer)
    · rw [throw_eq_ok] at ok
      exact ok.elim
  · exact later

theorem ite {condition : Prop} [Decidable condition] {action other : Action α}
    (decides : Decides action) (otherwise : Decides other) :
    Decides (if condition then action else other) := by
  split
  · exact decides
  · exact otherwise

/-- The last check is whether a token can stand here. What follows it is not refused any more. -/
theorem advance {token : Token} {next : Unit → Action α} (later : ∀ value, Committed (next value)) :
    Decides (Writer.advance token >>= next) := by
  intro writer error after fails
  rcases bind_eq_error.mp fails with fails | ⟨value, middle, went, fails⟩
  · by_cases refused : error.isRefusal = true
    · rw [(advance_refused refused fails).2]
      exact .inl (.refl after)
    · by_cases failed : writer.phase = .failed
      · rw [advance_of_failed failed] at fails
        cases fails
        exact absurd rfl refused
      · exact .inr ⟨failed, Bool.eq_false_iff.mpr refused⟩
  · exact .inr ⟨fun failed => advance_failed failed went, later value fails⟩

end Decides

theorem decides_advance (token : Token) : Decides (advance token) := by
  have decides : Decides (advance token >>= Pure.pure) := .advance fun _ => .pure _
  rwa [bind_pure] at decides

theorem decides_checkRequest (request : NameRequest) : Decides (checkRequest request) :=
  .refuse (.get_bind fun _ => .ite (.throw _) (.pure _))

theorem observes_checkRequest (request : NameRequest) : Observes (checkRequest request) :=
  fun _ _ _ ok => (checkRequest_ok ok).1

theorem decides_checkName (form : Name.Form) (name : String) : Decides (checkName form name) :=
  .get_bind fun _ => .ite (.throw _) (.pure _)

theorem observes_checkName (form : Name.Form) (name : String) : Observes (checkName form name) :=
  fun _ _ _ ok => (checkName_ok ok).1

theorem decides_openElement (request : NameRequest) : Decides (openElement request) := by
  apply (decides_checkRequest request).observe (observes_checkRequest request)
  intro _
  apply Decides.refuse
  apply Decides.advance
  intro _
  exact .bind (.change _) fun _ => .bind (committed_elementPrefix request) fun _ =>
    .bind (committed_emit _) fun _ => committed_modifyTop _

theorem decides_openAttribute (request : NameRequest) : Decides (openAttribute request) := by
  have writes (nsPrefix : Option String) (kind : Option SpecialKind) : Committed (do
      emit (writtenName nsPrefix request.localName)
      emit "="
      emitQuote
      modify fun writer : Writer => { writer with special := kind.map fun kind => { kind } }) :=
    .bind (committed_emit _) fun _ => .bind (committed_emit _) fun _ =>
      .bind committed_emitQuote fun _ => .change _
  apply (decides_checkRequest request).observe (observes_checkRequest request)
  intro _
  apply Decides.advance
  intro _
  apply (committed_attributeRole request).bind
  rintro ⟨nsPrefix, kind⟩
  cases nsPrefix with
  | none => exact writes none kind
  | some nsPrefix =>
      exact .get_bind fun _ => .when (committed_modifyTop _) (writes (some nsPrefix) kind)

theorem committed_leaveElement : Committed leaveElement := by
  apply Committed.get_bind
  intro writer
  apply Committed.ite
  · exact .when (committed_indent true) (.bind (committed_emit _) fun _ => .change _)
  · exact .change _

theorem decides_closeElement (separate : Bool) : Decides (closeElement separate) :=
  .get_bind fun _ => .refuse (.advance fun _ => committed_leaveElement)

theorem closeElement_refused {separate : Bool} {error : WriterError}
    (refused : error.isRefusal = true)
    (fails : closeElement separate before = .error error after) :
    before.depth = 0 ∨
      before.nextPhase? (if separate then .separateEnd else .endElement) = none := by
  rcases bind_eq_error.mp fails with unseen | ⟨_, _, seen, fails⟩
  · simp at unseen
  · rw [get_eq_ok] at seen
    rcases seen with ⟨rfl, rfl⟩
    dsimp only at fails
    split at fails
    · rename_i outside
      simp only [Bool.and_eq_true, decide_eq_true_eq] at outside
      exact .inl outside.1
    · rcases bind_eq_error.mp fails with fails | ⟨_, _, _, fails⟩
      · exact .inr (advance_refused refused fails).1
      · rw [committed_leaveElement fails] at refused
        cases refused

theorem decides_putText (text : String) : Decides (putText text) :=
  .ite (Decides.advance fun _ => committed_emitText text) (.pure _)

theorem decides_putRaw (text : String) : Decides (putRaw text) :=
  Decides.advance fun _ => committed_emitVerbatim text

theorem decides_putWhitespace (text : String) : Decides (putWhitespace text) :=
  .refuse (Decides.advance fun _ => committed_emitText text)

theorem decides_putName (name : String) : Decides (putName name) :=
  (decides_checkName _ name).observe (observes_checkName _ name) fun _ =>
    Decides.advance fun _ => committed_emitText name

theorem decides_putToken (name : String) : Decides (putToken name) :=
  .refuse (Decides.advance fun _ => committed_emitText name)

theorem decides_putQualifiedName (localName : String) (uri : Option String) :
    Decides (putQualifiedName localName uri) := by
  apply (decides_checkName _ localName).observe (observes_checkName _ localName)
  intro _
  apply Decides.get_bind
  intro writer
  apply Decides.refuse
  apply Decides.advance
  intro _
  dsimp only
  cases nonEmpty? uri with
  | none => exact committed_emitText localName
  | some uri =>
      apply Committed.get_bind
      intro writer
      apply Committed.ite _ (committed_emitText localName)
      apply (committed_textPrefixFor uri).bind
      intro nsPrefix
      exact .bind (committed_emitText _) fun _ => .bind (committed_emitText _) fun _ =>
        .get_bind fun _ => .when (committed_modifyTop _) (committed_emitText localName)

theorem decides_putEntity (name : String) : Decides (putEntity name) :=
  (decides_checkName _ name).observe (observes_checkName _ name) fun _ =>
    Decides.advance fun _ => committed_emitEntity name

theorem decides_putCharacter (code : Nat) : Decides (putCharacter code) := by
  unfold putCharacter
  cases xmlCharacter? code with
  | none => exact .throw _
  | some character => exact Decides.advance fun _ => committed_emitCharacter _

theorem decides_putSurrogates (low high : Nat) : Decides (putSurrogates low high) :=
  .refuse (.refuse (Decides.advance fun _ => committed_emitCharacter _))

theorem decides_putBase64 (chunk : List UInt8) : Decides (putBase64 chunk) :=
  Decides.advance fun _ => .get_bind fun _ =>
    .bind (.change _) fun _ => .bind (committed_emitVerbatim _) fun _ => .change _

theorem decides_putHexadecimal (bytes : List UInt8) : Decides (putHexadecimal bytes) :=
  Decides.advance fun _ => committed_emitVerbatim _

theorem decides_putCData (text : String) : Decides (putCData text) :=
  .refuse (Decides.advance fun _ => .bind (committed_emit _) fun _ =>
    .bind (committed_emitVerbatim text) fun _ => committed_emit _)

theorem decides_putComment (text : String) : Decides (putComment text) :=
  .refuse (Decides.advance fun _ => .bind (committed_emit _) fun _ =>
    .bind (committed_emitVerbatim text) fun _ => committed_emit _)

theorem decides_putInstruction (target text : String) : Decides (putInstruction target text) := by
  apply Decides.refuse
  apply Decides.get_bind
  intro writer
  apply Decides.refuse
  apply (decides_checkName _ target).observe (observes_checkName _ target)
  intro _
  apply Decides.advance
  intro _
  exact .bind (committed_emit _) fun _ => .bind (committed_emit _) fun _ =>
    .ite (.bind (committed_emit _) fun _ => .bind (committed_emitVerbatim text) fun _ =>
      committed_emit _) (committed_emit _)

theorem decides_beginDocument (standalone : Option Bool) : Decides (beginDocument standalone) := by
  intro writer error after fails
  rcases bind_eq_error.mp fails with unseen | ⟨_, _, seen, fails⟩
  · simp at unseen
  · rw [get_eq_ok] at seen
    rcases seen with ⟨rfl, rfl⟩
    by_cases started : writer.phase ≠ .start
    · simp only [if_pos started, ite_eq_error, bind_eq_error, throw_eq_error, throw_eq_ok, report,
        modify_eq_error, modify_eq_ok, false_or, false_and, exists_const, exists_false, or_false]
        at fails
      rcases fails with ⟨_, _, rfl, _, rfl⟩ | ⟨_, _, rfl⟩
      · exact .inl rfl
      · exact .inl (.refl writer)
    · have begins : Committed (do
          set { writer with
            mode := .document, phase := .prolog, lastToken := some .processingInstruction }
          emit (writer.xmlDeclaration standalone)) :=
        .bind (.change _) fun _ => committed_emit _
      rw [if_neg started] at fails
      refine .inr ⟨?_, begins fails⟩
      rw [ne_eq, Decidable.not_not] at started
      simp [started]

theorem observes_externalId (publicId systemId : Option String) :
    Observes (externalId publicId systemId) :=
  fun _ _ _ ok => (externalId_ok ok).1

theorem decides_quoted (literal : String) : Decides (quoted literal) := by
  apply Decides.get_bind
  intro writer
  cases literalQuote? writer.settings.quote literal with
  | none => exact .throw _
  | some quote => exact .pure _

theorem observes_quoted (literal : String) : Observes (quoted literal) :=
  fun _ _ _ ok => (quoted_ok ok).1

theorem decides_externalId (publicId systemId : Option String) :
    Decides (externalId publicId systemId) := by
  unfold externalId
  split
  · exact .pure _
  · exact (decides_quoted _).observe (observes_quoted _) fun _ => .pure _
  · exact (decides_quoted _).observe (observes_quoted _) fun _ =>
      (decides_quoted _).observe (observes_quoted _) fun _ => .pure _

theorem decides_putDoctype (name : String) (publicId systemId subset : Option String) :
    Decides (putDoctype name publicId systemId subset) :=
  (decides_checkName _ name).observe (observes_checkName _ name) fun _ =>
    (decides_externalId publicId systemId).observe (observes_externalId publicId systemId)
      fun _ => Decides.advance fun _ => committed_emit _

/-! ## What has been begun is not refused -/

theorem completeAll_not_refused {error : WriterError} (ready : before.Ready)
    (live : ¬before.Spent) (fails : completeAll before = .error error after) :
    error.isRefusal = false := by
  cases completeAll_stops ready live fails with
  | payload fails => exact committed_finishPayload fails
  | value paid _ readyPaid onTop fails =>
      exact committed_advance (readyPaid.nextPhase?_endAttribute onTop) fails
  | element paid _ readyPaid livePaid fails =>
      have inside := readyPaid.inside_phases livePaid
      rcases closeElements_stuck readyPaid.sound rfl inside fails with
        ⟨_, stuck, _, _, depth, stops, place⟩
      have leads : ∃ next, stuck.nextPhase? .endElement = some next := by
        apply nextPhase?_endElement
        rcases place with rfl | place
        · exact inside depth
        · exact .inr (.inr place)
      by_contra refused
      rw [Bool.not_eq_false] at refused
      rcases closeElement_refused refused stops with outside | cannot
      · omega
      · rcases leads with ⟨next, leads⟩
        have leads : none = some next := cannot.symm.trans leads
        cases leads

theorem finishDocument_refused {error : WriterError} (reached : before.Spent ∨ before.Ready)
    (notClosed : before.phase ≠ .closed) (refused : error.isRefusal = true)
    (fails : finishDocument before = .error error after) : before.Unchanged after := by
  unfold finishDocument at fails
  rcases bind_eq_error.mp fails with unseen | ⟨_, _, seen, fails⟩
  · simp at unseen
  · rw [get_eq_ok] at seen
    rcases seen with ⟨rfl, rfl⟩
    dsimp only at fails
    split at fails
    · simp only [bind_eq_error, throw_eq_error, throw_eq_ok, false_and, exists_const,
        exists_false, or_false] at fails
      rw [← fails.2]
      exact .refl before
    · rename_i goesOn
      have notFailed : before.phase ≠ .failed := by
        intro failed
        simp [failed] at goesOn
      have live : ¬before.Spent := not_or.mpr ⟨notFailed, notClosed⟩
      rcases bind_eq_error.mp fails with fails | ⟨_, middle, _, fails⟩
      · rw [completeAll_not_refused (reached.resolve_left live) live fails] at refused
        cases refused
      · have rest : Committed (do
            modify fun writer : Writer =>
              { writer with
                bindings := writer.bindings.popTo 1
                elements := {}
                mode := .fragment
                phase := .start
                lastToken := none }
            onOutput OutputBuffer.flush) :=
          .bind (.change _) fun _ => .onOutput _
        rw [rest fails] at refused
        cases refused

theorem nextPhase?_text (ready : before.Ready)
    (inside : before.phase = .attribute ∨ before.phase = .topAttribute ∨ before.phase = .element) :
    before.nextPhase? .text =
      some (if before.phase = .element then .content else before.phase) := by
  have notTop : before.mode = .document → before.phase ≠ .topAttribute := fun document =>
    (ready.placed.document document).2.1
  rcases inside with phase | phase | phase <;> cases mode : before.mode
  case inr.inl.document => exact absurd phase (notTop mode)
  all_goals
    simp only [nextPhase?, mode, phase]
    rfl

theorem putText_not_refused {text : String} {error : WriterError} (ready : before.Ready)
    (inside : before.phase = .attribute ∨ before.phase = .topAttribute ∨ before.phase = .element)
    (fails : putText text before = .error error after) : error.isRefusal = false := by
  simp only [putText, ite_eq_error, bind_eq_error, pure_eq_error, and_false, or_false] at fails
  rcases fails with ⟨_, fails | ⟨_, middle, _, fails⟩⟩
  · exact committed_advance (nextPhase?_text ready inside) fails
  · exact committed_emitText text fails

theorem phase_of_putText {text : String} {nothing : Unit} (ready : before.Ready)
    (inside : before.phase = .attribute ∨ before.phase = .topAttribute ∨ before.phase = .element)
    (ok : putText text before = .ok nothing after) :
    after.phase = before.phase ∨ before.phase = .element ∧ after.phase = .content := by
  simp only [putText, ite_eq_ok, bind_eq_ok, pure_eq_ok, true_and, ne_eq, Decidable.not_not] at ok
  rcases ok with ⟨_, _, room, went, wrote⟩ | ⟨_, rfl⟩
  · rcases advance_ok went with ⟨next, _, _, _, leads, _, _, rfl⟩
    rcases emitText_ok wrote with ⟨output, rfl, _⟩
    rw [nextPhase?_text ready inside, Option.some_inj] at leads
    subst leads
    by_cases inTag : before.phase = .element
    · exact .inr ⟨inTag, if_pos inTag⟩
    · exact .inl (if_neg inTag)
  · exact .inl rfl

theorem depth_of_putText {text : String} {nothing : Unit} (sound : before.Sound)
    (ok : putText text before = .ok nothing after) : after.depth = before.depth := by
  simp only [putText, ite_eq_ok, bind_eq_ok, pure_eq_ok, true_and, ne_eq, Decidable.not_not] at ok
  rcases ok with ⟨_, _, room, went, wrote⟩ | ⟨_, rfl⟩
  · rcases advance_split (by simp) went with
      ⟨_, _, paid, made, written, finished, _, _, makes, result⟩
    rcases emitText_ok wrote with ⟨output, rfl, _⟩
    have soundPaid := finished.sound_of_eq sound
    rcases makeRoom_text_ok soundPaid.lastToken (.inl rfl) makes with ⟨inside, closed, _, reaches⟩
    have within : inside.depth = paid.depth := by
      rcases closed with ⟨_, _, closes⟩ | ⟨_, rfl⟩
      · exact (closeStartTag_ok soundPaid.bindings closes).2.2.2.depth
      · rfl
    have entered : made.depth = inside.depth := by
      have depths := congrArg Writer.depth reaches
      simp only [reached, Bool.false_eq_true, if_false, depth] at depths
      rw [depth, depths]
      split
      · exact ElementStack.depth_modifyTop _ _
      · rfl
    have whole : room.depth = made.depth := by
      rw [result]
      rfl
    exact (whole.trans (entered.trans within)).trans finished.keeps.depth
  · rfl

/-! ## Calls -/

theorem guarded_fails {call : Action Unit} {error : WriterError}
    (fails : guarded call before = .error error after) :
    before.phase = .closed ∧ before = after ∨ before.phase ≠ .closed ∧
      ∃ middle, call before = .error error middle ∧ after.phase = .failed ∧
        (before.Unchanged middle → before.Unchanged after) := by
  unfold guarded at fails
  split at fails
  · rename_i closed
    cases fails
    exact .inl ⟨closed, rfl⟩
  · rename_i notClosed
    split at fails
    · cases fails
    · rename_i cause middle stops
      cases fails
      refine .inr ⟨notClosed, middle, stops, rfl, fun same => ?_⟩
      rw [Unchanged] at same ⊢
      rw [same]

theorem guarded_refused {call : Action Unit} {error : WriterError} (decides : Decides call)
    (refused : error.isRefusal = true) (fails : guarded call before = .error error after) :
    before.Unchanged after ∧
      after.phase = if before.phase = .closed then .closed else .failed := by
  rcases guarded_fails fails with ⟨closed, rfl⟩ | ⟨notClosed, middle, stops, failed, unchanged⟩
  · exact ⟨.refl before, by rw [if_pos closed, closed]⟩
  · have same : before.Unchanged middle :=
      (decides stops).resolve_right fun begun => by simp [refused] at begun
    exact ⟨unchanged same, by rw [if_neg notClosed, failed]⟩

theorem guarded_not_refused {call : Action Unit} {error : WriterError}
    (notClosed : before.phase ≠ .closed)
    (begun : ∀ error after, call before = .error error after → error.isRefusal = false)
    (fails : guarded call before = .error error after) : error.isRefusal = false := by
  rcases guarded_fails fails with ⟨closed, _⟩ | ⟨_, middle, stops, _⟩
  · exact absurd closed notClosed
  · exact begun error middle stops

theorem attributeString_refused {request : NameRequest} {value : String} {error : WriterError}
    (reached : before.Spent ∨ before.Ready) (refused : error.isRefusal = true)
    (fails : perform (.attributeString request value) before = .error error after) :
    guarded (openAttribute request) before = .error error after := by
  simp only [perform, bind_eq_error] at fails
  rcases fails with fails | ⟨_, opened, opens, fails⟩
  · exact fails
  · exfalso
    rcases guarded_ok opens with ⟨notClosed, opens⟩
    have live : ¬before.Spent := not_or.mpr ⟨fun failed => openAttribute_failed failed opens, notClosed⟩
    have ready := reached.resolve_left live
    rcases openAttribute_ok ready.sound opens with ⟨_, _, does, inValue⟩
    have readyOpened := does.ready ready
    have inside : opened.phase = .attribute ∨ opened.phase = .topAttribute ∨
        opened.phase = .element := inValue.imp_right .inl
    have notClosed : opened.phase ≠ .closed := by rcases inValue with phase | phase <;> simp [phase]
    rcases fails with fails | ⟨_, filled, wrote, fails⟩
    · have begun := guarded_not_refused notClosed
        (fun _ _ stops => putText_not_refused readyOpened inside stops) fails
      rw [begun] at refused
      cases refused
    · rcases text_ok readyOpened.sound wrote with ⟨_, _, does⟩
      have readyFilled := does.ready readyOpened
      have stays : filled.phase = opened.phase := by
        rcases phase_of_putText readyOpened inside (guarded_ok wrote).2 with same | ⟨inTag, _⟩
        · exact same
        · rcases inValue with phase | phase <;> simp [inTag] at phase
      have stillInValue : filled.phase = .attribute ∨ filled.phase = .topAttribute := by
        rwa [stays]
      have leads : ∃ next, filled.nextPhase? .endAttribute = some next := by
        rcases stillInValue with phase | phase
        · refine ⟨.element, ?_⟩
          cases mode : filled.mode <;>
          · simp only [nextPhase?, mode, phase]
            rfl
        · exact ⟨_, readyFilled.nextPhase?_endAttribute phase⟩
      rcases leads with ⟨next, leads⟩
      have begun := guarded_not_refused (by rwa [stays])
        (fun _ _ stops => committed_advance leads stops) fails
      rw [begun] at refused
      cases refused

theorem elementString_refused {request : NameRequest} {value : Option String}
    {error : WriterError} (reached : before.Spent ∨ before.Ready)
    (refused : error.isRefusal = true)
    (fails : perform (.elementString request value) before = .error error after) :
    guarded (openElement request) before = .error error after := by
  -- The element can be ended from wherever its text has led to.
  have ends {middle : Writer} (inside : middle.phase = .element ∨ middle.phase = .content)
      (depth : 0 < middle.depth)
      (fails : guarded (closeElement false) middle = .error error after) : False := by
    have leads := nextPhase?_endElement (.inr inside)
    have begun : ∀ cause last, closeElement false middle = .error cause last →
        cause.isRefusal = false := by
      intro cause last stops
      by_contra refusal
      rw [Bool.not_eq_false] at refusal
      rcases closeElement_refused refusal stops with outside | cannot
      · omega
      · rcases leads with ⟨next, leads⟩
        have leads : none = some next := cannot.symm.trans leads
        cases leads
    rw [guarded_not_refused (by rcases inside with phase | phase <;> simp [phase]) begun fails]
      at refused
    cases refused
  have started {opened : Writer} (opens : guarded (openElement request) before = .ok () opened) :
      opened.Ready ∧ opened.phase = .element ∧ 0 < opened.depth := by
    rcases guarded_ok opens with ⟨notClosed, opens⟩
    have live : ¬before.Spent := not_or.mpr ⟨fun failed => openElement_failed failed opens, notClosed⟩
    have ready := reached.resolve_left live
    rcases openElement_ok ready.sound opens with ⟨_, _, does, inTag⟩
    have readyOpened := does.ready ready
    exact ⟨readyOpened, inTag, readyOpened.placed.inside (.inl inTag)⟩
  cases value with
  | none =>
      simp only [perform, bind_eq_error] at fails
      rcases fails with fails | ⟨_, opened, opens, fails⟩
      · exact fails
      · rcases started opens with ⟨_, inTag, depth⟩
        exact (ends (.inl inTag) depth fails).elim
  | some value =>
      simp only [perform, bind_eq_error] at fails
      rcases fails with fails | ⟨_, opened, opens, fails | ⟨_, filled, wrote, fails⟩⟩
      · exact fails
      · rcases started opens with ⟨readyOpened, inTag, _⟩
        have begun := guarded_not_refused (by simp [inTag])
          (fun _ _ stops => putText_not_refused readyOpened (.inr (.inr inTag)) stops) fails
        rw [begun] at refused
        cases refused
      · rcases started opens with ⟨readyOpened, inTag, depth⟩
        have wrote := (guarded_ok wrote).2
        have inside : filled.phase = .element ∨ filled.phase = .content := by
          rcases phase_of_putText readyOpened (.inr (.inr inTag)) wrote with same | ⟨_, content⟩
          · exact .inl (same.trans inTag)
          · exact .inr content
        have depthFilled := depth_of_putText readyOpened.sound wrote
        exact (ends inside (by omega) fails).elim

/-- A call that writes is one guarded action, which checks first. The exceptions are the end of a
document, which completes what is open, and the calls that are made of several others. -/
theorem perform_guarded {call : Call} (writes : call.isWriting = true) :
    (∃ action, Decides action ∧ perform call = guarded action) ∨ call = .endDocument ∨
      (∃ request value, call = .attributeString request value) ∨
        ∃ request value, call = .elementString request value := by
  have plain {action : Action Unit} (decides : Decides action) (is : perform call = guarded action) :
      (∃ action, Decides action ∧ perform call = guarded action) ∨ call = .endDocument ∨
        (∃ request value, call = .attributeString request value) ∨
          ∃ request value, call = .elementString request value :=
    .inl ⟨action, decides, is⟩
  cases call with
  | query question => cases writes
  | setNamespaces enabled => cases writes
  | setFormatting formatting => cases writes
  | setIndentation width => cases writes
  | setIndentChar character => cases writes
  | setQuoteChar character => cases writes
  | flush => cases writes
  | close => cases writes
  | endDocument => exact .inr (.inl rfl)
  | attributeString request value => exact .inr (.inr (.inl ⟨request, value, rfl⟩))
  | elementString request value => exact .inr (.inr (.inr ⟨request, value, rfl⟩))
  | startDocument standalone => exact plain (decides_beginDocument standalone) rfl
  | doctype name publicId systemId subset =>
      exact plain (decides_putDoctype name publicId systemId subset) rfl
  | startElement request => exact plain (decides_openElement request) rfl
  | endElement => exact plain (decides_closeElement false) rfl
  | fullEndElement => exact plain (decides_closeElement true) rfl
  | startAttribute request => exact plain (decides_openAttribute request) rfl
  | endAttribute => exact plain (decides_advance .endAttribute) rfl
  | cdata text => exact plain (decides_putCData text) rfl
  | comment text => exact plain (decides_putComment text) rfl
  | instruction target text => exact plain (decides_putInstruction target text) rfl
  | entity name => exact plain (decides_putEntity name) rfl
  | character code => exact plain (decides_putCharacter code) rfl
  | surrogates low high => exact plain (decides_putSurrogates low high) rfl
  | whitespace text => exact plain (decides_putWhitespace text) rfl
  | text text => exact plain (decides_putText text) rfl
  | raw text => exact plain (decides_putRaw text) rfl
  | base64 chunk => exact plain (decides_putBase64 chunk) rfl
  | hexadecimal bytes => exact plain (decides_putHexadecimal bytes) rfl
  | name name => exact plain (decides_putName name) rfl
  | token name => exact plain (decides_putToken name) rfl
  | qualifiedName localName uri => exact plain (decides_putQualifiedName localName uri) rfl

theorem eq_of_isSetter {call : Call} {error : WriterError} (setter : call.isSetter = true)
    (fails : perform call before = .error error after) : after = before := by
  cases call with
  | setNamespaces enabled => exact (configure_error (.namespaces enabled) fails).1
  | setFormatting formatting => exact (configure_error (.formatting formatting) fails).1
  | setIndentation width => exact (configure_error (.indentation width) fails).1
  | setIndentChar character => exact (configure_error (.indentChar character) fails).1
  | setQuoteChar character =>
      cases stands : Quote.ofChar? character with
      | none =>
          simp only [perform, setQuoteChar, quoteFor, stands, throw_eq_error] at fails
          exact fails.2.symm
      | some quote => exact (configure_error (.quote character quote stands) fails).1
  | _ => cases setter

theorem refused_of_isWriting {call : Call} {error : WriterError}
    (reached : before.Spent ∨ before.Ready) (writes : call.isWriting = true)
    (refused : error.isRefusal = true)
    (fails : perform call before = .error error after) :
    before.Unchanged after ∧ after.phase = if before.phase = .closed then .closed else .failed := by
  rcases perform_guarded writes with
    ⟨action, decides, is⟩ | rfl | ⟨request, value, rfl⟩ | ⟨request, value, rfl⟩
  · rw [is] at fails
    exact guarded_refused decides refused fails
  · rcases guarded_fails fails with ⟨closed, rfl⟩ | ⟨notClosed, middle, stops, failed, unchanged⟩
    · exact ⟨.refl before, by simp [closed]⟩
    · have same := finishDocument_refused reached notClosed refused stops
      exact ⟨unchanged same, by rw [failed, if_neg notClosed]⟩
  · exact guarded_refused (decides_openAttribute request) refused
      (attributeString_refused reached refused fails)
  · exact guarded_refused (decides_openElement request) refused
      (elementString_refused reached refused fails)

/-- A call that is refused leaves the writer as it was. The refusal of a setting does no harm; any
other one leaves the writer failed, unless it is closed. -/
theorem perform_refused {call : Call} {error : WriterError}
    (reached : before.Spent ∨ before.Ready) (refused : error.isRefusal = true)
    (fails : perform call before = .error error after) :
    before.Unchanged after ∧
      after.phase = if before.phase = .closed ∨ call.isSetter then before.phase else .failed := by
  have committed (begun : error.isRefusal = false) : False := by
    rw [refused] at begun
    cases begun
  by_cases writes : call.isWriting = true
  · rcases refused_of_isWriting reached writes refused fails with ⟨unchanged, phase⟩
    have notSetter : call.isSetter = false := by
      cases call <;> simp_all [Call.isWriting, Call.isSetter]
    refine ⟨unchanged, ?_⟩
    rw [phase, notSetter]
    by_cases closed : before.phase = .closed <;> simp [closed]
  · by_cases setter : call.isSetter = true
    · rw [eq_of_isSetter setter fails]
      exact ⟨.refl before, by simp [setter]⟩
    · cases call with
      | query question => simp [perform] at fails
      | flush =>
          rcases guarded_fails fails with ⟨closed, rfl⟩ | ⟨_, middle, stops, _⟩
          · exact ⟨.refl before, by simp [closed]⟩
          · exact (committed (Committed.onOutput _ stops)).elim
      | close =>
          simp only [perform, shut, bind_eq_error, get_eq_error, get_eq_ok, false_or, ite_eq_error,
            pure_eq_error, and_false, or_false, tryCatch_eq_error, report, modify_eq_error,
            exists_false, modify_eq_ok] at fails
          rcases fails with ⟨_, _, ⟨rfl, rfl⟩, _, _, _, _, _, _, rfl, fails⟩
          exact (committed (Committed.onOutput _ fails)).elim
      | setNamespaces enabled => exact absurd rfl setter
      | setFormatting formatting => exact absurd rfl setter
      | setIndentation width => exact absurd rfl setter
      | setIndentChar character => exact absurd rfl setter
      | setQuoteChar character => exact absurd rfl setter
      | _ => exact absurd rfl writes

/-- Calls that are refused write nothing. A call on any writer that calls lead to, which fails for
what it asks or for when it is made, leaves the output, the settings, the elements, the bindings, the
mode, the payload and the value that is being written as they were. The writer has failed then, but
for one that is closed, and but for calls that change a setting. -/
theorem unchanged_of_refusal (output : OutputBuffer) (settings : Settings) (calls : List Call)
    (writer : Writer) (reached : writer = ((create output settings).run calls).2) (call : Call)
    (error : WriterError) (refused : error.isRefusal = true)
    (fails : (writer.step call).1 = .error error) :
    writer.Unchanged (writer.step call).2 ∧
      (writer.step call).2.phase =
        if writer.phase = .closed ∨ call.isSetter then writer.phase else .failed := by
  subst reached
  have reached := run_keeps (fun _ => True) (fun _ _ _ _ _ _ _ _ => trivial)
    (ready_create output settings) trivial calls
  have performed : perform call ((create output settings).run calls).2 =
      .error error (((create output settings).run calls).2.step call).2 := by
    rcases step_eq ((create output settings).run calls).2 call with ⟨answer, steps⟩
    rw [steps] at fails ⊢
    cases made : perform call ((create output settings).run calls).2 with
    | ok _ after => simp [made] at fails
    | error cause after =>
        simp only [made, Except.error.injEq] at fails
        rw [fails]
  exact perform_refused (reached.imp_right And.left) refused performed

/-- A second root is refused as a whole, with what is asked for within it. -/
theorem unchanged_of_refusal_root :
    let calls : List Call :=
      [.startDocument none, .startElement { localName := "a" }, .base64 [77], .endElement]
    let call : Call := .elementString { localName := "b" } (some "text")
    let writer := ((create { sink := {} }).run calls).2
    (writer.step call).1 = .error (.misplaced .startElement .epilog) ∧
      writer.Unchanged (writer.step call).2 ∧ (writer.step call).2.phase = .failed := by
  intro calls call writer
  have fails : (writer.step call).1 = .error (.misplaced .startElement .epilog) := by
    decide +kernel
  have holds := unchanged_of_refusal { sink := {} } {} calls writer rfl call _ rfl fails
  refine ⟨fails, holds.1, holds.2.trans ?_⟩
  have phase : writer.phase = .epilog := by decide +kernel
  rw [phase]
  rfl

end Writer

end XmlStream
