import XmlStream.Proofs.Completion.Explicit

namespace XmlStream

/-! Whatever comes after a payload ends that first. It does what it would do if the payload had been
ended before, or it is refused and leaves the payload as it is, to be ended by what closes the writer. -/

def Call.keepsPayload : Call → Bool
  | .base64 _ => true
  | .text content => content = ""
  | .close => false
  | call => !call.isWriting

namespace Writer

variable {α β : Type} {first second : Writer}

/-- The second writer is the first one after the end of the payload that is being written. -/
structure Awaits (first second : Writer) : Prop where
  ends : finishPayload first = .ok () second
  begun : first.phase ≠ .start
  notClosed : first.phase ≠ .closed

theorem finishPayload_same {after : Writer} {nothing : Unit}
    (ok : finishPayload first = .ok nothing after) :
    ∃ output special carry, after = { first with output, special, carry, unflushed := false } := by
  rcases finishPayload_cases ok with ⟨paid, rfl⟩ | ⟨_, output, _, rfl⟩
  · exact ⟨after.output, after.special, after.carry, by rw [← paid]⟩
  · exact ⟨output, _, .empty, rfl⟩

theorem Awaits.same (awaits : first.Awaits second) :
    ∃ output special carry, second = { first with output, special, carry, unflushed := false } :=
  finishPayload_same awaits.ends

theorem finishPayload_eq (writer : Writer) : finishPayload writer =
    if writer.unflushed then
      let text := String.ofList writer.carry.lastGroup
      match OutputBuffer.write text writer.output with
      | .ok _ output =>
        .ok () { writer.captured text with output, carry := .empty, unflushed := false }
      | .error cause output =>
        .error (.sink cause) { writer.captured text with output, carry := .empty }
    else .ok () writer := by
  by_cases pending : writer.unflushed = true
  · rw [finishPayload_of_unflushed pending, if_pos pending]
    simp only [Bind.bind, EStateM.bind, modify_run, emitVerbatim, capture, emit, onOutput]
    cases OutputBuffer.write (String.ofList writer.carry.lastGroup) writer.output <;> rfl
  · rw [if_neg pending]
    exact finishPayload_of_none (Draft.payload_eq_none.mpr (Bool.eq_false_iff.mpr pending))

theorem Awaits.alter (awaits : first.Awaits second) (phase : Phase) (log : Array LogEvent)
    (begun : phase ≠ .start) (notClosed : phase ≠ .closed) :
    ({ first with phase, log } : Writer).Awaits { second with phase, log } := by
  refine ⟨?_, begun, notClosed⟩
  have ends := awaits.ends
  rw [finishPayload_eq] at ends ⊢
  dsimp only at ends ⊢
  split at ends
  · rename_i pending
    rw [if_pos pending]
    split at ends
    · obtain rfl := (EStateM.Result.ok.inj ends).2
      rfl
    · cases ends
  · rename_i paid
    rw [if_neg paid]
    obtain rfl : first = second := (EStateM.Result.ok.inj ends).2
    rfl

/-- How an action ends before and after the end of a payload: it does the same, or it is refused. -/
inductive EndsAlike : EStateM.Result WriterError Writer α → EStateM.Result WriterError Writer α → Prop
  | same (result : EStateM.Result WriterError Writer α) : EndsAlike result result
  | refused (error : WriterError) {first second : Writer} (awaits : first.Awaits second) :
      EndsAlike (.error error first) (.error error second)

def EndsPayload (action : Action α) : Prop :=
  ∀ ⦃first second⦄, first.Awaits second → EndsAlike (action first) (action second)

def Overlooks (action : Action α) : Prop :=
  ∀ ⦃first second⦄, first.Awaits second →
    (∃ value, action first = .ok value first ∧ action second = .ok value second) ∨
      ∃ error, action first = .error error first ∧ action second = .error error second

namespace Overlooks

theorem pure (value : α) : Overlooks (Pure.pure value) := fun _ _ _ => .inl ⟨value, rfl, rfl⟩

theorem throw (error : WriterError) : Overlooks (MonadExcept.throw error : Action α) :=
  fun _ _ _ => .inr ⟨error, rfl, rfl⟩

theorem bind {action : Action α} {next : α → Action β} (overlooks : Overlooks action)
    (later : ∀ value, Overlooks (next value)) : Overlooks (action >>= next) := by
  intro first second awaits
  rcases overlooks awaits with ⟨value, here, there⟩ | ⟨error, here, there⟩
  · simp only [Bind.bind, EStateM.bind, here, there]
    exact later value awaits
  · exact .inr ⟨error, by simp only [Bind.bind, EStateM.bind, here],
      by simp only [Bind.bind, EStateM.bind, there]⟩

theorem get_bind {next : Writer → Action α}
    (steady : ∀ writer output special carry unflushed,
      next { writer with output, special, carry, unflushed } = next writer)
    (later : ∀ writer, Overlooks (next writer)) : Overlooks (get >>= next) := by
  intro first second awaits
  rcases awaits.same with ⟨output, special, carry, same⟩
  rw [get_bind_eq, get_bind_eq, show next second = next first by rw [same, steady]]
  exact later first awaits

theorem ite {condition : Prop} [Decidable condition] {action other : Action α}
    (overlooks : Overlooks action) (otherwise : Overlooks other) :
    Overlooks (if condition then action else other) := by
  split
  · exact overlooks
  · exact otherwise

end Overlooks

namespace EndsPayload

theorem throw (error : WriterError) : EndsPayload (MonadExcept.throw error : Action α) :=
  fun _ _ awaits => .refused error awaits

theorem bind {action : Action α} {next : α → Action β} (ends : EndsPayload action) :
    EndsPayload (action >>= next) := by
  intro first second awaits
  have alike := ends awaits
  simp only [Bind.bind, EStateM.bind]
  generalize action first = result at alike ⊢
  generalize action second = result at alike ⊢
  cases alike with
  | same result => exact .same _
  | refused error awaits => exact .refused error awaits

theorem observe {action : Action α} {next : α → Action β} (overlooks : Overlooks action)
    (later : ∀ value, EndsPayload (next value)) : EndsPayload (action >>= next) := by
  intro first second awaits
  simp only [Bind.bind, EStateM.bind]
  rcases overlooks awaits with ⟨value, here, there⟩ | ⟨error, here, there⟩
  · rw [here, there]
    exact later value awaits
  · rw [here, there]
    exact .refused error awaits

theorem get_bind {next : Writer → Action α}
    (steady : ∀ writer output special carry unflushed,
      next { writer with output, special, carry, unflushed } = next writer)
    (later : ∀ writer, EndsPayload (next writer)) : EndsPayload (get >>= next) := by
  intro first second awaits
  rcases awaits.same with ⟨output, special, carry, same⟩
  rw [get_bind_eq, get_bind_eq, show next second = next first by rw [same, steady]]
  exact later first awaits

theorem ite {condition : Prop} [Decidable condition] {action other : Action α}
    (ends : EndsPayload action) (otherwise : EndsPayload other) :
    EndsPayload (if condition then action else other) := by
  split
  · exact ends
  · exact otherwise

theorem refuse {condition : Prop} [Decidable condition] {error : WriterError} {action : Action α}
    (ends : EndsPayload action) :
    EndsPayload (if condition then MonadExcept.throw error else action) := .ite (.throw error) ends

theorem guarded {action : Action Unit} (ends : EndsPayload action) :
    EndsPayload (Writer.guarded action) := by
  intro first second awaits
  have alike := ends awaits
  rcases awaits.same with ⟨output, special, carry, same⟩
  have notClosed : second.phase ≠ .closed := by
    rw [same]
    exact awaits.notClosed
  rw [Writer.guarded, Writer.guarded, if_neg awaits.notClosed, if_neg notClosed]
  generalize action first = result at alike ⊢
  generalize action second = result at alike ⊢
  cases alike with
  | same result => exact .same _
  | refused error awaits =>
      rcases awaits.same with ⟨output, special, carry, rfl⟩
      exact .refused error (awaits.alter .failed _ (by simp) (by simp))

end EndsPayload

theorem endsPayload_advance {token : Token} (other : token ≠ .base64) : EndsPayload (advance token) := by
  intro first second awaits
  cases leads : first.nextPhase? token with
  | some next =>
      rw [advance_of_paid other leads awaits.ends]
      exact .same _
  | none =>
      rcases awaits.same with ⟨output, special, carry, same⟩
      have leadsToo : second.nextPhase? token = none := by
        rw [same]
        exact leads
      have phase : second.phase = first.phase := by rw [same]
      have stops {writer : Writer} (nowhere : writer.nextPhase? token = none) :
          advance token writer = .error (.misplaced token writer.phase) writer := by
        rw [advance, get_bind_eq, nowhere]
        rfl
      rw [stops leads, stops leadsToo, phase]
      exact .refused _ awaits

theorem completeAll_of_awaits (awaits : first.Awaits second) :
    completeAll first = completeAll second := by
  rcases awaits.same with ⟨output, special, carry, same⟩
  have paid : finishPayload second = .ok () second := finishPayload_of_none (by rw [same]; rfl)
  simp only [completeAll, Bind.bind, EStateM.bind, awaits.ends, paid]

theorem endsPayload_completeAll : EndsPayload completeAll := by
  intro first second awaits
  rw [completeAll_of_awaits awaits]
  exact .same _

theorem overlooks_checkRequest (request : NameRequest) : Overlooks (checkRequest request) :=
  .ite (.throw _) (.get_bind (fun _ _ _ _ _ => rfl) fun _ => .ite (.throw _) (.pure _))

theorem overlooks_checkName (form : Name.Form) (name : String) : Overlooks (checkName form name) :=
  .get_bind (fun _ _ _ _ _ => rfl) fun _ => .ite (.throw _) (.pure _)

theorem overlooks_quoted (literal : String) : Overlooks (quoted literal) := by
  refine .get_bind (fun _ _ _ _ _ => rfl) fun writer => ?_
  cases literalQuote? writer.settings.quote literal with
  | none => exact .throw _
  | some quote => exact .pure _

theorem overlooks_externalId (publicId systemId : Option String) :
    Overlooks (externalId publicId systemId) := by
  cases publicId with
  | some publicId =>
      exact .bind (overlooks_quoted _) fun _ => .bind (overlooks_quoted _) fun _ => .pure _
  | none =>
      cases systemId with
      | some systemId => exact .bind (overlooks_quoted _) fun _ => .pure _
      | none => exact .pure _

/-! ## What ends a payload -/

theorem endsPayload_openElement (request : NameRequest) : EndsPayload (openElement request) :=
  .observe (overlooks_checkRequest _) fun _ =>
    .refuse (.bind (endsPayload_advance (by simp)))

theorem endsPayload_openAttribute (request : NameRequest) : EndsPayload (openAttribute request) :=
  .observe (overlooks_checkRequest _) fun _ => .bind (endsPayload_advance (by simp))

theorem endsPayload_closeElement (separate : Bool) : EndsPayload (closeElement separate) := by
  refine .get_bind (fun _ _ _ _ _ => rfl) fun _ => .refuse (.bind (endsPayload_advance ?_))
  cases separate <;> simp

theorem endsPayload_putText {text : String} (notEmpty : text ≠ "") : EndsPayload (putText text) := by
  rw [putText, if_pos notEmpty]
  exact .bind (endsPayload_advance (by simp))

theorem endsPayload_putQualifiedName (localName : String) (uri : Option String) :
    EndsPayload (putQualifiedName localName uri) :=
  .observe (overlooks_checkName _ _) fun _ =>
    .get_bind (fun _ _ _ _ _ => rfl) fun _ => .refuse (.bind (endsPayload_advance (by simp)))

theorem endsPayload_putCharacter (code : Nat) : EndsPayload (putCharacter code) := by
  rw [putCharacter]
  cases xmlCharacter? code with
  | none => exact .throw _
  | some character => exact .bind (endsPayload_advance (by simp))

theorem endsPayload_putInstruction (target text : String) :
    EndsPayload (putInstruction target text) :=
  .refuse (.get_bind (fun _ _ _ _ _ => rfl) fun _ =>
    .refuse (.observe (overlooks_checkName _ _) fun _ => .bind (endsPayload_advance (by simp))))

theorem endsPayload_putDoctype (name : String) (publicId systemId subset : Option String) :
    EndsPayload (putDoctype name publicId systemId subset) :=
  .observe (overlooks_checkName _ _) fun _ =>
    .observe (overlooks_externalId _ _) fun _ => .bind (endsPayload_advance (by simp))

theorem endsPayload_finishDocument : EndsPayload finishDocument :=
  .get_bind (fun _ _ _ _ _ => rfl) fun _ => .refuse (.bind endsPayload_completeAll)

theorem endsPayload_beginDocument (standalone : Option Bool) :
    EndsPayload (beginDocument standalone) := by
  intro first second awaits
  rcases awaits.same with ⟨output, special, carry, same⟩
  have phase : second.phase = first.phase := by rw [same]
  have mode : second.mode = first.mode := by rw [same]
  have log : second.log = first.log := by rw [same]
  rw [beginDocument, get_bind_eq, get_bind_eq, phase, mode, if_pos awaits.begun, if_pos awaits.begun]
  by_cases twice : (first.phase ≠ .failed && first.mode = .document) = true
  · rw [if_pos twice, if_pos twice]
    have stops := awaits.alter first.phase (first.log.push (.declarationRequested first.phase))
      awaits.begun awaits.notClosed
    have same : { second with
          phase := first.phase, log := first.log.push (.declarationRequested first.phase) } =
        { second with log := second.log.push (.declarationRequested first.phase) } := by
      rw [← phase, ← log]
    rw [same] at stops
    exact .refused _ stops
  · rw [if_neg twice, if_neg twice]
    exact .refused _ awaits

theorem endsPayload_perform {call : Call} (leaves : call.keepsPayload = false)
    (notClose : call ≠ .close) : EndsPayload (perform call) := by
  cases call with
  | query | setNamespaces | setFormatting | setIndentation | setIndentChar | setQuoteChar | flush
  | base64 => cases leaves
  | close => exact absurd rfl notClose
  | startDocument standalone => exact .guarded (endsPayload_beginDocument standalone)
  | endDocument => exact .guarded endsPayload_finishDocument
  | doctype name publicId systemId subset =>
      exact .guarded (endsPayload_putDoctype name publicId systemId subset)
  | startElement request => exact .guarded (endsPayload_openElement request)
  | endElement => exact .guarded (endsPayload_closeElement false)
  | fullEndElement => exact .guarded (endsPayload_closeElement true)
  | startAttribute request => exact .guarded (endsPayload_openAttribute request)
  | endAttribute => exact .guarded (endsPayload_advance (by simp))
  | attributeString request value => exact .bind (.guarded (endsPayload_openAttribute request))
  | elementString request value => exact .bind (.guarded (endsPayload_openElement request))
  | cdata text => exact .guarded (.refuse (.bind (endsPayload_advance (by simp))))
  | comment text => exact .guarded (.refuse (.bind (endsPayload_advance (by simp))))
  | instruction target text => exact .guarded (endsPayload_putInstruction target text)
  | entity name =>
      exact .guarded (.observe (overlooks_checkName _ _) fun _ => .bind (endsPayload_advance (by simp)))
  | character code => exact .guarded (endsPayload_putCharacter code)
  | surrogates low high =>
      exact .guarded (.refuse (.refuse (.bind (endsPayload_advance (by simp)))))
  | whitespace text => exact .guarded (.refuse (.bind (endsPayload_advance (by simp))))
  | text text =>
      have notEmpty : text ≠ "" := by simpa [Call.keepsPayload] using leaves
      exact .guarded (endsPayload_putText notEmpty)
  | raw text => exact .guarded (.bind (endsPayload_advance (by simp)))
  | hexadecimal bytes => exact .guarded (.bind (endsPayload_advance (by simp)))
  | name name =>
      exact .guarded (.observe (overlooks_checkName _ _) fun _ => .bind (endsPayload_advance (by simp)))
  | token name => exact .guarded (.refuse (.bind (endsPayload_advance (by simp))))
  | qualifiedName localName uri => exact .guarded (endsPayload_putQualifiedName localName uri)

/-! ## Ends and steps -/

theorem shut_of_awaits (awaits : first.Awaits second) : shut first = shut second := by
  rcases awaits.same with ⟨output, special, carry, same⟩
  have notClosed : second.phase ≠ .closed := by
    rw [same]
    exact awaits.notClosed
  have completed : first.completed = second.completed := by
    rw [Writer.completed, Writer.completed, completeAll_of_awaits awaits]
  rw [shut_eq, shut_eq, if_neg awaits.notClosed, if_neg notClosed, completed]

theorem release_of_awaits (awaits : first.Awaits second) : first.release = second.release := by
  rw [release, release, shut_of_awaits awaits]

theorem close_of_awaits (awaits : first.Awaits second) : first.step .close = second.step .close := by
  simp only [step, call, perform, answered_eq, shut_of_awaits awaits]

/-- What comes after a payload does the same as if that had been ended before, or it is refused before
it does anything. -/
theorem step_of_awaits {call : Call} (leaves : call.keepsPayload = false)
    (awaits : first.Awaits second) :
    first.step call = second.step call ∨
      ∃ error, (first.step call).1 = .error error ∧ (second.step call).1 = .error error ∧
        (first.step call).2.Awaits (second.step call).2 := by
  by_cases closes : call = .close
  · subst closes
    exact .inl (close_of_awaits awaits)
  · have notQuery (question : Query) : call ≠ .query question := by
      rintro rfl
      cases leaves
    have alike := endsPayload_perform leaves closes awaits
    generalize performs : perform call first = result at alike
    generalize performsToo : perform call second = resultToo at alike
    cases alike with
    | refused error awaits =>
        rw [step_of_error performs, step_of_error performsToo]
        exact .inr ⟨error, rfl, rfl, awaits⟩
    | same =>
        left
        cases result with
        | ok nothing after => rw [step_of_ok notQuery performs, step_of_ok notQuery performsToo]
        | error error after => rw [step_of_error performs, step_of_error performsToo]

end Writer

end XmlStream
