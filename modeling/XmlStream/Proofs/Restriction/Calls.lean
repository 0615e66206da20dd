import XmlStream.Proofs.Restriction.Ends

namespace XmlStream

/-! Every call that a document accepts is accepted by the fragment beside it. -/

namespace Writer

open OutputBuffer (Shares)

variable {earlier own : ByteArray} {α : Type}

/-- A call that a document leaves room for does the same in a fragment. -/
abbrev Allowed (earlier own : ByteArray) (action : Action α) : Prop :=
  Permits (Restricts (Shares earlier own)) (Restricts (Shares earlier own)) action action

theorem allowed_guarded {After : Writer → Writer → Prop} {action : Action Unit}
    (permits : Permits (Restricts (Shares earlier own)) After action action) :
    Permits (Restricts (Shares earlier own)) After (guarded action) (guarded action) := by
  intro first second restricts value after ok
  obtain ⟨afterToo, does, related⟩ := permits restricts (guarded_ok ok).2
  refine ⟨afterToo, ?_, related⟩
  simp only [guarded, if_neg restricts.phaseToo_ne.2, does]

theorem allowed_inner {token : Token} {action : Action Unit}
    (other : token ≠ .endElement ∧ token ≠ .separateEnd) (inner : token.isOuter = false)
    (blind : Blind (Shares earlier own) Within Eq action) :
    Allowed earlier own (advance token >>= fun _ => action) :=
  .bind (permits_advance_inner other inner) fun _ =>
    blind.permits.mono (fun _ _ => id) fun _ _ => .within

theorem allowed_outer {token : Token} {action : Action Unit}
    (other : token ≠ .endElement ∧ token ≠ .separateEnd)
    (mirrors : Mirrors (Begun earlier own) action action) :
    Allowed earlier own (advance token >>= fun _ => action) :=
  .bind (permits_advance other) fun _ =>
    mirrors.permits.mono (fun _ _ => id) fun _ _ => Begun.restricts

/-! ## Constructs -/

theorem begun_emit (markup : String) : Mirrors (Begun earlier own) (emit markup) (emit markup) :=
  .or (blind_emit markup) (blind_emit markup)

theorem begun_emitVerbatim (text : String) :
    Mirrors (Begun earlier own) (emitVerbatim text) (emitVerbatim text) :=
  .or (blind_emitVerbatim text) (blind_emitVerbatim text)

theorem begun_emitText (text : String) :
    Mirrors (Begun earlier own) (emitText text) (emitText text) := by
  refine .or (blind_emitText text) ?_
  refine .bind (blind_capture text) fun _ => .get_bind fun first second akin => ?_
  obtain ⟨phase, phaseToo⟩ := akin.stance.phases
  simp only [textPosition, phase, phaseToo]
  exact blind_emitEscaped _ text

theorem allowed_openElement (request : NameRequest) : Allowed earlier own (openElement request) :=
  .bind (mirrors_checkRequest request).permits fun _ => .refuse id <|
    allowed_inner (by simp) rfl (blind_nameElement request)

theorem allowed_openAttribute (request : NameRequest) : Allowed earlier own (openAttribute request) :=
  .bind (mirrors_checkRequest request).permits fun _ =>
    allowed_inner (by simp) rfl (blind_nameAttribute request)

theorem allowed_endAttribute : Allowed earlier own (advance .endAttribute) :=
  (permits_advance (by simp)).mono (fun _ _ => id) fun _ _ => Begun.restricts

theorem allowed_putText (text : String) : Allowed earlier own (putText text) :=
  .ite (allowed_inner (by simp) rfl (blind_emitText text)) (.pure _)

theorem allowed_putRaw (text : String) : Allowed earlier own (putRaw text) :=
  allowed_outer (by simp) (begun_emitVerbatim text)

theorem allowed_putWhitespace (text : String) : Allowed earlier own (putWhitespace text) :=
  .refuse id (allowed_outer (by simp) (begun_emitText text))

theorem allowed_putName (name : String) : Allowed earlier own (putName name) :=
  .bind (mirrors_checkName _ name).permits fun _ =>
    allowed_inner (by simp) rfl (blind_emitText name)

theorem allowed_putToken (name : String) : Allowed earlier own (putToken name) :=
  .refuse id (allowed_inner (by simp) rfl (blind_emitText name))

theorem allowed_putQualifiedName (localName : String) (uri : Option String) :
    Allowed earlier own (putQualifiedName localName uri) := by
  refine .bind (mirrors_checkName _ localName).permits fun _ =>
    .get_bind fun first second restricts => ?_
  rw [restricts.settings]
  exact .refuse id (allowed_inner (by simp) rfl (blind_emitQualified localName _))

theorem allowed_putEntity (name : String) : Allowed earlier own (putEntity name) :=
  .bind (mirrors_checkName _ name).permits fun _ =>
    allowed_inner (by simp) rfl (blind_emitEntity name)

theorem allowed_putCharacter (code : Nat) : Allowed earlier own (putCharacter code) := by
  unfold putCharacter
  cases xmlCharacter? code with
  | none => exact .throw _ _
  | some character => exact allowed_inner (by simp) rfl (blind_emitCharacter character)

theorem allowed_putSurrogates (low high : Nat) : Allowed earlier own (putSurrogates low high) :=
  .refuse id (.refuse id (allowed_inner (by simp) rfl (blind_emitCharacter _)))

theorem allowed_putBase64 (chunk : List UInt8) : Allowed earlier own (putBase64 chunk) :=
  allowed_inner (by simp) rfl (blind_feed chunk)

theorem allowed_putHexadecimal (bytes : List UInt8) : Allowed earlier own (putHexadecimal bytes) :=
  allowed_inner (by simp) rfl (blind_emitVerbatim _)

theorem allowed_putCData (text : String) : Allowed earlier own (putCData text) :=
  .refuse id <| allowed_inner (by simp) rfl <| .bind (blind_emit _) fun _ =>
    .bind (blind_emitVerbatim text) fun _ => blind_emit _

theorem allowed_putComment (text : String) : Allowed earlier own (putComment text) :=
  .refuse id <| allowed_outer (by simp) <| .bind (begun_emit _) fun _ =>
    .bind (begun_emitVerbatim text) fun _ => begun_emit _

theorem allowed_putInstruction (target text : String) :
    Allowed earlier own (putInstruction target text) := by
  refine .refuse id (.get_bind fun first second restricts => .refuse (fun refused => ?_) ?_)
  · simp only [Bool.and_eq_true] at refused ⊢
    exact ⟨refused.1, by simp [restricts.modes.1]⟩
  · refine .bind (mirrors_checkName _ target).permits fun _ => allowed_outer (by simp) ?_
    refine .bind (begun_emit _) fun _ => .bind (begun_emit _) fun _ => ?_
    exact .ite (.bind (begun_emit _) fun _ => .bind (begun_emitVerbatim text) fun _ => begun_emit _)
      (begun_emit _)

theorem allowed_putDoctype (name : String) (publicId systemId subset : Option String) :
    Allowed earlier own (putDoctype name publicId systemId subset) :=
  .bind (mirrors_checkName _ name).permits fun _ =>
    .bind (mirrors_externalId publicId systemId).permits fun _ =>
      allowed_inner (by simp) rfl (blind_emit _)

theorem allowed_closeElement (separate : Bool) : Allowed earlier own (closeElement separate) :=
  (mirrors_closeElement separate).permits

/-! ## Settings -/

theorem Restricts.change {first second : Writer} (change : Settings → Settings)
    (plain : ∀ settings : Settings, settings.indents = false → (change settings).indents = false)
    (restricts : Restricts (Shares earlier own) first second) :
    Restricts (Shares earlier own) { first with settings := change first.settings }
      { second with settings := change second.settings } := by
  cases restricts with
  | within akin => exact .within { akin with settings := congrArg change akin.settings }
  | fresh akin noElement noPayload isPlain =>
      exact .fresh { akin with settings := congrArg change akin.settings } noElement noPayload
        (plain _ isPlain)
  | after akin => exact .after { akin with settings := congrArg change akin.settings }

theorem allowed_setNamespaces (enabled : Bool) : Allowed earlier own (setNamespaces enabled) := by
  intro first second restricts value after ok
  simp [setNamespaces, restricts.inner.1] at ok

theorem allowed_setQuoteChar (character : Char) : Allowed earlier own (setQuoteChar character) := by
  unfold setQuoteChar
  cases quoteFor character with
  | error error => exact .throw _ _
  | ok quote =>
      refine .get_bind fun first second restricts => .refuse (fun refused => ?_) ?_
      · simp only [restricts.phaseToo_ne.1, decide_false, Bool.or_false, decide_eq_true_eq] at refused
        simp [(restricts.phase_iff (.inr rfl)).mpr refused]
      · exact (Mirrors.set (restricts.change (fun settings => { settings with quote })
          fun _ => id)).permits

/-! ## Calls -/

/-- A document beside a fragment, or two new fragments after the document has been ended, or two
closed writers. -/
inductive Paired (earlier own : ByteArray) (first second : Writer) : Prop
  | apart (restricts : Restricts (Shares earlier own) first second)
  | even (akin : Akin (Shares earlier own) Eq Eq first second)
  | ended (akin : Akin (Shares earlier own) Ended UpToMixed first second)

theorem permits_perform_of_restricts {call : Call} (plain : call ≠ .setFormatting .indented) :
    Permits (Restricts (Shares earlier own)) (Paired earlier own) (perform call) (perform call) := by
  have stays {action : Action Unit} (allowed : Allowed earlier own action) :
      Permits (Restricts (Shares earlier own)) (Paired earlier own) action action :=
    allowed.mono (fun _ _ => id) fun _ _ => .apart
  have guards {action : Action Unit} (allowed : Allowed earlier own action) :
      Allowed earlier own (guarded action) := allowed_guarded allowed
  cases call with
  | query question => exact stays (.pure _)
  | setNamespaces enabled => exact stays (allowed_setNamespaces enabled)
  | setFormatting formatting =>
      refine stays (.change fun _ _ => Restricts.change (fun settings => { settings with formatting })
        fun settings _ => ?_)
      cases formatting with
      | plain => rfl
      | indented => exact absurd rfl plain
  | setIndentation width =>
      exact stays (.change fun _ _ =>
        Restricts.change (fun settings => { settings with indentation := width }) fun _ => id)
  | setIndentChar character =>
      exact stays (.change fun _ _ =>
        Restricts.change (fun settings => { settings with indentChar := character }) fun _ => id)
  | setQuoteChar character => exact stays (allowed_setQuoteChar character)
  | startDocument standalone =>
      intro first second restricts value after ok
      exact absurd (phase_of_startDocument ok) restricts.inner.1
  | endDocument =>
      exact allowed_guarded (permits_finishDocument.mono (fun _ _ => id) fun _ _ => .even)
  | doctype name publicId systemId subset =>
      exact stays (guards (allowed_putDoctype name publicId systemId subset))
  | startElement request => exact stays (guards (allowed_openElement request))
  | endElement => exact stays (guards (allowed_closeElement false))
  | fullEndElement => exact stays (guards (allowed_closeElement true))
  | startAttribute request => exact stays (guards (allowed_openAttribute request))
  | endAttribute => exact stays (guards allowed_endAttribute)
  | attributeString request value =>
      exact stays (.bind (guards (allowed_openAttribute request)) fun _ =>
        .bind (guards (allowed_putText value)) fun _ => guards allowed_endAttribute)
  | elementString request value =>
      refine stays (.bind (guards (allowed_openElement request)) fun _ => ?_)
      cases value with
      | none => exact guards (allowed_closeElement false)
      | some value =>
          exact .bind (guards (allowed_putText value)) fun _ => guards (allowed_closeElement false)
  | cdata text => exact stays (guards (allowed_putCData text))
  | comment text => exact stays (guards (allowed_putComment text))
  | instruction target text => exact stays (guards (allowed_putInstruction target text))
  | entity name => exact stays (guards (allowed_putEntity name))
  | character code => exact stays (guards (allowed_putCharacter code))
  | surrogates low high => exact stays (guards (allowed_putSurrogates low high))
  | whitespace text => exact stays (guards (allowed_putWhitespace text))
  | text text => exact stays (guards (allowed_putText text))
  | raw text => exact stays (guards (allowed_putRaw text))
  | base64 chunk => exact stays (guards (allowed_putBase64 chunk))
  | hexadecimal bytes => exact stays (guards (allowed_putHexadecimal bytes))
  | name name => exact stays (guards (allowed_putName name))
  | token name => exact stays (guards (allowed_putToken name))
  | qualifiedName localName uri => exact stays (guards (allowed_putQualifiedName localName uri))
  | flush => exact stays (guards mirrors_flush.permits)
  | close => exact permits_shut.mono (fun _ _ => id) fun _ _ => .ended

theorem permits_perform_of_ended (call : Call) :
    Permits (Akin (Shares earlier own) Ended UpToMixed)
      (Akin (Shares earlier own) Ended UpToMixed) (perform call) (perform call) := by
  intro first second akin value after ok
  have closed : first.phase = .closed := akin.stance.phase
  have closedToo : second.phase = .closed := akin.stance.phaseToo
  have changed (change : Settings → Settings) : Akin (Shares earlier own) Ended UpToMixed
      { first with settings := change first.settings }
      { second with settings := change second.settings } :=
    { akin with settings := congrArg change akin.settings }
  obtain ⟨idle | rfl, _⟩ := closed_of_perform closed ok
  · cases idle with
    | query question =>
        cases ok
        exact ⟨second, rfl, akin⟩
    | setFormatting formatting =>
        cases ok
        exact ⟨_, rfl, changed fun settings => { settings with formatting }⟩
    | setIndentation width =>
        cases ok
        exact ⟨_, rfl, changed fun settings => { settings with indentation := width }⟩
    | setIndentChar character =>
        cases ok
        exact ⟨_, rfl, changed fun settings => { settings with indentChar := character }⟩
    | setQuoteChar character =>
        simp only [perform, setQuoteChar] at ok ⊢
        cases given : quoteFor character with
        | error error => simp [given] at ok
        | ok quote =>
            simp only [given, bind_eq_ok, get_eq_ok, refuse_bind_eq_ok, set_eq_ok] at ok ⊢
            obtain ⟨_, _, ⟨rfl, rfl⟩, _, rfl⟩ := ok
            exact ⟨_, ⟨_, _, ⟨rfl, rfl⟩, by simp [closedToo], rfl⟩,
              changed fun settings => { settings with quote }⟩
    | emptyText =>
        have ok : guarded (putText "") first = .ok value after := ok
        exact absurd closed (guarded_ok ok).1
  · have shuts : shut first = .ok value after := ok
    rw [shut_eq, if_pos closed] at shuts
    cases shuts
    exact ⟨second, by rw [perform, shut_eq, if_pos closedToo], akin⟩

theorem Paired.answer {first second : Writer} (paired : Paired earlier own first second)
    (question : Query) : first.answer question = second.answer question := by
  cases paired with
  | apart restricts => exact restricts.answer question
  | even akin => exact akin.answer question
  | ended akin => exact akin.answer_of_upToMixed akin.elements question

theorem permits_perform {call : Call} (plain : call ≠ .setFormatting .indented) :
    Permits (Paired earlier own) (Paired earlier own) (perform call) (perform call) := by
  intro first second paired value after ok
  cases paired with
  | apart restricts => exact permits_perform_of_restricts plain restricts ok
  | even akin =>
      obtain ⟨afterToo, does, akin⟩ := (blind_perform call).permits akin ok
      exact ⟨afterToo, does, .even akin⟩
  | ended akin =>
      obtain ⟨afterToo, does, akin⟩ := permits_perform_of_ended call akin ok
      exact ⟨afterToo, does, .ended akin⟩

theorem permits_call {request : Call} (plain : request ≠ .setFormatting .indented) :
    Permits (Paired earlier own) (Paired earlier own) (call request) (call request) := by
  cases request
  case query question =>
    refine .get_bind fun first second paired => ?_
    rw [paired.answer]
    exact .pure _
  all_goals exact .bind (permits_perform plain) fun _ => .pure _

end Writer

end XmlStream
