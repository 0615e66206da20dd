import XmlStream.Proofs.Draft.Layered
import XmlStream.Proofs.Simulation.Finish

namespace XmlStream

/-! Calls as steps of the draft: which events of its own every call causes, besides the
completions that go before them. -/

inductive Call.Gives : Call → Piece → Prop
  | text (text : String) : Gives (.text text) (.text text)
  | name (name : String) : Gives (.name name) (.text name)
  | token (name : String) : Gives (.token name) (.text name)
  | qualifiedName (localName : String) (uri : Option String) :
      Gives (.qualifiedName localName uri) (.text localName)
  | whitespace (text : String) : Gives (.whitespace text) (.whitespace text)
  | raw (text : String) : Gives (.raw text) (.raw text)
  | entity (name : String) : Gives (.entity name) (.entity name)
  | hexadecimal (bytes : List UInt8) : Gives (.hexadecimal bytes) (.hexadecimal bytes)
  | character (code : Nat) (character : Char) : Gives (.character code) (.character character)
  | surrogates (low high : Nat) (character : Char) :
      Gives (.surrogates low high) (.character character)

inductive Call.Sets : Call → Setting → Prop
  | namespaces (enabled : Bool) : Sets (.setNamespaces enabled) (.namespaces enabled)
  | formatting (formatting : Formatting) :
      Sets (.setFormatting formatting) (.formatting formatting)
  | indentation (width : Width) : Sets (.setIndentation width) (.indentation width)
  | indentChar (character : Char) : Sets (.setIndentChar character) (.indentChar character)
  | quote (character : Char) (quote : Quote) (stands : Quote.ofChar? character = some quote) :
      Sets (.setQuoteChar character) (.quote quote)

namespace Writer

/-- The events that are a call's own. The names in start tags are judged where there is
room for them. -/
inductive Owns (before : Writer) : Call → List Event → Prop
  | query (question : Query) : Owns before (.query question) []
  | flush : Owns before .flush []
  | noText : Owns before (.text "") []
  | setting (call : Call) (setting : Setting) (sets : call.Sets setting) :
      Owns before call [.configure setting]
  | document (standalone : Option Bool) :
      Owns before (.startDocument standalone)
        [.xmlDeclaration before.output.encoding? standalone]
  | finish : Owns before .endDocument [.finish]
  | doctype (name : String) (publicId systemId subset : Option String) :
      Owns before (.doctype name publicId systemId subset)
        [.doctype name publicId systemId subset]
  | startElement (request : NameRequest) (room opened : Writer)
      (went : advance .startElement before = .ok () room)
      (opens : openElement request before = .ok () opened) :
      Owns before (.startElement request)
        [.startElement (room.draft.asked request) opened.draft.owesDefault]
  | endElement : Owns before .endElement []
  | fullEndElement : Owns before .fullEndElement []
  | startAttribute (request : NameRequest) (room : Writer)
      (went : advance .startAttribute before = .ok () room) :
      Owns before (.startAttribute request)
        [.startAttribute (room.draft.asked request) (room.draft.relies request)]
  | endAttribute : Owns before .endAttribute []
  | attributeString (request : NameRequest) (value : String) (room : Writer)
      (pieces : List Event) (went : advance .startAttribute before = .ok () room)
      (adds : pieces = [] ∨ ∃ kind, pieces = [.write (.text value) kind]) :
      Owns before (.attributeString request value)
        (.startAttribute (room.draft.asked request) (room.draft.relies request) :: pieces)
  | elementString (request : NameRequest) (value : Option String) (room opened : Writer)
      (pieces : List Event) (went : advance .startElement before = .ok () room)
      (opens : openElement request before = .ok () opened)
      (adds : pieces = [] ∨
        ∃ text, value = some text ∧ pieces = [.write (.text text) none]) :
      Owns before (.elementString request value)
        (.startElement (room.draft.asked request) opened.draft.owesDefault :: pieces)
  | cdata (text : String) : Owns before (.cdata text) [.cdata text]
  | comment (text : String) : Owns before (.comment text) [.comment text]
  | instruction (target text : String) :
      Owns before (.instruction target text) [.instruction target text]
  | piece (call : Call) (piece : Piece) (kind : Option SpecialKind) (gives : call.Gives piece)
      (stands : kind = none ∨ kind = before.special.map (·.kind)) :
      Owns before call [.write piece kind]
  | qualified (localName uri : String) (kind : Option SpecialKind)
      (stands : kind = none ∨ kind = before.special.map (·.kind)) :
      Owns before (.qualifiedName localName (some uri))
        [.qualify uri kind, .write (.text localName) kind]
  | base64 (chunk : List UInt8) (kind : Option SpecialKind)
      (stands : kind = none ∨ kind = before.special.map (·.kind)) :
      Owns before (.base64 chunk) [.feed chunk kind]

/-- A writer whose document is as it should be. -/
structure Ready (writer : Writer) : Prop where
  sound : writer.Sound
  placed : writer.draft.Placed
  layered : writer.draft.Layered
  carried : writer.draft.Carried

theorem Does.ready {before after : Writer} {own : List Event} (does : before.Does own after)
    (ready : before.Ready) : after.Ready := by
  obtain ⟨_, _, runs, _⟩ := does
  exact ⟨runs.sound, ready.placed.path runs.path, ready.layered.path runs.path,
    ready.carried.path runs.path⟩

variable {before after : Writer}

theorem guarded_ok {call : Action Unit} {nothing : Unit}
    (ok : guarded call before = .ok nothing after) :
    before.phase ≠ .closed ∧ call before = .ok () after := by
  unfold guarded at ok
  split at ok
  · simp at ok
  · rename_i notClosed
    refine ⟨notClosed, ?_⟩
    split at ok
    · rename_i done result found
      rw [found]
      simp only [EStateM.Result.ok.injEq, true_and] at ok
      rw [ok]
    · simp at ok

theorem configure_does {setting : Setting} (sound : before.Sound)
    (result : after = { before with settings := setting.apply before.settings })
    (atStart : ∀ enabled, setting = .namespaces enabled → before.phase = .start)
    (unquoted : ∀ quote, setting = .quote quote →
      before.phase ≠ .attribute ∧ before.phase ≠ .topAttribute) :
    before.Does [.configure setting] after := by
  have step : before.draft.Step (.configure setting) _ _ := .configure setting atStart unquoted
  subst result
  exact ⟨_, _, ⟨.single step, .refl _, sound.bindings, sound.lastToken⟩, rfl⟩

theorem Adds.owns {call : Call} {own : Option SpecialKind → List Event}
    (adds : before.Adds own after)
    (owns : ∀ kind, kind = none ∨ kind = before.special.map (·.kind) → Owns before call (own kind)) :
    ∃ own, Owns before call own ∧ before.Does own after := by
  obtain ⟨kind, does, stands⟩ := adds
  exact ⟨own kind, owns kind stands, does⟩

theorem text_ok {text : String} {nothing : Unit} (sound : before.Sound)
    (ok : guarded (putText text) before = .ok nothing after) :
    ∃ pieces, (pieces = [] ∨ ∃ kind, (kind = none ∨ kind = before.special.map (·.kind)) ∧
        pieces = [.write (.text text) kind]) ∧ before.Does pieces after := by
  obtain ⟨does, _⟩ | ⟨kind, does, stands⟩ := putText_ok sound (guarded_ok ok).2
  · exact ⟨[], .inl rfl, does⟩
  · exact ⟨_, .inr ⟨kind, stands, rfl⟩, does⟩

/-- What a call that succeeds has done, unless it closes the writer. -/
theorem perform_ok {call : Call} {nothing : Unit} (ready : before.Ready)
    (stays : call ≠ .close) (ok : perform call before = .ok nothing after) :
    ∃ own, Owns before call own ∧ before.Does own after := by
  have sound := ready.sound
  have placed := ready.placed
  cases call with
  | query question =>
      simp only [perform, pure_eq_ok, true_and] at ok
      subst ok
      exact ⟨_, .query question, .refl sound⟩
  | setNamespaces enabled =>
      simp only [perform, setNamespaces, bind_eq_ok, get_eq_ok, refuse_bind_eq_ok, set_eq_ok,
        ne_eq, Decidable.not_not] at ok
      obtain ⟨_, _, ⟨rfl, rfl⟩, start, rfl⟩ := ok
      exact ⟨_, .setting _ _ (.namespaces enabled),
        configure_does sound rfl (fun _ _ => start) (by simp)⟩
  | setFormatting formatting =>
      simp only [perform, modify_eq_ok] at ok
      subst ok
      exact ⟨_, .setting _ _ (.formatting formatting), configure_does sound rfl (by simp) (by simp)⟩
  | setIndentation width =>
      simp only [perform, modify_eq_ok] at ok
      subst ok
      exact ⟨_, .setting _ _ (.indentation width), configure_does sound rfl (by simp) (by simp)⟩
  | setIndentChar character =>
      simp only [perform, modify_eq_ok] at ok
      subst ok
      exact ⟨_, .setting _ _ (.indentChar character), configure_does sound rfl (by simp) (by simp)⟩
  | setQuoteChar character =>
      cases stands : Quote.ofChar? character with
      | none => simp [perform, setQuoteChar, quoteFor, stands] at ok
      | some quote =>
          simp only [perform, setQuoteChar, quoteFor, stands, bind_eq_ok, get_eq_ok,
            refuse_bind_eq_ok, set_eq_ok, Bool.or_eq_true, decide_eq_true_eq, not_or] at ok
          obtain ⟨_, _, ⟨rfl, rfl⟩, unquoted, rfl⟩ := ok
          exact ⟨_, .setting _ _ (.quote character quote stands),
            configure_does sound rfl (by simp) (fun _ _ => unquoted)⟩
  | startDocument standalone =>
      exact ⟨_, .document standalone, beginDocument_ok sound (guarded_ok ok).2⟩
  | endDocument => exact ⟨_, .finish, finishDocument_ok sound placed (guarded_ok ok).2⟩
  | doctype name publicId systemId subset =>
      exact ⟨_, .doctype name publicId systemId subset, putDoctype_ok sound (guarded_ok ok).2⟩
  | startElement request =>
      obtain ⟨_, opens⟩ := guarded_ok ok
      obtain ⟨room, went, does, _⟩ := openElement_ok sound opens
      exact ⟨_, .startElement request room after went opens, does⟩
  | endElement =>
      obtain ⟨_, _, ends⟩ := closeElement_ok sound.bindings (guarded_ok ok).2
      exact ⟨_, .endElement, ends.runs.does ends.events⟩
  | fullEndElement =>
      obtain ⟨_, _, ends⟩ := closeElement_ok sound.bindings (guarded_ok ok).2
      exact ⟨_, .fullEndElement, ends.runs.does ends.events⟩
  | startAttribute request =>
      obtain ⟨room, went, does, _⟩ := openAttribute_ok sound (guarded_ok ok).2
      exact ⟨_, .startAttribute request room went, does⟩
  | endAttribute =>
      obtain ⟨_, _, runs, completes, _⟩ := advance_endAttribute_ok sound.bindings (guarded_ok ok).2
      exact ⟨_, .endAttribute, runs.does completes⟩
  -- Calls made of others: what each of these does, one after another.
  | attributeString request value =>
      simp only [perform, bind_eq_ok] at ok
      obtain ⟨_, opened, opens, _, filled, wrote, closes⟩ := ok
      obtain ⟨room, went, first, _⟩ := openAttribute_ok sound (guarded_ok opens).2
      obtain ⟨pieces, adds, second⟩ := text_ok first.sound wrote
      obtain ⟨_, _, runs, completes, _⟩ :=
        advance_endAttribute_ok second.sound.bindings (guarded_ok closes).2
      have adds : pieces = [] ∨ ∃ kind, pieces = [.write (.text value) kind] := by
        obtain none | ⟨kind, _, rfl⟩ := adds
        · exact .inl none
        · exact .inr ⟨kind, rfl⟩
      refine ⟨_, .attributeString request value room pieces went adds, ?_⟩
      simpa using (first.trans second).trans (runs.does completes)
  | elementString request value =>
      cases value with
      | none =>
          simp only [perform, bind_eq_ok] at ok
          obtain ⟨_, opened, opens, closes⟩ := ok
          obtain ⟨_, opens⟩ := guarded_ok opens
          obtain ⟨room, went, first, _⟩ := openElement_ok sound opens
          obtain ⟨_, _, ends⟩ := closeElement_ok first.sound.bindings (guarded_ok closes).2
          refine ⟨_, .elementString request none room opened [] went opens (.inl rfl), ?_⟩
          exact first.trans (ends.runs.does ends.events)
      | some value =>
          simp only [perform, bind_eq_ok] at ok
          obtain ⟨_, opened, opens, _, filled, wrote, closes⟩ := ok
          obtain ⟨_, opens⟩ := guarded_ok opens
          obtain ⟨room, went, first, phase⟩ := openElement_ok sound opens
          obtain ⟨pieces, adds, second⟩ := text_ok first.sound wrote
          obtain ⟨_, _, ends⟩ := closeElement_ok second.sound.bindings (guarded_ok closes).2
          -- An element has just been opened, so its text is that of no special attribute.
          have noSpecial : opened.special = none :=
            (first.ready ready).placed.special_eq_none (by simp [phase]) (by simp [phase])
          have adds : pieces = [] ∨
              ∃ text, some value = some text ∧ pieces = [.write (.text text) none] := by
            obtain none | ⟨kind, stands, rfl⟩ := adds
            · exact .inl none
            · have noKind : kind = none := by simpa [noSpecial] using stands
              exact .inr ⟨value, rfl, by rw [noKind]⟩
          refine ⟨_, .elementString request value room opened pieces went opens adds, ?_⟩
          simpa using (first.trans second).trans (ends.runs.does ends.events)
  | cdata text => exact ⟨_, .cdata text, putCData_ok sound placed (guarded_ok ok).2⟩
  | comment text => exact ⟨_, .comment text, putComment_ok sound placed (guarded_ok ok).2⟩
  | instruction target text =>
      exact ⟨_, .instruction target text, putInstruction_ok sound placed (guarded_ok ok).2⟩
  | entity name =>
      exact (putEntity_ok sound (guarded_ok ok).2).owns fun kind => .piece _ _ kind (.entity name)
  | character code =>
      obtain ⟨character, adds⟩ := putCharacter_ok sound (guarded_ok ok).2
      exact adds.owns fun kind => .piece _ _ kind (.character code character)
  | surrogates low high =>
      obtain ⟨character, adds⟩ := putSurrogates_ok sound (guarded_ok ok).2
      exact adds.owns fun kind => .piece _ _ kind (.surrogates low high character)
  | whitespace text =>
      exact (putWhitespace_ok sound (guarded_ok ok).2).owns fun kind =>
        .piece _ _ kind (.whitespace text)
  | text text =>
      obtain ⟨does, rfl⟩ | adds := putText_ok sound (guarded_ok ok).2
      · exact ⟨_, .noText, does⟩
      · exact adds.owns fun kind => .piece _ _ kind (.text text)
  | raw text =>
      exact (putRaw_ok sound (guarded_ok ok).2).owns fun kind => .piece _ _ kind (.raw text)
  | base64 chunk =>
      exact (putBase64_ok sound (guarded_ok ok).2).owns fun kind => .base64 chunk kind
  | hexadecimal bytes =>
      exact (putHexadecimal_ok sound (guarded_ok ok).2).owns fun kind =>
        .piece _ _ kind (.hexadecimal bytes)
  | name name =>
      exact (putName_ok sound (guarded_ok ok).2).owns fun kind => .piece _ _ kind (.name name)
  | token name =>
      exact (putToken_ok sound (guarded_ok ok).2).owns fun kind => .piece _ _ kind (.token name)
  | qualifiedName localName uri =>
      obtain adds | ⟨asked, rfl, adds⟩ := putQualifiedName_ok sound (guarded_ok ok).2
      · exact adds.owns fun kind => .piece _ _ kind (.qualifiedName localName uri)
      · exact adds.owns fun kind => .qualified localName asked kind
  | flush =>
      obtain ⟨_, flush⟩ := guarded_ok ok
      obtain ⟨output, flushes, rfl⟩ := onOutput_ok flush
      have extended := (OutputBuffer.extends_of_flush flushes).1
      exact ⟨_, .flush, [], "", ⟨.nil _, extended, sound.bindings, sound.lastToken⟩, rfl⟩
  | close => exact absurd rfl stays

end Writer

end XmlStream
