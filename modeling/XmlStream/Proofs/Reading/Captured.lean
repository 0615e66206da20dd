import XmlStream.Proofs.Bindings.Latest
import XmlStream.Proofs.Completion.Explicit
import XmlStream.Proofs.Reading.Values

namespace XmlStream

/-! What a special attribute says is drawn from the value that a reader finds in its quotes,
however the attribute is ended. -/

namespace Draft

variable {draft after : Draft}

/-- It is known what the value of a special attribute says. Outside elements there is nothing
that a declaration could bind a prefix for. -/
def Records (draft : Draft) (special : SpecialAttribute) : Prop :=
  match special.kind with
  | .language => draft.top.language = some special.value
  | .space => Writer.spaceHandling? special.value = some draft.top.space
  | .declaration none => 0 < draft.depth → draft.top.defaultUri = special.value
  | .declaration (some nsPrefix) =>
    0 < draft.depth → draft.scope.uri? nsPrefix = some special.value

theorem BindsPrefix.uri?_eq {nsPrefix uri : String} {declared : Bool}
    (binds : draft.BindsPrefix nsPrefix uri declared after) :
    after.scope.uri? nsPrefix = some uri := by
  cases binds with
  | known position latest same =>
      cases declared with
      | false => exact same
      | true => exact (Scope.uri?_declare _ _ _).trans same
  | fresh different unused => simp [Scope.uri?_concat]

theorem Applies.records {special : SpecialAttribute} (applies : draft.Applies special after) :
    after.Records special := by
  cases applies with
  | language value => simp [Records]
  | space value space asked => simpa [Records] using asked
  | outside nsPrefix value outside =>
      cases nsPrefix <;> exact fun inside => absurd outside (Nat.ne_of_gt inside)
  | prefixed nsPrefix value _ _ _ binds => exact fun _ => binds.uri?_eq
  | default value _ _ binds =>
      intro _
      rw [binds.result, setDefault, top_modifyTop]

end Draft

namespace Writer

open Reading

variable {before after opened written : Writer} {text value : String} {kind : SpecialKind}
  {special : SpecialAttribute}

theorem special_of_openAttribute {request : NameRequest} {nothing : Unit}
    (ok : openAttribute request before = .ok nothing after)
    (isSpecial : after.special.map (·.kind) = some kind) : after.special = some { kind } := by
  have begun : ∃ kind : Option SpecialKind, after.special = kind.map fun kind => { kind } := by
    simp only [openAttribute, bind_eq_ok] at ok
    rcases ok with ⟨_, _, _, _, _, _, ⟨nsPrefix, kind⟩, _, _, ok⟩
    refine ⟨kind, ?_⟩
    cases nsPrefix with
    | none =>
        simp only [bind_eq_ok, modify_eq_ok] at ok
        rcases ok with ⟨_, _, _, _, _, _, _, _, _, rfl⟩
        rfl
    | some nsPrefix =>
        simp only [bind_eq_ok, get_eq_ok, ite_eq_ok, modify_eq_ok] at ok
        rcases ok with ⟨_, _, _, ⟨_, _, _, _, _, _, _, _, _, _, _, _, _, rfl⟩ |
          ⟨_, _, _, _, _, _, _, _, _, _, rfl⟩⟩ <;> rfl
  rcases begun with ⟨found, same⟩
  rw [same] at isSpecial ⊢
  cases found <;> simp_all

theorem closeValue_records {nothing : Unit} (sound : before.bindings.Sound)
    (isSpecial : before.special = some special) (ok : closeValue before = .ok nothing after) :
    before.output.Extends before.settings.quote.text after.output ∧ after.draft.Records special := by
  simp only [closeValue, bind_eq_ok, get_eq_ok] at ok
  rcases ok with ⟨_, _, ⟨rfl, rfl⟩, ok⟩
  simp only [isSpecial, bind_eq_ok, modify_eq_ok] at ok
  rcases ok with ⟨_, _, rfl, _, applied, applies, quoted⟩
  rcases applySpecial_ok (by exact sound) applies with ⟨silent, applies⟩
  rcases emitQuote_ok quoted with ⟨output, rfl, extended⟩
  have settings : applied.settings = before.settings := applies.frames.settings
  rw [silent.output, settings] at extended
  exact ⟨extended, applies.records⟩

def whole (writer : Writer) (part : String) : String := part ++ writer.draft.payloadEnd

theorem Fills.whole (fills : opened.Fills text value written) (isSpecial : opened.special = some { kind })
    {paid : Writer} (finished : finishPayload written = .ok () paid) :
    opened.output.Extends (written.whole text) paid.output ∧
      paid.settings = opened.settings ∧ paid.special = some ⟨kind, written.whole value⟩ := by
  have complete := fills.trans (finishPayload_fills finished)
  refine ⟨complete.output, complete.settings, ?_⟩
  rw [complete.special, captured, isSpecial]
  simp [Writer.whole]

/-! ## Ends of values -/

theorem Ready.nextPhase?_of_inValue (ready : before.Ready)
    (inValue : before.phase = .attribute ∨ before.phase = .topAttribute) :
    ∃ next, before.nextPhase? .endAttribute = some next := by
  rcases inValue with inTag | onTop
  · exact ⟨.element, by simp [nextPhase?, inTag, next?_endAttribute]⟩
  · exact ⟨.epilog, ready.nextPhase?_endAttribute onTop⟩

theorem step_endAttribute_ok (ok : (before.step .endAttribute).1.isOk = true) :
    advance .endAttribute before = .ok () (before.step .endAttribute).2 :=
  (guarded_ok (step_ok ok)).2

theorem Fills.ended (fills : opened.Fills text value written) (isSpecial : opened.special = some { kind })
    (sound : written.bindings.Sound) (ok : (written.step .endAttribute).1.isOk = true) :
    opened.output.Extends (written.whole text ++ opened.settings.quote.text)
        (written.step .endAttribute).2.output ∧
      (written.step .endAttribute).2.draft.Records ⟨kind, written.whole value⟩ := by
  rcases advance_ok (step_endAttribute_ok ok) with ⟨_, paid, room, _, _, finished, made, result⟩
  rcases finished with ⟨_, _, finished⟩ | ⟨base64, _⟩
  · rcases fills.whole isSpecial finished with ⟨extended, settings, captured⟩
    rcases finishPayload_ok finished with ⟨_, _, pays, _⟩
    simp only [makeRoom, get_bind_eq, bind_eq_ok, pure_eq_ok] at made
    rcases made with ⟨_, _, closed, _, rfl⟩
    rcases closeValue_records (pays.sound sound) captured closed with ⟨quoted, records⟩
    rw [settings] at quoted
    rw [result]
    exact ⟨extended.trans quoted, records⟩
  · cases base64

theorem Fills.refused (fills : opened.Fills text value written) (isSpecial : opened.special = some { kind })
    (ready : written.Ready) (inValue : written.phase = .attribute ∨ written.phase = .topAttribute)
    (unfailing : written.output.sink.Unfailing) {error : WriterError}
    (fails : (written.step .endAttribute).1 = .error error) :
    RefusesValue ⟨kind, written.whole value⟩ error := by
  have notClosed : written.phase ≠ .closed := by
    rcases inValue with phase | phase <;> simp [phase]
  rcases step_eq written .endAttribute with ⟨answer, steps⟩
  rw [steps, perform, guarded, if_neg notClosed] at fails
  cases went : advance .endAttribute written with
  | ok _ ended =>
      rw [went] at fails
      cases fails
  | error cause stuck =>
      rw [went] at fails
      cases fails
      rcases ready.nextPhase?_of_inValue inValue with ⟨next, leads⟩
      rcases advance_error (by simp) leads unfailing went with ⟨paid, finished, still, stops⟩
      rcases fills.whole isSpecial finished with ⟨_, _, captured⟩
      rcases finishPayload_ok finished with ⟨_, _, pays, _⟩
      simp only [makeRoom, get_bind_eq, bind_eq_error, pure_eq_error, and_false, exists_false,
        or_false] at stops
      rcases closeValue_error (pays.sound ready.sound.bindings) still stops with
        ⟨⟨found, isFound, refuses⟩, _⟩
      rw [captured] at isFound
      cases isFound
      exact refuses

theorem payload_of_endAttribute {nothing : Unit} (sound : before.bindings.Sound)
    (ok : advance .endAttribute before = .ok nothing after) : after.payload = none := by
  rcases advance_split (by simp) ok with
    ⟨_, _, paid, room, _, finished, noPayload, leads, made, result⟩
  simp only [makeRoom, get_bind_eq, bind_eq_ok, pure_eq_ok] at made
  rcases made with ⟨_, _, closed, _, rfl⟩
  have noPayload := noPayload (by simp)
  have value := closeValue_ok (finished.sound sound) noPayload leads closed
  have rest := payload_of_completes value.path value.events noPayload
  rw [result]
  exact rest

theorem completeAll_via_endAttribute (ready : before.Ready)
    (inValue : before.phase = .attribute ∨ before.phase = .topAttribute) :
    completeAll before = .ok () after ↔
      ∃ ended, advance .endAttribute before = .ok () ended ∧ completeAll ended = .ok () after := by
  rcases inValue with inTag | onTop
  · exact completing_completeAll ready inTag
  · have outside : before.depth = 0 := ready.placed.outside (by simp [onTop])
    rw [completeAll_of_top ready onTop]
    have nothing {ended : Writer} (went : advance .endAttribute before = .ok () ended) :
        completeAll ended = .ok () ended := by
      rcases advance_endAttribute_ok ready.sound.bindings went with ⟨_, _, _, _, leads, _, depth⟩
      have notTop : ended.phase ≠ .topAttribute := by
        intro still
        rw [onTop, still] at leads
        cases mode : before.mode <;> rw [mode] at leads <;> cases leads
      have noPayload := payload_of_endAttribute ready.sound.bindings went
      rw [completeAll_of_paid notTop (finishPayload_of_none noPayload), depth, outside]
      rfl
    constructor
    · intro ok
      exact ⟨after, ok, nothing ok⟩
    · rintro ⟨ended, went, completes⟩
      rw [nothing went] at completes
      cases completes
      exact went

theorem endDocument_of_top {call : Call} (ready : before.Ready) (onTop : before.phase = .topAttribute)
    (leaves : call.leavesValue = true) (ok : (before.step call).1.isOk = true) :
    call = .endDocument := by
  have outside : before.depth = 0 := ready.placed.outside (by simp [onTop])
  have stuck {token : Token} {after : Writer} {nothing : Unit} (leaves : leavesValue token = true)
      (went : advance token before = .ok nothing after) : False := by
    rcases advance_ok went with ⟨next, _, _, _, leads, _⟩
    simp only [nextPhase?, onTop, Option.bind_eq_bind, Option.bind_eq_some_iff] at leads
    rcases leads with ⟨_, leads, _⟩
    cases token <;> cases leaves <;> cases mode : before.mode <;> rw [mode] at leads <;> cases leads
  have notOpened {request : NameRequest} {after : Writer} {nothing : Unit}
      (ok : guarded (openElement request) before = .ok nothing after) : False := by
    rcases openElement_ok ready.sound (guarded_ok ok).2 with ⟨_, went, _⟩
    exact stuck rfl went
  have notStarted {request : NameRequest} {after : Writer} {nothing : Unit}
      (ok : guarded (openAttribute request) before = .ok nothing after) : False := by
    rcases openAttribute_ok ready.sound (guarded_ok ok).2 with ⟨_, went, _⟩
    exact stuck rfl went
  have notClosed {separate : Bool} {after : Writer} {nothing : Unit}
      (ok : guarded (closeElement separate) before = .ok nothing after) : False := by
    rcases closeElement_ok ready.sound.bindings (guarded_ok ok).2 with ⟨_, _, ends⟩
    have depth := ends.depth
    omega
  -- Every other call that leaves a value needs room for a token, or an element to end.
  have performed := step_ok ok
  cases call with
  | endDocument => rfl
  | startElement request => exact (notOpened performed).elim
  | startAttribute request => exact (notStarted performed).elim
  | endElement | fullEndElement => exact (notClosed performed).elim
  | attributeString request value =>
      rcases bind_eq_ok.mp performed with ⟨_, _, opens, _⟩
      exact (notStarted opens).elim
  | elementString request value =>
      rcases bind_eq_ok.mp performed with ⟨_, _, opens, _⟩
      exact (notOpened opens).elim
  | cdata text =>
      have ok := (guarded_ok performed).2
      simp only [putCData, refuse_bind_eq_ok, bind_eq_ok] at ok
      rcases ok with ⟨_, _, _, went, _⟩
      exact (stuck rfl went).elim
  | comment text =>
      have ok := (guarded_ok performed).2
      simp only [putComment, refuse_bind_eq_ok, bind_eq_ok] at ok
      rcases ok with ⟨_, _, _, went, _⟩
      exact (stuck rfl went).elim
  | instruction target text =>
      have ok := (guarded_ok performed).2
      simp only [putInstruction, refuse_bind_eq_ok, bind_eq_ok, get_eq_ok] at ok
      rcases ok with ⟨_, _, _, ⟨rfl, rfl⟩, _, _, _, checked, _, _, went, _⟩
      rcases checkName_ok checked with ⟨rfl, _⟩
      exact (stuck rfl went).elim
  | _ => cases leaves

theorem finishDocument_via_endAttribute (ready : before.Ready) (onTop : before.phase = .topAttribute)
    (ok : finishDocument before = .ok () after) :
    ∃ ended, advance .endAttribute before = .ok () ended ∧ finishDocument ended = .ok () after := by
  simp only [finishDocument, bind_eq_ok, get_eq_ok, refuse_bind_eq_ok, modify_eq_ok] at ok
  rcases ok with ⟨_, _, ⟨rfl, rfl⟩, _, _, done, completes, _, _, rfl, flushes⟩
  rcases (completeAll_via_endAttribute ready (.inr onTop)).mp completes with ⟨ended, went, completes⟩
  refine ⟨ended, went, ?_⟩
  rcases advance_endAttribute_ok ready.sound.bindings went with ⟨_, _, _, _, leads, mode, _⟩
  rw [onTop] at leads
  have fragment : before.mode ≠ .document := fun document =>
    absurd onTop (ready.placed.document document).2.1
  have allowed : ¬(ended.phase = .failed || (ended.mode = .document &&
      (ended.phase = .prolog || ended.phase = .afterDoctype))) = true := by
    have notFailed : ended.phase ≠ .failed := by
      intro failed
      rw [failed] at leads
      cases found : before.mode <;> rw [found] at leads <;> cases leads
    simp [notFailed, mode, fragment]
  simp only [finishDocument, bind_eq_ok, get_eq_ok, refuse_bind_eq_ok, modify_eq_ok]
  exact ⟨_, _, ⟨rfl, rfl⟩, allowed, (), done, completes, (), _, rfl, flushes⟩

theorem left_via_endAttribute {call : Call} (ready : before.Ready)
    (inValue : before.phase = .attribute ∨ before.phase = .topAttribute)
    (leaves : call.leavesValue = true) (ok : (before.step call).1.isOk = true) :
    (before.step .endAttribute).1.isOk = true ∧
      before.step call = (before.step .endAttribute).2.step call := by
  rcases inValue with inTag | onTop
  · have via := step_via_endAttribute leaves ready inTag
    exact ⟨(via.1.mp ok).1, via.2 ok⟩
  · have only := endDocument_of_top ready onTop leaves ok
    subst only
    have performed := step_ok ok
    rcases finishDocument_via_endAttribute ready onTop (guarded_ok performed).2 with
      ⟨ended, went, finishes⟩
    have ends : before.step .endAttribute = (.ok .done, ended) := by
      apply step_of_ok (by simp)
      rw [perform, guarded, if_neg (by simp [onTop]), went]
    have notClosed : ended.phase ≠ .closed := by
      intro closed
      rcases advance_endAttribute_ok ready.sound.bindings went with ⟨_, _, _, _, leads, _⟩
      rw [onTop, closed] at leads
      cases mode : before.mode <;> rw [mode] at leads <;> cases leads
    have performedToo : perform .endDocument ended = .ok () (before.step .endDocument).2 := by
      rw [perform, guarded, if_neg notClosed, finishes]
    rw [ends, step_of_ok (by simp) performed, step_of_ok (by simp) performedToo]
    exact ⟨rfl, rfl⟩

theorem completed_via_endAttribute (ready : before.Ready)
    (inValue : before.phase = .attribute ∨ before.phase = .topAttribute)
    (unfailing : before.output.sink.Unfailing) (ended : (before.step .endAttribute).1.isOk = true) :
    before.completed = (before.step .endAttribute).2.completed ∧
      (before.step .endAttribute).2.phase ≠ .closed := by
  have went := step_endAttribute_ok ended
  generalize (before.step .endAttribute).2 = after at went
  rcases advance_endAttribute_ok ready.sound.bindings went with
    ⟨_, _, runs, completes, leads, _, _⟩
  have readyAfter := (runs.does completes).ready ready
  have outside : after.phase = .element ∨ after.phase = .epilog := by
    rcases inValue with phase | phase <;> rw [phase] at leads <;>
      cases mode : before.mode <;> rw [mode] at leads <;> cases found : after.phase <;>
      rw [found] at leads <;> simp_all [Mode.next?, Mode.permits, Token.next?]
  have live : ¬after.Spent := by
    rcases outside with phase | phase <;> simp [Spent, phase]
  have noSpecial : after.special = none := by
    apply readyAfter.placed.special_eq_none <;> rcases outside with phase | phase <;> simp [phase]
  refine ⟨?_, fun closed => live (.inr closed)⟩
  cases result : completeAll after with
  | ok _ done =>
      have whole := (completeAll_via_endAttribute ready inValue).mpr ⟨after, went, result⟩
      rw [completed, completed, whole, result]
  | error error stuck =>
      have still := runs.output.unfailing unfailing
      rcases (completeAll_error readyAfter live still result).1 with ⟨_, _, refused, _⟩
      simp [noSpecial] at refused

theorem close_via_endAttribute (ready : before.Ready)
    (inValue : before.phase = .attribute ∨ before.phase = .topAttribute)
    (unfailing : before.output.sink.Unfailing) (ended : (before.step .endAttribute).1.isOk = true) :
    before.step .close = (before.step .endAttribute).2.step .close ∧
      before.release = (before.step .endAttribute).2.release := by
  rcases completed_via_endAttribute ready inValue unfailing ended with ⟨same, notClosed⟩
  have notClosedToo : before.phase ≠ .closed := by
    rcases inValue with phase | phase <;> simp [phase]
  have shuts : shut before = shut (before.step .endAttribute).2 := by
    rw [shut_eq, shut_eq, if_neg notClosed, if_neg notClosedToo, same]
  have calls (writer : Writer) : Writer.call .close writer = _ := answered_eq shut writer
  constructor
  · rw [step, step, calls, calls, shuts]
  · rw [release, release, shuts]

/-- The value of a special attribute is read back as it has been captured. Any calls that add to a
value, but for raw text and entities by their names, put a text between the quotes that conveys to a
reader just the value which is captured beside it. However the attribute is ended, that value is the
one that a prefix is bound to, that the language is taken from or that is checked: by a call of its
own, by a call that leaves the value, by closing the writer or by giving it up. -/
theorem captured_value_of_run (output : OutputBuffer) (settings : Settings) (calls values : List Call)
    (request : NameRequest) (kind : SpecialKind) (opened written : Writer)
    (reached : opened = ((create output settings).run (calls ++ [.startAttribute request])).2)
    (started : (((create output settings).run calls).2.step (.startAttribute request)).1.isOk = true)
    (isSpecial : opened.special.map (·.kind) = some kind)
    (add : ∀ call ∈ values, call.addsValue = true) (accepts : opened.Accepts values)
    (made : written = (opened.run values).2) :
    let quote := opened.settings.quote
    let ended := (written.step .endAttribute).2
    ∃ text value : String, Conveys (some quote) text.toList value.toList ∧
      (∀ charset : Charset, Conveys (some quote) (text.toList.flatMap charset.shown) value.toList) ∧
      ((written.step .endAttribute).1.isOk = true →
        opened.output.Extends (text ++ quote.text) ended.output ∧ ended.draft.Records ⟨kind, value⟩) ∧
      (∀ call : Call, call.leavesValue = true → (written.step call).1.isOk = true →
        (written.step .endAttribute).1.isOk = true ∧ written.step call = ended.step call) ∧
      (output.sink.Unfailing →
        (∀ error, (written.step .endAttribute).1 = .error error → RefusesValue ⟨kind, value⟩ error) ∧
        ((written.step .endAttribute).1.isOk = true →
          written.step .close = ended.step .close ∧ written.release = ended.release)) := by
  intro quote ended
  rw [run_concat] at reached
  have kept := run_extends (ready_create output settings) calls
  generalize ((create output settings).run calls).2 = writer at kept started reached
  have opens := (guarded_ok (step_ok started)).2
  have notClosed := (guarded_ok (step_ok started)).1
  rw [← reached] at opens
  have live : ¬writer.Spent := by
    rintro (failed | closed)
    · exact openAttribute_failed failed opens
    · exact notClosed closed
  rcases kept.resolve_left live with ⟨ready, _, extended⟩
  rcases openAttribute_ok ready.sound opens with ⟨_, _, does, phase⟩
  have readyOpened := does.ready ready
  rcases fills_of_accepts ⟨phase, readyOpened.sound.bindings⟩ add accepts with ⟨text, value, fills⟩
  rw [← made] at fills
  have readyWritten : written.Ready := by
    have stays : ∀ call ∈ values, call ≠ .close := by
      rintro call member rfl
      cases add _ member
    rcases run_ok readyOpened accepts stays with ⟨_, follows⟩
    rw [made]
    exact (follows.does readyOpened.sound).ready readyOpened
  have inValue : written.phase = .attribute ∨ written.phase = .topAttribute := by
    rwa [fills.phase]
  have empty := special_of_openAttribute opens isSpecial
  have yields := fills.yields.append (yields_payloadEnd _ written.draft)
  refine ⟨written.whole text, written.whole value, yields.plain.conveys,
    fun charset => (yields.shown charset).conveys,
    fills.ended empty readyWritten.sound.bindings,
    fun call leaves ok => left_via_endAttribute readyWritten inValue leaves ok, fun unfailing => ?_⟩
  have still : written.output.sink.Unfailing := by
    rcases does with ⟨_, _, runs, _⟩
    exact fills.output.unfailing (runs.output.unfailing (extended.unfailing unfailing))
  exact ⟨fun error => fills.refused empty readyWritten inValue still,
    close_via_endAttribute readyWritten inValue still⟩

/-- A declaration whose value is written as text, in base64 and as a reference, and which is ended by
the start of another element. -/
theorem captured_value_of_run_declaring :
    let calls : List Call := [.startElement { localName := "a" }]
    let request : NameRequest := { nsPrefix := some "xmlns", localName := "p" }
    let values : List Call := [.text "urn:<&", .base64 [1], .base64 [2], .character 0x27]
    let call : Call := .startElement { nsPrefix := some "p", localName := "b" }
    let written := ((create { sink := {} }).run (calls ++ .startAttribute request :: values)).2
    let ended := (written.step .endAttribute).2
    (written.step call).1.isOk = true ∧ written.step call = ended.step call ∧
      written.release = ended.release ∧
      ∃ text value : String, Conveys (some .double) text.toList value.toList ∧
        ended.draft.Records ⟨.declaration (some "p"), value⟩ := by
  intro calls request values call written ended
  let opened := ((create { sink := {} }).run (calls ++ [.startAttribute request])).2
  have started : (((create { sink := {} }).run calls).2.step (.startAttribute request)).1.isOk =
      true := by decide +kernel
  have isSpecial : opened.special.map (·.kind) = some (.declaration (some "p")) := by decide +kernel
  have quote : opened.settings.quote = .double := by decide +kernel
  have add : ∀ call ∈ values, call.addsValue = true := by decide
  have accepts : opened.Accepts values := by
    rw [Accepts]
    decide +kernel
  have ok : (written.step call).1.isOk = true := by decide +kernel
  have made : written = (opened.run values).2 := by
    have split : calls ++ .startAttribute request :: values =
        (calls ++ [.startAttribute request]) ++ values := rfl
    show ((create { sink := {} }).run _).2 = _
    rw [split, run_append]
  have leaves : call.leavesValue = true := rfl
  have reached : opened = ((create { sink := {} }).run (calls ++ [.startAttribute request])).2 := rfl
  clear_value calls request values call opened
  rcases captured_value_of_run { sink := {} } {} calls values request _ opened written reached started
    isSpecial add accepts made with ⟨text, value, conveys, _, known, left, closes⟩
  rcases left call leaves ok with ⟨ends, same⟩
  rw [quote] at conveys
  exact ⟨ok, same, ((closes ⟨rfl, rfl⟩).2 ends).2, text, value, conveys, (known ends).2⟩

/-- A reference to an entity is captured as it is spelled, also where a reader knows the character
that it stands for: the prefix is bound to another namespace than the document declares it for. -/
theorem captured_entity :
    let calls : List Call :=
      [.startElement { localName := "root" },
        .startAttribute { nsPrefix := some "xmlns", localName := "p" }, .text "urn:a?b",
        .entity "amp", .text "c", .endAttribute]
    let writer := create { sink := {} }
    let after := (writer.run calls).2
    writer.Accepts calls ∧
      after.output.delivered = "<root xmlns:p=\"urn:a?b&amp;c\"".toUTF8 ∧
      Conveys (some .double) "urn:a?b&amp;c".toList "urn:a?b&c".toList ∧
      after.lookupPrefix "urn:a?b&c" = none ∧
      after.bindings.scope.uri? "p" = some "urn:a?b&amp;c" := by
  intro calls writer after
  have escapes : (TextPosition.attribute .double).escaped "urn:a?b&c" = "urn:a?b&amp;c" := by
    decide +kernel
  have conveys := (yields_escaped .double "urn:a?b&c").plain.conveys
  rw [escapes] at conveys
  refine ⟨?_, by decide +kernel, conveys, by decide +kernel, by decide +kernel⟩
  rw [Accepts]
  decide +kernel

end Writer

end XmlStream
