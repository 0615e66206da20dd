import XmlStream.Proofs.Simulation.Calls
import XmlStream.Proofs.Simulation.Finish

namespace XmlStream

/-! What calls write, to the character, where no attribute value is open. -/

namespace Draft

def lineBefore (draft : Draft) (beforeEnd : Bool) : String :=
  if draft.settings.indents ∧ (draft.depth = 0 ∨ draft.top.mixed = false) then
    draft.lineText beforeEnd
  else ""

def tagEnd (draft : Draft) : String := if draft.phase = .element then draft.owedText ++ ">" else ""

def behindTag (draft : Draft) : Draft := if draft.phase = .element then draft.settle else draft

theorem frames_behindTag (draft : Draft) : draft.Frames draft.behindTag := by
  unfold behindTag
  split
  · exact draft.frames_settle
  · exact .refl draft

def endPayload (draft : Draft) : Draft := { draft with carry := .empty, unflushed := false }

theorem behindTag_endPayload (draft : Draft) :
    draft.endPayload.behindTag = draft.behindTag.endPayload := by
  by_cases inTag : draft.phase = .element
  · rw [behindTag, behindTag, if_pos inTag, if_pos (by exact inTag)]
    rfl
  · rw [behindTag, behindTag, if_neg inTag, if_neg (by exact inTag)]

def payloadEnd (draft : Draft) : String :=
  (draft.payload.map fun carry => String.ofList carry.lastGroup).getD ""

theorem payloadEnd_of_paid {draft : Draft} (paid : draft.unflushed = false) :
    draft.payloadEnd = "" := by
  simp [payloadEnd, payload_eq_none.mpr paid]

theorem payloadEnd_of_unflushed {draft : Draft} (pending : draft.unflushed = true) :
    draft.payloadEnd = String.ofList draft.carry.lastGroup := by
  simp [payloadEnd, payload_of_unflushed pending]

def elementEnd (draft : Draft) (separate : Bool) : String :=
  if draft.phase = .element ∧ separate = false then draft.owedText ++ " />"
  else draft.tagEnd ++ draft.behindTag.lineBefore true ++
    ("</" ++ writtenName draft.top.nsPrefix draft.top.name ++ ">")

def attributeText (quote : Quote) (name value : String) : String :=
  " " ++ name ++ "=" ++ quote.text ++ TextPosition.escaped (.attribute quote) value ++ quote.text

end Draft

namespace Writer

variable {before after : Writer}

/-- A writer has come to a draft, and has written some text on the way. -/
structure Comes (before : Writer) (text : String) (draft : Draft) (after : Writer) : Prop where
  output : before.output.Extends text after.output
  draft : after.draft = draft
  sound : after.Sound

theorem Comes.trans {first second third : Writer} {text more : String} {draft next : Draft}
    (earlier : first.Comes text draft second) (later : second.Comes more next third) :
    first.Comes (text ++ more) next third :=
  ⟨earlier.output.trans later.output, later.draft, later.sound⟩

theorem Comes.writes {first second third : Writer} {text more : String} {draft : Draft}
    (earlier : first.Comes text draft second) (wrote : second.Writes more third) :
    first.Comes (text ++ more) draft third := by
  rcases wrote with ⟨output, rfl, extended⟩
  exact ⟨earlier.output.trans extended, earlier.draft, earlier.sound.bindings, earlier.sound.lastToken⟩

/-! ## Room for markup -/

theorem indent_writes {beforeEnd : Bool} {nothing : Unit} (indents : before.indents = true)
    (ok : indent beforeEnd before = .ok nothing after) :
    before.Writes (before.draft.lineBefore beforeEnd) after := by
  have indented : before.settings.indents = true := indents
  simp only [indent, bind_eq_ok, get_eq_ok] at ok
  rcases ok with ⟨_, _, ⟨rfl, rfl⟩, ok⟩
  by_cases outside : before.depth = 0
  · simp only [outside, if_true] at ok
    simpa [Draft.lineBefore, Draft.lineText, indented, outside] using emit_ok ok
  · by_cases mixed : before.top.mixed = true
    · simp only [outside, mixed, Bool.not_true, if_false, Bool.false_eq_true, pure_eq_ok,
        true_and] at ok
      subst ok
      simpa [Draft.lineBefore, outside, mixed] using Writes.refl before
    · simp only [outside, mixed, Bool.not_false, if_false, if_true] at ok
      simpa [Draft.lineBefore, Draft.lineText, indented, outside, mixed] using emit_ok ok

theorem lineBefore_of_plain (plain : before.indents ≠ true) (beforeEnd : Bool) :
    before.draft.lineBefore beforeEnd = "" := by
  have plain : before.settings.indents ≠ true := plain
  simp [Draft.lineBefore, plain]

theorem indentNext_writes {nothing : Unit} (started : before.phase ≠ .start)
    (ok : indentNext before = .ok nothing after) :
    before.Writes (before.draft.lineBefore false) after := by
  simp only [indentNext, bind_eq_ok, get_eq_ok, ite_eq_ok, pure_eq_ok, true_and,
    Bool.and_eq_true, decide_eq_true_eq] at ok
  rcases ok with ⟨_, _, ⟨rfl, rfl⟩, ⟨⟨indents, _⟩, ok⟩ | ⟨plain, rfl⟩⟩
  · exact indent_writes indents ok
  · rw [lineBefore_of_plain fun indents => plain ⟨indents, started⟩]
    exact .refl before

theorem closeOpenTag_comes {nothing : Unit} (sound : before.bindings.Sound)
    (notValue : before.phase ≠ .attribute) (ok : closeOpenTag before = .ok nothing after) :
    before.output.Extends before.draft.tagEnd after.output ∧
      after.draft = before.draft.behindTag ∧ after.bindings.Sound := by
  simp only [closeOpenTag, bind_eq_ok, get_eq_ok] at ok
  rcases ok with ⟨_, _, ⟨rfl, rfl⟩, ok⟩
  by_cases inTag : before.phase = .element
  · simp only [inTag] at ok
    rcases closeStartTag_ok sound ok with ⟨extended, settled, soundAfter, _⟩
    simpa [Draft.tagEnd, Draft.behindTag, inTag] using ⟨extended, settled, soundAfter⟩
  · have same : before = after := by
      cases phase : before.phase <;> simp_all
    subst same
    simpa [Draft.tagEnd, Draft.behindTag, inTag] using ⟨OutputBuffer.Extends.refl _, sound⟩

theorem advance_paid_ok {token : Token} {nothing : Unit} (noPayload : before.payload = none)
    (ok : advance token before = .ok nothing after) :
    ∃ next room written, before.nextPhase? token = some next ∧
      makeRoom token next before = .ok written room ∧
      after = { room with phase := next, lastToken := some written } := by
  rcases advance_ok ok with ⟨next, middle, room, written, leads, finished, made, result⟩
  refine ⟨next, room, written, leads, ?_, result⟩
  rcases finished with ⟨_, _, finished⟩ | ⟨_, rfl⟩
  · rcases finishPayload_ok finished with ⟨_, _, _, _, nothing⟩
    rwa [nothing noPayload] at made
  · exact made

theorem advance_markup_comes {token : Token} {nothing : Unit} (sound : before.bindings.Sound)
    (noPayload : before.payload = none) (notValue : before.phase ≠ .attribute)
    (started : before.phase ≠ .start) (markup : token = .startElement ∨ token = .comment)
    (ok : advance token before = .ok nothing after) :
    before.Comes (before.draft.tagEnd ++ before.draft.behindTag.lineBefore false)
        (before.draft.behindTag.enter after.phase) after ∧
      after.lastToken = some token ∧
      before.mode.next? token before.phase = some after.phase := by
  rcases advance_paid_ok noPayload ok with ⟨next, room, written, leads, made, rfl⟩
  have leads := next?_of_nextPhase? (by rcases markup with rfl | rfl <;> simp) leads
  have steps : (closeOpenTag >>= fun _ => indentNext >>= fun _ => pure token) before =
      .ok written room := by
    rcases markup with rfl | rfl <;> simpa [makeRoom] using made
  simp only [bind_eq_ok, pure_eq_ok] at steps
  rcases steps with ⟨_, inside, closed, _, _, indented, rfl, rfl⟩
  rcases closeOpenTag_comes sound notValue closed with ⟨extended, here, soundInside⟩
  have phase : inside.phase = before.phase := by
    rw [← draft_phase, here]
    unfold Draft.behindTag
    split <;> rfl
  rcases indentNext_writes (by rwa [phase]) indented with ⟨output, rfl, line⟩
  rw [here] at line
  refine ⟨⟨extended.trans line, ?_, soundInside, ?_⟩, rfl, leads⟩
  · rw [← here]
    rfl
  · rcases markup with rfl | rfl <;> simp

theorem beginDocument_comes {standalone : Option Bool} {nothing : Unit}
    (sound : before.bindings.Sound) (ok : beginDocument standalone before = .ok nothing after) :
    before.Comes (before.draft.xmlDeclaration before.output.encoding? standalone)
      { before.draft with phase := .prolog, mode := .document } after := by
  simp only [beginDocument, bind_eq_ok, get_eq_ok] at ok
  rcases ok with ⟨_, _, ⟨rfl, rfl⟩, ok⟩
  by_cases start : before.phase = .start
  · simp only [start, ne_eq, not_true_eq_false, if_false, bind_eq_ok, set_eq_ok] at ok
    rcases ok with ⟨_, _, rfl, ok⟩
    rcases emit_ok ok with ⟨output, rfl, extended⟩
    exact ⟨extended, rfl, sound, by simp⟩
  · simp [start, ite_eq_ok] at ok

theorem putComment_comes {text : String} {nothing : Unit} (sound : before.Sound)
    (noPayload : before.payload = none) (noSpecial : before.special = none)
    (notValue : before.phase ≠ .attribute) (started : before.phase ≠ .start)
    (ok : putComment text before = .ok nothing after) :
    before.Comes (before.draft.tagEnd ++ before.draft.behindTag.lineBefore false ++
        ("<!--" ++ text ++ "-->")) (before.draft.behindTag.enter after.phase) after ∧
      before.mode.next? .comment before.phase = some after.phase := by
  simp only [putComment, refuse_bind_eq_ok, bind_eq_ok] at ok
  rcases ok with ⟨_, _, room, went, _, _, opened, _, _, wrote, ok⟩
  rcases advance_markup_comes sound.bindings noPayload notValue started (.inr rfl) went with
    ⟨comes, lastToken, leads⟩
  have noSpecial : room.special = none := by
    rw [← draft_special, comes.draft]
    unfold Draft.behindTag
    split <;> exact noSpecial
  have first := emit_ok opened
  have second := emitVerbatim_plain_ok (first.special.trans noSpecial) wrote
  have wrote := comes.writes ((first.trans second).trans (emit_ok ok))
  have phase : after.phase = room.phase := by
    rw [← draft_phase, wrote.draft]
    rfl
  rw [phase]
  exact ⟨wrote, leads⟩

/-! ## Elements -/

theorem openElement_comes {request : NameRequest} {nothing : Unit} (sound : before.Sound)
    (noPayload : before.payload = none) (notValue : before.phase ≠ .attribute)
    (started : before.phase ≠ .start) (ok : openElement request before = .ok nothing after) :
    ∃ nsPrefix found,
      (before.draft.behindTag.push.enter .element).NamesElement request nsPrefix found ∧
      before.Comes (before.draft.tagEnd ++ before.draft.behindTag.lineBefore false ++
          ("<" ++ writtenName nsPrefix request.localName))
        (found.modifyTop fun element => { element with name := request.localName, nsPrefix })
        after := by
  simp only [openElement, bind_eq_ok, refuse_bind_eq_ok, modify_eq_ok] at ok
  rcases ok with ⟨_, _, checked, _, _, room, went, _, _, rfl, nsPrefix, found, names, _, wrote,
    emitted, ok⟩
  rcases checkRequest_ok checked with ⟨rfl, _, _⟩
  rcases advance_markup_comes sound.bindings noPayload notValue started (.inl rfl) went with
    ⟨comes, lastToken, leads⟩
  have phase := next?_startElement leads
  let pushed : Writer := { room with elements := room.elements.push room.bindings.size }
  have isPushed : pushed.draft = before.draft.behindTag.push.enter .element := by
    have same : pushed.draft = room.draft.push := by
      simp only [Draft.push, draft_scope, Bindings.length_scope]
      rfl
    rw [same, comes.draft, phase]
    rfl
  rcases elementPrefix_ok (show pushed.bindings.Sound from comes.sound.bindings) names with ⟨silent, names⟩
  rw [isPushed] at names
  rcases emit_ok emitted with ⟨output, rfl, extended⟩
  rcases modifyTop_ok ok with ⟨silentToo, result⟩
  refine ⟨nonEmpty? nsPrefix, found.draft, names, ?_, result, ?_, fun _ => ?_⟩
  · rw [silentToo.output]
    rw [silent.output] at extended
    exact comes.output.trans extended
  · exact silentToo.sound (silent.sound comes.sound.bindings)
  · rw [silentToo.lastToken]
    have kept : found.lastToken = room.lastToken := silent.lastToken
    simp [kept, lastToken]

/-! ## Attributes -/

theorem next?_startAttribute_element {mode : Mode} {next : Phase}
    (leads : mode.next? .startAttribute .element = some next) : .attribute = next := by
  cases mode <;> exact Option.some.inj leads

theorem next?_text_attribute {mode : Mode} {next : Phase}
    (leads : mode.next? .text .attribute = some next) : .attribute = next := by
  cases mode <;> exact Option.some.inj leads

theorem attributeRole_plain {name : String} {role : Option String × Option SpecialKind}
    (enabled : before.settings.namespaces = true) (ordinary : name ≠ "xmlns")
    (ok : attributeRole { localName := name } before = .ok role after) :
    role = (none, none) ∧ before = after := by
  simp only [attributeRole, bind_eq_ok, get_eq_ok] at ok
  rcases ok with ⟨_, _, ⟨rfl, rfl⟩, ok⟩
  have answers : (none, none) = role ∧ before = after := by
    simpa [enabled, reservedPrefix?, ordinary, ordinaryPrefix] using ok
  exact ⟨answers.1.symm, answers.2⟩

theorem openAttribute_comes {name : String} {nothing : Unit} (inTag : before.phase = .element)
    (sound : before.bindings.Sound) (enabled : before.settings.namespaces = true)
    (noPayload : before.payload = none) (noSpecial : before.special = none)
    (ordinary : name ≠ "xmlns")
    (ok : openAttribute { localName := name } before = .ok nothing after) :
    before.Comes (" " ++ (name ++ "=" ++ before.settings.quote.text))
      (before.draft.enter .attribute) after := by
  simp only [openAttribute, bind_eq_ok] at ok
  rcases ok with ⟨_, _, checked, _, room, went, role, found, names, ok⟩
  rcases checkRequest_ok checked with ⟨rfl, _, _⟩
  rcases advance_paid_ok noPayload went with ⟨_, inside, written, leads, made, rfl⟩
  have leads := next?_of_nextPhase? (by simp) leads
  rw [inTag] at leads
  cases next?_startAttribute_element leads
  simp only [makeRoom, bind_eq_ok, get_eq_ok] at made
  rcases made with ⟨_, _, ⟨rfl, rfl⟩, made⟩
  simp only [inTag, reduceCtorEq, if_false, decide_false, decide_true, Bool.or_true, if_true,
    bind_eq_ok, pure_eq_ok] at made
  rcases made with ⟨_, _, divided, rfl, rfl⟩
  rcases emit_ok divided with ⟨output, rfl, space⟩
  rcases attributeRole_plain (by exact enabled) ordinary names with ⟨rfl, rfl⟩
  simp only [bind_eq_ok, modify_eq_ok, Option.map_none] at ok
  rcases ok with ⟨_, _, named, _, _, equals, _, _, quoted, rfl⟩
  rcases attributeText_ok named equals quoted with ⟨outputToo, rfl, wrote⟩
  exact ⟨space.trans wrote, by simp [draft, Draft.enter, noSpecial], sound, by simp⟩


theorem endAttribute_comes {nothing : Unit} (inValue : before.phase = .attribute)
    (sound : before.bindings.Sound) (noPayload : before.payload = none)
    (noSpecial : before.special = none) (ok : advance .endAttribute before = .ok nothing after) :
    before.Comes before.settings.quote.text (before.draft.enter .element) after := by
  rcases advance_paid_ok noPayload ok with ⟨_, room, written, leads, made, rfl⟩
  have leads := next?_of_nextPhase? (by simp) leads
  rw [inValue, next?_endAttribute] at leads
  cases leads
  simp only [makeRoom, closeValue, bind_eq_ok, get_eq_ok, pure_eq_ok] at made
  rcases made with ⟨_, _, ⟨rfl, rfl⟩, _, _, ⟨_, _, ⟨rfl, rfl⟩, quoted⟩, rfl, rfl⟩
  rw [noSpecial] at quoted
  rcases emitQuote_ok quoted with ⟨output, rfl, extended⟩
  exact ⟨extended, rfl, sound, by simp⟩

theorem putText_value_comes {value : String} {nothing : Unit} (inValue : before.phase = .attribute)
    (sound : before.bindings.Sound) (noPayload : before.payload = none)
    (noSpecial : before.special = none) (ok : putText value before = .ok nothing after) :
    before.Comes (TextPosition.escaped (.attribute before.settings.quote) value) before.draft
      after := by
  by_cases empty : value = ""
  · simp only [putText, empty, ne_eq, not_true_eq_false, if_false, pure_eq_ok, true_and] at ok
    subst ok
    rw [empty]
    exact ⟨.refl _, rfl, sound, by simp [inValue]⟩
  · simp only [putText, empty, ne_eq, not_false_eq_true, if_true, bind_eq_ok] at ok
    rcases ok with ⟨_, room, went, wrote⟩
    rcases advance_paid_ok noPayload went with ⟨_, inside, written, leads, made, rfl⟩
    have leads := next?_of_nextPhase? (by simp) leads
    rw [inValue] at leads
    cases next?_text_attribute leads
    have untouched : .text = written ∧ before = inside := by
      simpa [makeRoom, inValue] using made
    rcases untouched with ⟨rfl, rfl⟩
    have wrote := emitText_ok wrote
    have here : captured { before with phase := .attribute, lastToken := some .text } value =
        { before with phase := .attribute, lastToken := some .text } := by
      simp [captured, noSpecial]
    rw [here] at wrote
    rcases wrote with ⟨output, rfl, extended⟩
    refine ⟨extended, ?_, sound, by simp⟩
    rw [draft, draft, inValue]

theorem attributeString_comes {name value : String} {nothing : Unit}
    (inTag : before.phase = .element) (sound : before.bindings.Sound)
    (enabled : before.settings.namespaces = true) (noPayload : before.payload = none)
    (noSpecial : before.special = none) (ordinary : name ≠ "xmlns")
    (ok : perform (.attributeString { localName := name } value) before = .ok nothing after) :
    before.Comes (Draft.attributeText before.settings.quote name value) before.draft after := by
  simp only [perform, bind_eq_ok] at ok
  rcases ok with ⟨_, opened, opens, _, filled, fills, ends⟩
  have first := openAttribute_comes inTag sound enabled noPayload noSpecial ordinary
    (guarded_ok opens).2
  have settings : opened.settings = before.settings := congrArg Draft.settings first.draft
  have payload : opened.payload = none := (congrArg Draft.payload first.draft).trans noPayload
  have special : opened.special = none := (congrArg Draft.special first.draft).trans noSpecial
  have second := putText_value_comes (congrArg Draft.phase first.draft) first.sound.bindings payload
    special (guarded_ok fills).2
  have third := endAttribute_comes ((congrArg Draft.phase second.draft).trans
    (congrArg Draft.phase first.draft)) second.sound.bindings
    ((congrArg Draft.payload second.draft).trans payload)
    ((congrArg Draft.special second.draft).trans special) (guarded_ok ends).2
  have settingsToo : filled.settings = before.settings :=
    (congrArg Draft.settings second.draft).trans settings
  rw [settings] at second
  rw [settingsToo] at third
  have whole := (first.trans second).trans third
  have here : filled.draft.enter .element = before.draft := by
    rw [second.draft, first.draft, ← inTag]
    rfl
  rw [here] at whole
  simpa [Draft.attributeText, String.append_assoc] using whole

/-! ## Payloads -/

theorem next?_payload {mode : Mode} {token : Token} {phase next : Phase}
    (inside : phase = .element ∨ phase = .content) (written : token = .base64 ∨ token = .text)
    (leads : mode.next? token phase = some next) : .content = next := by
  rcases inside with rfl | rfl <;> rcases written with rfl | rfl <;> cases mode <;>
    exact Option.some.inj leads

theorem advance_content_ok {token : Token} {nothing : Unit} (sound : before.Sound)
    (inside : before.phase = .element ∨ before.phase = .content)
    (written : token = .base64 ∨ token = .text) (free : token = .text → before.payload = none)
    (ok : advance token before = .ok nothing after) :
    ∃ behind, (before.phase = .element ∧ (∃ done, closeStartTag false before = .ok done behind) ∨
        before.phase ≠ .element ∧ behind = before) ∧
      after = behind.reached token true .content := by
  rcases advance_ok ok with ⟨_, middle, room, passed, leads, finished, made, rfl⟩
  have leads := next?_payload inside written
    (next?_of_nextPhase? (by rcases written with rfl | rfl <;> simp) leads)
  subst leads
  have same : before = middle := by
    rcases finished with ⟨other, _, finished⟩ | ⟨_, rfl⟩
    · rcases finishPayload_ok finished with ⟨_, _, _, _, nothing⟩
      exact (nothing (free (written.resolve_left other))).symm
    · rfl
  subst same
  have textual : token = .text ∨ token = .raw ∨ token = .whitespace ∨ token = .base64 := by
    rcases written with rfl | rfl <;> simp
  rcases makeRoom_text_ok sound.lastToken textual made with ⟨behind, closes, rfl, reaches⟩
  refine ⟨behind, closes, ?_⟩
  rw [← show room.reached passed false .content = behind.reached passed true .content by
    simpa using reaches]
  simp [reached]

theorem advance_content_comes {token : Token} {nothing : Unit} (sound : before.Sound)
    (inside : before.phase = .element ∨ before.phase = .content)
    (written : token = .base64 ∨ token = .text) (free : token = .text → before.payload = none)
    (ok : advance token before = .ok nothing after) :
    before.Comes before.draft.tagEnd (before.draft.behindTag.enterText .content) after := by
  rcases advance_content_ok sound inside written free ok with ⟨behind, closes, rfl⟩
  have closed : before.output.Extends before.draft.tagEnd behind.output ∧
      behind.draft = before.draft.behindTag ∧ behind.bindings.Sound := by
    rcases closes with ⟨inTag, _, closed⟩ | ⟨notInTag, rfl⟩
    · rcases closeStartTag_ok sound.bindings closed with ⟨extended, settled, soundAfter, _⟩
      simpa [Draft.tagEnd, Draft.behindTag, inTag] using ⟨extended, settled, soundAfter⟩
    · simpa [Draft.tagEnd, Draft.behindTag, notInTag] using
        ⟨OutputBuffer.Extends.refl _, sound.bindings⟩
  rcases closed with ⟨extended, here, soundBehind⟩
  rw [← here]
  exact ⟨extended, rfl, soundBehind, by simp [reached]⟩

theorem putBase64_comes {chunk : List UInt8} {nothing : Unit} (sound : before.Sound)
    (inside : before.phase = .element ∨ before.phase = .content)
    (noSpecial : before.special = none) (ok : putBase64 chunk before = .ok nothing after) :
    before.Comes
      (before.draft.tagEnd ++ String.ofList (before.carry.feed chunk).1)
      { before.draft.behindTag.enterText .content with
        carry := (before.carry.feed chunk).2, unflushed := true } after := by
  simp only [putBase64, bind_eq_ok, get_eq_ok, modify_eq_ok] at ok
  rcases ok with ⟨_, room, went, _, _, ⟨rfl, rfl⟩, _, _, rfl, _, _, wrote, rfl⟩
  have comes := advance_content_comes sound inside (.inl rfl) (by simp) went
  have carry : room.carry = before.carry := by
    rw [← draft_carry, comes.draft]
    unfold Draft.behindTag
    split <;> simp [Draft.settle]
  have noSpecial : room.special = none := by
    rw [← draft_special, comes.draft]
    unfold Draft.behindTag
    split <;> simpa [Draft.settle] using noSpecial
  rcases emitVerbatim_plain_ok (by exact noSpecial) wrote with ⟨output, rfl, extended⟩
  rw [← carry, ← comes.draft]
  exact ⟨comes.output.trans extended, rfl, comes.sound.bindings, comes.sound.lastToken⟩

theorem putHexadecimal_comes {bytes : List UInt8} {nothing : Unit} (sound : before.Sound)
    (inside : before.phase = .element ∨ before.phase = .content)
    (noPayload : before.payload = none) (noSpecial : before.special = none)
    (ok : putHexadecimal bytes before = .ok nothing after) :
    before.Comes (before.draft.tagEnd ++ String.ofList (Hexadecimal.encode bytes))
      (before.draft.behindTag.enterText .content) after := by
  simp only [putHexadecimal, bind_eq_ok] at ok
  rcases ok with ⟨_, room, went, wrote⟩
  have comes := advance_content_comes sound inside (.inr rfl) (fun _ => noPayload) went
  have noSpecial : room.special = none := by
    rw [← draft_special, comes.draft]
    unfold Draft.behindTag
    split <;> simpa [Draft.settle] using noSpecial
  exact comes.writes (emitVerbatim_plain_ok noSpecial wrote)

theorem finishPayload_writes {nothing : Unit} (carried : before.draft.Carried)
    (noSpecial : before.special = none) (ok : finishPayload before = .ok nothing after) :
    before.output.Extends before.draft.payloadEnd after.output ∧
      after = { before with output := after.output, carry := .empty, unflushed := false } := by
  rcases finishPayload_cases ok with ⟨paid, rfl⟩ | ⟨pending, output, extended, rfl⟩
  · have nothing := carried.carry_eq_empty (Draft.payload_eq_none.mpr paid)
    rw [Draft.payloadEnd_of_paid paid, ← paid, ← show after.carry = .empty from nothing]
    exact ⟨.refl _, rfl⟩
  · rw [Draft.payloadEnd_of_unflushed pending]
    refine ⟨extended, ?_⟩
    simp [captured, noSpecial]

/-! ## Ends -/

theorem makeRoom_end_comes {separate : Bool} {next : Phase} {written : Token} {room : Writer}
    (sound : before.bindings.Sound) (inside : before.phase = .element ∨ before.phase = .content)
    (ok : makeRoom (if separate then .separateEnd else .endElement) next before =
      .ok written room) :
    room.draft = before.draft.behindTag ∧ room.bindings.Sound ∧
      (if before.phase = .element ∧ separate = false then
        written = .endElement ∧ before.output.Extends (before.draft.owedText ++ " />") room.output
      else written = .separateEnd ∧ before.output.Extends before.draft.tagEnd room.output) := by
  have steps : ((if before.phase = .content then pure .separateEnd
      else closeStartTag (!separate) >>= fun _ =>
        pure (if separate then .separateEnd else .endElement) : Action Token)) before =
      .ok written room := by
    cases separate <;> rcases inside with phase | phase <;> simpa [makeRoom, phase] using ok
  rcases inside with phase | phase
  · simp only [phase, reduceCtorEq, if_false, bind_eq_ok, pure_eq_ok] at steps
    rcases steps with ⟨_, _, closed, rfl, rfl⟩
    rcases closeStartTag_ok sound closed with ⟨extended, settled, soundAfter, _⟩
    refine ⟨by simp [Draft.behindTag, phase, settled], soundAfter, ?_⟩
    cases separate <;> simpa [phase, Draft.tagEnd] using extended
  · simp only [phase, if_true, pure_eq_ok] at steps
    rcases steps with ⟨rfl, rfl⟩
    refine ⟨by simp [Draft.behindTag, phase], sound, ?_⟩
    simpa [phase, Draft.tagEnd] using OutputBuffer.Extends.refl _

theorem closeElement_comes {separate : Bool} {nothing : Unit} (sound : before.bindings.Sound)
    (carried : before.draft.Carried) (inside : before.phase = .element ∨ before.phase = .content)
    (noSpecial : before.special = none) (ok : closeElement separate before = .ok nothing after) :
    before.Comes (before.draft.payloadEnd ++ before.draft.elementEnd separate)
      (before.draft.behindTag.pop.enter before.draft.phaseAfterElement).endPayload
      after := by
  simp only [closeElement, bind_eq_ok, get_eq_ok, refuse_bind_eq_ok] at ok
  rcases ok with ⟨_, _, ⟨rfl, rfl⟩, _, _, advanced, went, _, _, ⟨rfl, rfl⟩, ok⟩
  rcases advance_ok went with ⟨next, middle, room, written, leads, finished, made, rfl⟩
  have isEnd : (if separate = true then Token.separateEnd else .endElement) = .endElement ∨
      (if separate = true then Token.separateEnd else .endElement) = .separateEnd :=
    isEnd_endToken separate
  rcases finished with ⟨_, _, finished⟩ | ⟨other, _⟩
  swap
  · rw [other] at isEnd
    simp at isEnd
  rcases phases_of_nextPhase? isEnd leads with ⟨_, rfl⟩
  rcases finishPayload_writes carried noSpecial finished with ⟨paid, same⟩
  rw [same] at made
  rcases makeRoom_end_comes (by exact sound) (by exact inside) made with ⟨here, soundRoom, written⟩
  have here : room.draft = before.draft.behindTag.endPayload :=
    here.trans before.draft.behindTag_endPayload
  have finish {last : Writer} {text : String}
      (extended : middle.output.Extends text last.output)
      (kept : last = { room with
        output := last.output, phase := before.draft.phaseAfterElement,
        lastToken := last.lastToken }) :
      before.Comes (before.draft.payloadEnd ++ text)
        (before.draft.behindTag.pop.enter before.draft.phaseAfterElement).endPayload
        last.popped := by
    refine ⟨paid.trans extended, ?_, ?_, fun inTag => ?_⟩
    · rw [draft_popped, kept]
      exact congrArg (fun draft => draft.pop.enter before.draft.phaseAfterElement) here
    · rw [kept]
      exact soundRoom.popTo _
    · rw [kept] at inTag
      exact absurd inTag (phaseAfterElement_ne_element _)
  by_cases empty : before.phase = .element ∧ separate = false
  · rw [if_pos empty] at written
    rcases written with ⟨rfl, extended⟩
    simp only [Option.some.injEq, reduceCtorEq, if_false, modify_eq_ok] at ok
    subst ok
    have text : before.draft.elementEnd separate = before.draft.owedText ++ " />" := if_pos empty
    let advanced : Writer :=
      { room with phase := before.draft.phaseAfterElement, lastToken := some .endElement }
    have ended : before.Comes _ _ advanced.popped := finish extended rfl
    rw [text]
    exact ended
  · rw [if_neg empty] at written
    rcases written with ⟨rfl, extended⟩
    simp only [if_true, bind_eq_ok, ite_eq_ok, modify_eq_ok] at ok
    let advanced : Writer :=
      { room with phase := before.draft.phaseAfterElement, lastToken := some .separateEnd }
    have same : advanced.draft =
        (before.draft.behindTag.enter before.draft.phaseAfterElement).endPayload :=
      congrArg (·.enter before.draft.phaseAfterElement) here
    have parts : ∃ lined last, advanced.Writes (before.draft.behindTag.lineBefore true) lined ∧
        lined.Writes ("</" ++ writtenName before.draft.top.nsPrefix before.draft.top.name ++ ">")
          last ∧ last.popped = after := by
      have top := before.draft.frames_behindTag.top
      have line (beforeEnd : Bool) : advanced.draft.lineBefore beforeEnd =
          before.draft.behindTag.lineBefore beforeEnd := by
        rw [same]
        rfl
      have topElement : advanced.top = before.draft.behindTag.top := congrArg Draft.top same
      rw [← top.nsPrefix, ← top.name, ← topElement, ← line]
      rcases ok with ⟨indents, _, lined, indented, _, last, emitted, result⟩ |
        ⟨plain, _, last, emitted, result⟩
      · exact ⟨lined, last, indent_writes indents indented, emit_ok emitted, result⟩
      · rw [lineBefore_of_plain plain]
        exact ⟨advanced, last, .refl _, emit_ok emitted, result⟩
    rcases parts with ⟨lined, last, ⟨_, rfl, line⟩, ⟨output, rfl, tag⟩, rfl⟩
    have text : before.draft.elementEnd separate = before.draft.tagEnd ++
        before.draft.behindTag.lineBefore true ++
        ("</" ++ writtenName before.draft.top.nsPrefix before.draft.top.name ++ ">") :=
      if_neg empty
    rw [text]
    exact finish ((extended.trans line).trans tag) rfl

theorem finishDocument_comes {nothing : Unit} (sound : before.bindings.Sound)
    (carried : before.draft.Carried) (inside : before.phase = .element ∨ before.phase = .content) (single : before.depth = 1)
    (noPayload : before.payload = none) (noSpecial : before.special = none)
    (ok : finishDocument before = .ok nothing after) :
    before.output.Extends (before.draft.elementEnd false) after.output := by
  simp only [finishDocument, bind_eq_ok, get_eq_ok, refuse_bind_eq_ok, modify_eq_ok] at ok
  rcases ok with ⟨_, _, ⟨rfl, rfl⟩, _, _, middle, completed, _, _, rfl, flushed⟩
  simp only [completeAll, bind_eq_ok, get_eq_ok] at completed
  rcases completed with ⟨_, paid, finished, _, _, ⟨rfl, rfl⟩, ended⟩
  rcases finishPayload_ok finished with ⟨_, _, _, _, nothing⟩
  rw [nothing noPayload] at ended
  have notTop : before.phase ≠ .topAttribute := by
    rcases inside with phase | phase <;> simp [phase]
  have closes : ∃ done, closeElement false before = .ok done middle := by
    simp only [notTop, if_false, bind_eq_ok, get_eq_ok] at ended
    rcases ended with ⟨_, _, ⟨rfl, rfl⟩, ended⟩
    simp only [single, closeElements, bind_eq_ok, pure_eq_ok] at ended
    rcases ended with ⟨done, _, closes, _, rfl⟩
    exact ⟨done, closes⟩
  rcases closes with ⟨_, closes⟩
  have comes := closeElement_comes sound carried inside noSpecial closes
  have noneLeft : before.draft.payloadEnd = "" := by simp [Draft.payloadEnd, noPayload]
  rw [noneLeft, String.empty_append] at comes
  rcases onOutput_ok flushed with ⟨output, flushes, rfl⟩
  have extended := comes.output.trans (OutputBuffer.extends_of_flush flushes).1
  rwa [String.append_empty] at extended

end Writer

end XmlStream
