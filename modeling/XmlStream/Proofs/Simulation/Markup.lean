import XmlStream.Proofs.Draft.Sound
import XmlStream.Proofs.Simulation.Constructs

namespace XmlStream.Writer

/-! Declarations, comments, instructions, sections, and the begins of elements and
attributes. -/

variable {before after : Writer}

/-! ## Verbatim constructs -/

theorem emitVerbatim_plain_ok {text : String} {nothing : Unit} (noSpecial : before.special = none)
    (ok : emitVerbatim text before = .ok nothing after) : before.Writes text after := by
  have same : before.captured text = before := by
    cases before
    simp_all [captured]
  rw [← same]
  exact emitVerbatim_ok ok

theorem Advances.special {token : Token} {mixes : Bool} {events : List Event}
    {text lead : String} {draft : Draft} {room : Writer} (placed : before.draft.Placed)
    (advances : Advances token mixes before events text lead draft room)
    (between : draft.Between) : room.special = none := by
  have noSpecial := (placed.path advances.path).special_eq_none between.2.1 between.2.2
  have same : room.special = (if mixes then draft.markMixed else draft).special :=
    congrArg Draft.special advances.draft
  rw [same]
  split <;> exact noSpecial

theorem Advances.construct {token : Token} {mixes : Bool} {events : List Event}
    {text more : String} {draft : Draft} {room : Writer} {event : Event}
    (advances : Advances token mixes before events text "" draft room)
    (wrote : room.Writes more after) (notText : token ≠ .text)
    (step : draft.Step event more
      ((if mixes then draft.markMixed else draft).enter room.phase))
    (own : event.completes = false) : before.Does [event] after := by
  obtain ⟨output, rfl, extended⟩ := wrote
  rw [← advances.draft] at step
  refine advances.does_all (.single step) extended ⟨advances.sound, fun _ => ?_⟩ (by simpa using own)
  simpa [advances.lastToken] using notText

theorem putCData_ok {text : String} {nothing : Unit} (sound : before.Sound)
    (placed : before.draft.Placed) (ok : putCData text before = .ok nothing after) :
    before.Does [.cdata text] after := by
  simp only [putCData, refuse_bind_eq_ok, bind_eq_ok, Bool.not_eq_true] at ok
  obtain ⟨noEnd, _, room, went, _, _, opened, _, _, wrote, ok⟩ := ok
  obtain ⟨_, _, draft, advances, between⟩ := advance_cdata_ok sound.bindings went
  have noSpecial := advances.special placed between
  have first := emit_ok opened
  have second := emitVerbatim_plain_ok (first.special.trans noSpecial) wrote
  exact advances.construct ((first.trans second).trans (emit_ok ok)) (by simp)
    (.cdata text room.phase between noEnd advances.leads) rfl

theorem putComment_ok {text : String} {nothing : Unit} (sound : before.Sound)
    (placed : before.draft.Placed) (ok : putComment text before = .ok nothing after) :
    before.Does [.comment text] after := by
  simp only [putComment, refuse_bind_eq_ok, bind_eq_ok, Bool.or_eq_true, not_or,
    Bool.not_eq_true, beq_eq_false_iff_ne] at ok
  obtain ⟨⟨noDashes, noDash⟩, _, room, went, _, _, opened, _, _, wrote, ok⟩ := ok
  obtain ⟨_, _, draft, advances, between, _⟩ := advance_markup_ok sound.bindings (by simp) went
  have noSpecial := advances.special placed between
  have first := emit_ok opened
  have second := emitVerbatim_plain_ok (first.special.trans noSpecial) wrote
  exact advances.construct ((first.trans second).trans (emit_ok ok)) (by simp)
    (.comment text room.phase between noDashes noDash advances.leads) rfl

theorem instructionText_ok {text : String} {nothing : Unit} (noSpecial : before.special = none)
    (ok : (if text ≠ "" then do emit " "; emitVerbatim text; emit "?>" else emit "?>" :
      Action Unit) before = .ok nothing after) :
    before.Writes ((if text = "" then "" else " " ++ text) ++ "?>") after := by
  by_cases empty : text = ""
  · simp only [empty, ne_eq, not_true_eq_false, if_false] at ok
    simpa [empty] using emit_ok ok
  · simp only [empty, ne_eq, not_false_eq_true, if_true, bind_eq_ok] at ok
    obtain ⟨_, _, divided, _, _, wrote, ok⟩ := ok
    have first := emit_ok divided
    have second := emitVerbatim_plain_ok (first.special.trans noSpecial) wrote
    simpa [empty] using (first.trans second).trans (emit_ok ok)

theorem putInstruction_ok {target text : String} {nothing : Unit} (sound : before.Sound)
    (placed : before.draft.Placed) (ok : putInstruction target text before = .ok nothing after) :
    before.Does [.instruction target text] after := by
  simp only [putInstruction, refuse_bind_eq_ok, bind_eq_ok, get_eq_ok, Bool.not_eq_true] at ok
  obtain ⟨noEnd, _, _, ⟨rfl, rfl⟩, free, _, _, checked, _, room, went, _, _, opened, _, _, named,
    ok⟩ := ok
  obtain ⟨rfl, usable⟩ := checkName_ok checked
  obtain ⟨events, _, draft, advances, between, _⟩ :=
    advance_markup_ok sound.bindings (by simp) went
  have noSpecial := advances.special placed between
  have first := (emit_ok opened).trans (emit_ok named)
  have second := instructionText_ok (first.special.trans noSpecial) ok
  have notXml : equalIgnoringCase target "xml" → draft.mode = .fragment ∧ draft.phase = .start := by
    intro isXml
    simp only [isXml, Bool.true_and, Bool.or_eq_false_iff, decide_eq_false_iff_not,
      Decidable.not_not] at free
    have start := start_of_completes advances.path advances.events free.2
    refine ⟨?_, start.1⟩
    rw [start.2]
    cases mode : before.mode with
    | fragment => exact mode
    | document => exact absurd mode free.1
  have usable : Name.isUsable .qualified draft.settings.namespaces target = true := by
    rwa [advances.settings]
  refine advances.construct ?_ (by simp)
    (.instruction target text room.phase between (by simpa using noEnd) notXml usable
      advances.leads) rfl
  simpa [String.append_assoc] using first.trans second

/-! ## Declarations -/

theorem quoted_ok {literal result : String} (ok : quoted literal before = .ok result after) :
    before = after ∧ before.draft.quoted? literal = some result := by
  simp only [quoted, bind_eq_ok, get_eq_ok] at ok
  obtain ⟨_, _, ⟨rfl, rfl⟩, ok⟩ := ok
  cases free : literalQuote? before.settings.quote literal with
  | none => simp [free] at ok
  | some quote =>
      simp only [free, pure_eq_ok] at ok
      obtain ⟨rfl, rfl⟩ := ok
      exact ⟨rfl, by simp [Draft.quoted?, free]⟩

theorem externalId_ok {publicId systemId : Option String} {result : String}
    (ok : externalId publicId systemId before = .ok result after) :
    before = after ∧ before.draft.externalId? publicId systemId = some result := by
  cases publicId with
  | none =>
      cases systemId with
      | none =>
          simp only [externalId, pure_eq_ok] at ok
          exact ⟨ok.2, by rw [← ok.1]; rfl⟩
      | some systemId =>
          simp only [externalId, bind_eq_ok, pure_eq_ok] at ok
          obtain ⟨_, _, system, rfl, rfl⟩ := ok
          obtain ⟨rfl, found⟩ := quoted_ok system
          exact ⟨rfl, by simp [Draft.externalId?, found]⟩
  | some publicId =>
      simp only [externalId, bind_eq_ok, pure_eq_ok] at ok
      obtain ⟨_, _, first, _, _, second, rfl, rfl⟩ := ok
      obtain ⟨rfl, foundPublic⟩ := quoted_ok first
      obtain ⟨rfl, foundSystem⟩ := quoted_ok second
      exact ⟨rfl, by simp [Draft.externalId?, foundPublic, foundSystem]⟩

theorem putDoctype_ok {name : String} {publicId systemId subset : Option String}
    {nothing : Unit} (sound : before.Sound)
    (ok : putDoctype name publicId systemId subset before = .ok nothing after) :
    before.Does [.doctype name publicId systemId subset] after := by
  simp only [putDoctype, bind_eq_ok] at ok
  obtain ⟨_, _, checked, ids, _, identified, _, room, went, ok⟩ := ok
  obtain ⟨rfl, usable⟩ := checkName_ok checked
  obtain ⟨rfl, found⟩ := externalId_ok identified
  obtain ⟨_, _, draft, advances⟩ := advance_doctype_ok sound.bindings went
  have usable : Name.isUsable .qualified draft.settings.namespaces name = true := by
    rwa [advances.settings]
  have found : draft.externalId? publicId systemId = some ids := by
    simpa [Draft.externalId?, Draft.quoted?, advances.settings] using found
  exact advances.construct (emit_ok ok) (by simp)
    (.doctype name publicId systemId subset ids room.phase usable found advances.leads) rfl

theorem beginDocument_ok {standalone : Option Bool} {nothing : Unit} (sound : before.Sound)
    (ok : beginDocument standalone before = .ok nothing after) :
    before.Does [.xmlDeclaration before.output.encoding? standalone] after := by
  simp only [beginDocument, bind_eq_ok, get_eq_ok] at ok
  obtain ⟨_, _, ⟨rfl, rfl⟩, ok⟩ := ok
  by_cases start : before.phase = .start
  · simp only [start, ne_eq, not_true_eq_false, if_false, bind_eq_ok, set_eq_ok] at ok
    obtain ⟨_, _, rfl, ok⟩ := ok
    obtain ⟨output, rfl, extended⟩ := emit_ok ok
    have step : before.draft.Step (.xmlDeclaration before.output.encoding? standalone) _ _ :=
      .xmlDeclaration _ standalone start
    exact ⟨_, _, ⟨.single step, extended, sound.bindings, by simp⟩, rfl⟩
  · simp [start, ite_eq_ok] at ok

/-! ## Names -/

theorem checkRequest_ok {request : NameRequest} {nothing : Unit}
    (ok : checkRequest request before = .ok nothing after) :
    before = after ∧ request.localName ≠ "" ∧
      (before.settings.namespaces = false → request.usesNamespaces = false) := by
  simp only [checkRequest, refuse_bind_eq_ok, bind_eq_ok, get_eq_ok, refuse_eq_ok, pure_eq_ok,
    true_and, Bool.and_eq_true, not_and, Bool.not_eq_true, Bool.not_eq_eq_eq_not] at ok
  obtain ⟨named, _, _, ⟨rfl, rfl⟩, allowed, rfl⟩ := ok
  exact ⟨rfl, named, by simpa using allowed⟩

theorem next?_startElement {mode : Mode} {phase next : Phase}
    (leads : mode.next? .startElement phase = some next) : next = .element := by
  have all : (mode.next? .startElement phase).all (· = .element) = true := by
    cases mode <;> cases phase <;> rfl
  rw [leads] at all
  exact of_decide_eq_true all

theorem owesDefault_modifyTop (draft : Draft) {change : OpenElement → OpenElement}
    (uri : (change draft.top).defaultUri = draft.top.defaultUri)
    (origin : (change draft.top).defaultNamespace = draft.top.defaultNamespace) :
    (draft.modifyTop change).owesDefault = draft.owesDefault := by
  by_cases inside : 0 < draft.depth
  · have parent : (draft.modifyTop change).elements.parent = draft.elements.parent := by
      have tail := ElementStack.tail_opened_modifyTop draft.elements change
      have outside := ElementStack.outside_modifyTop draft.elements change inside
      simp only [Draft.modifyTop, ElementStack.parent, tail, outside]
    simp [Draft.owesDefault, parent, uri, origin]
  · simp [Draft.owesDefault, inside]

theorem openElement_ok {request : NameRequest} {nothing : Unit} (sound : before.Sound)
    (ok : openElement request before = .ok nothing after) :
    ∃ room, advance .startElement before = .ok () room ∧
      before.Does [.startElement (room.draft.asked request) after.draft.owesDefault] after ∧
      after.phase = .element := by
  simp only [openElement, bind_eq_ok, refuse_bind_eq_ok, modify_eq_ok] at ok
  obtain ⟨_, _, checked, notXmlns, _, room, went, _, _, rfl, nsPrefix, found, names, _, wrote,
    emitted, ok⟩ := ok
  obtain ⟨rfl, named, disabled⟩ := checkRequest_ok checked
  obtain ⟨events, text, draft, advances, between, noPayload⟩ :=
    advance_markup_ok sound.bindings (by simp) went
  have phase : room.phase = .element := next?_startElement advances.leads
  have entered : room.draft = draft.enter .element := by
    rw [← phase]
    exact advances.draft
  let pushed : Writer := { room with elements := room.elements.push room.bindings.size }
  have isPushed : pushed.draft = draft.push.enter .element := by
    have same : pushed.draft = room.draft.push := by
      simp only [Draft.push, draft_scope, Bindings.length_scope]
      rfl
    rw [same, entered]
    rfl
  have soundPushed : pushed.bindings.Sound := advances.sound
  obtain ⟨silent, names⟩ := elementPrefix_ok soundPushed names
  rw [isPushed] at names
  obtain ⟨output, rfl, extended⟩ := emit_ok emitted
  obtain ⟨silentToo, result⟩ := modifyTop_ok ok
  have result : after.draft = found.draft.modifyTop
      fun element => { element with name := request.localName, nsPrefix := nonEmpty? nsPrefix } :=
    result
  have asked : room.draft.asked request = draft.asked request := by
    rw [entered]
    rfl
  have owes : after.draft.owesDefault = found.draft.owesDefault := by
    rw [result]
    exact owesDefault_modifyTop _ rfl rfl
  have step : draft.Step (.startElement (draft.asked request) found.draft.owesDefault) _ _ :=
    .startElement request (nonEmpty? nsPrefix) found.draft between named notXmlns
      (by rwa [advances.settings]) (phase ▸ advances.leads) noPayload names
  rw [← result, ← asked, ← owes] at step
  have output : room.output.Extends ("<" ++ writtenName (nonEmpty? nsPrefix) request.localName)
      after.output := by
    rw [silentToo.output]
    rw [silent.output] at extended
    exact extended
  refine ⟨room, went, advances.does_all (.single step) output ⟨?_, fun _ => ?_⟩
    (by simp [Event.completes]), ?_⟩
  · exact silentToo.sound (silent.sound advances.sound)
  · rw [silentToo.lastToken]
    have kept : found.lastToken = room.lastToken := silent.lastToken
    simp [kept, advances.lastToken]
  · rw [← draft_phase, result]
    exact (names.frames (draft.depth_push_pos .element)).phase

theorem startAttribute_next?_ne_element {mode : Mode} {phase next : Phase}
    (leads : mode.next? .startAttribute phase = some next) : next ≠ .element := by
  have all : (mode.next? .startAttribute phase).all (· ≠ .element) = true := by
    cases mode <;> cases phase <;> rfl
  rw [leads] at all
  exact of_decide_eq_true all

theorem attributeText_ok {name : String} {first second : Writer} {nothing : Unit}
    (named : emit name before = .ok nothing first) (divided : emit "=" first = .ok nothing second)
    (quoted : emitQuote second = .ok nothing after) :
    before.Writes (name ++ "=" ++ before.settings.quote.text) after := by
  have wrote := (emit_ok named).trans (emit_ok divided)
  rw [← wrote.settings]
  exact wrote.trans (emitQuote_ok quoted)

theorem openAttribute_split {request : NameRequest} {nothing : Unit}
    (ok : openAttribute request before = .ok nothing after) :
    ∃ room nsPrefix kind found noted last, advance .startAttribute before = .ok () room ∧
      attributeRole request room = .ok (nsPrefix, kind) found ∧ request.localName ≠ "" ∧
      (before.settings.namespaces = false → request.usesNamespaces = false) ∧
      found.Silent noted ∧ noted.draft = found.draft.noteAttribute nsPrefix ∧
      noted.Writes (writtenName nsPrefix request.localName ++ "=" ++ noted.settings.quote.text)
        last ∧ after = { last with special := kind.map fun kind => { kind } } := by
  simp only [openAttribute, bind_eq_ok] at ok
  obtain ⟨_, _, checked, _, room, went, ⟨nsPrefix, kind⟩, found, names, ok⟩ := ok
  obtain ⟨rfl, named, disabled⟩ := checkRequest_ok checked
  cases nsPrefix with
  | none =>
      simp only [bind_eq_ok, modify_eq_ok] at ok
      obtain ⟨_, _, written, _, _, divided, _, last, quoted, rfl⟩ := ok
      exact ⟨room, none, kind, found, found, last, went, names, named, disabled, .refl found, rfl,
        attributeText_ok written divided quoted, rfl⟩
  | some nsPrefix =>
      simp only [bind_eq_ok, get_eq_ok, ite_eq_ok, modify_eq_ok, Bool.and_eq_true,
        decide_eq_true_eq, and_assoc] at ok
      obtain ⟨_, _, rfl, rfl, ⟨inside, notXml, notXmlns, _, noted, changed, _, _, written, _, _,
        divided, _, last, quoted, rfl⟩ | ⟨other, _, _, written, _, _, divided, _, last, quoted,
        rfl⟩⟩ := ok
      · obtain ⟨silent, result⟩ := modifyTop_ok changed
        refine ⟨room, some nsPrefix, kind, found, noted, last, went, names, named, disabled, silent, ?_,
          attributeText_ok written divided quoted, rfl⟩
        rw [result, Draft.noteAttribute, if_pos ⟨inside, notXml, notXmlns⟩]
        rfl
      · refine ⟨room, some nsPrefix, kind, found, found, last, went, names, named, disabled,
          .refl found, ?_, attributeText_ok written divided quoted, rfl⟩
        exact (if_neg other).symm

theorem openAttribute_ok {request : NameRequest} {nothing : Unit} (sound : before.Sound)
    (ok : openAttribute request before = .ok nothing after) :
    ∃ room, advance .startAttribute before = .ok () room ∧
      before.Does [.startAttribute (room.draft.asked request) (room.draft.relies request)]
        after ∧ (after.phase = .attribute ∨ after.phase = .topAttribute) := by
  obtain ⟨room, nsPrefix, kind, found, noted, _, went, names, named, disabled, silentToo, result,
    ⟨output, rfl, extended⟩, rfl⟩ := openAttribute_split ok
  obtain ⟨_, _, draft, advances, notInside⟩ := advance_startAttribute_ok sound.bindings went
  obtain ⟨silent, names⟩ := attributeRole_ok advances.sound names
  have entered : room.draft = draft.enter room.phase := advances.draft
  rw [entered] at names
  have frames := names.frames.trans (found.draft.frames_noteAttribute nsPrefix)
  have settings : noted.settings = draft.settings := by
    rw [← draft_settings, result]
    exact frames.settings
  have phase : noted.phase = room.phase := by
    rw [← draft_phase, result]
    exact frames.phase
  have asked : room.draft.asked request = draft.asked request := by
    rw [entered]
    rfl
  have relies : room.draft.relies request = draft.relies request := by
    rw [entered]
    rfl
  have step : draft.Step (.startAttribute (draft.asked request) (draft.relies request)) _ _ :=
    .startAttribute request nsPrefix kind room.phase found.draft notInside named
      (by rwa [advances.settings]) advances.leads names
  rw [← asked, ← relies, ← settings, String.append_assoc, String.append_assoc] at step
  rw [String.append_assoc, silentToo.output, silent.output] at extended
  have inValue : room.phase = .attribute ∨ room.phase = .topAttribute := by
    rcases Draft.next?_startAttribute notInside advances.leads with ⟨_, next⟩ | ⟨_, _, next⟩
    · exact .inl next
    · exact .inr next
  refine ⟨room, went, advances.does (.single ?_) extended ⟨?_, fun inTag => ?_⟩
    (by simp [Event.completes]), phase ▸ inValue⟩
  · rw [← result] at step
    exact step
  · exact silentToo.sound (silent.sound advances.sound)
  · exact absurd (phase.symm.trans inTag) (startAttribute_next?_ne_element advances.leads)

end XmlStream.Writer
