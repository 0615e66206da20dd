import XmlStream.Proofs.Completion.Implicit
import XmlStream.Proofs.Special.Heeded

namespace XmlStream.Writer

/-! An attribute that belongs to no element. It stands at the beginning of a fragment, and what it says
holds for all elements of the fragment. -/

open Reading

variable {before room opened filled after : Writer} {request : NameRequest} {value : String}

def attributeName (writer : Writer) (request : NameRequest) : List Char :=
  match attributeRole request (writer.roomFor .startAttribute) with
  | .ok (nsPrefix, _) _ => (writtenName nsPrefix request.localName).toList
  | .error _ _ => request.localName.toList

theorem advance_of_room {token : Token} {next : Phase} (noPayload : before.payload = none)
    (notBase64 : token ≠ .base64) (leads : before.nextPhase? token = some next)
    (made : makeRoom token next before = .ok token before) :
    advance token before = .ok () { before with phase := next, lastToken := some token } := by
  rw [advance_eq leads, if_pos notBase64, bind_eq_ok]
  refine ⟨_, _, finishPayload_of_none noPayload, ?_⟩
  rw [bind_eq_ok]
  exact ⟨_, _, made, rfl⟩

theorem advance_startAttribute_of_start (start : before.phase = .start)
    (fragment : before.mode = .fragment) (noPayload : before.payload = none) :
    advance .startAttribute before = .ok () { before with
      phase := .topAttribute, lastToken := some .startAttribute } := by
  refine advance_of_room noPayload (by simp) ?_ ?_
  · rw [nextPhase?, start, fragment]
    rfl
  · simp only [makeRoom, get_bind_eq, start, reduceCtorEq, if_false, decide_false, Bool.or_false,
      Bool.false_eq_true]
    rfl

theorem putText_of_top {nothing : Unit} (onTop : before.phase = .topAttribute)
    (fragment : before.mode = .fragment) (noPayload : before.payload = none)
    (ok : putText value before = .ok nothing after) :
    after.draft = before.draft.capture value ∧
      before.output.Extends (TextPosition.escaped (.attribute before.settings.quote) value)
        after.output := by
  by_cases empty : value = ""
  · subst empty
    simp only [putText, ne_eq, not_true_eq_false, if_false, pure_eq_ok] at ok
    rw [← ok.2]
    refine ⟨?_, .refl _⟩
    cases special : before.special <;> simp [Draft.capture, special, draft]
  · have leads : before.nextPhase? .text = some .topAttribute := by
      rw [nextPhase?, onTop, fragment]
      rfl
    have made : makeRoom .text .topAttribute before = .ok .text before := by
      simp only [makeRoom, get_bind_eq, onTop, reduceCtorEq, if_false, decide_false,
        Bool.false_and, Bool.false_eq_true]
      rfl
    have went := advance_of_room noPayload (by simp) leads made
    simp only [putText, ne_eq, empty, not_false_eq_true, if_true, bind_eq_ok, went] at ok
    rcases ok with ⟨_, _, ⟨rfl, rfl⟩, wrote⟩
    rcases emitText_ok wrote with ⟨output, rfl, extended⟩
    refine ⟨?_, extended⟩
    rw [draft, captured, Draft.capture, ← onTop]
    rfl

theorem names_of_outside {draft found : Draft} {nsPrefix : Option String} {kind : Option SpecialKind}
    (outside : draft.depth = 0) (names : draft.NamesAttribute request nsPrefix kind found) :
    found = draft ∧ found.noteAttribute nsPrefix = draft := by
  have same : found = draft := by
    cases names with
    | namespaced _ _ _ _ _ _ _ _ _ inside => exact absurd outside (Nat.ne_of_gt inside)
    | _ => rfl
  subst same
  refine ⟨rfl, ?_⟩
  cases nsPrefix with
  | none => rfl
  | some nsPrefix => exact if_neg fun inside => absurd outside (Nat.ne_of_gt inside.1)

theorem endAttribute_of_top {nothing : Unit} (sound : before.bindings.Sound)
    (noPayload : before.payload = none) (ok : advance .endAttribute before = .ok nothing after) :
    before.output.Extends before.settings.quote.text after.output ∧
      ∃ applied : Draft, after.elements = applied.elements ∧ match before.draft.special with
        | some special => Draft.Applies { before.draft with special := none } special applied
        | none => applied = before.draft := by
  rcases advance_ok ok with ⟨next, paid, room, written, leads, finished, made, rfl⟩
  rcases finished with ⟨_, _, finished⟩ | ⟨base64, _⟩
  · rw [finishPayload_of_none noPayload] at finished
    cases finished
    simp only [makeRoom, get_bind_eq, bind_eq_ok, pure_eq_ok] at made
    rcases made with ⟨_, room, closed, _, rfl⟩
    have value := closeValue_ok sound noPayload (next?_of_nextPhase? (by simp) leads) closed
    refine ⟨value.output, ?_⟩
    have path := value.path
    generalize isLast : room.draft.enter next = last at path
    generalize before.settings.quote.text = text at path
    cases path with
    | cons step rest =>
        cases rest
        cases step with
        | endAttribute _ applied _ _ applies =>
            exact ⟨applied, congrArg Draft.elements isLast, applies⟩
  · cases base64

/-- What a call that writes an attribute has done at the start: it has found a prefix, and has drawn
the consequences of the value, if the attribute is special. -/
structure OuterAttribute (before : Writer) (request : NameRequest) (value : String) (after : Writer)
    (nsPrefix : Option String) (kind : Option SpecialKind) : Prop where
  names : (before.draft.enter .topAttribute).NamesAttribute request nsPrefix kind
    (before.draft.enter .topAttribute)
  written : before.attributeName request = (writtenName nsPrefix request.localName).toList
  applies : ∃ filled applied : Draft, filled.elements = before.elements ∧
    filled.special = (Draft.capture { before.draft with
      special := kind.map fun kind => { kind } } value).special ∧
    after.elements = applied.elements ∧
    match filled.special with
      | some special => Draft.Applies { filled with special := none } special applied
      | none => applied = filled
  output : before.output.Extends (writtenName nsPrefix request.localName ++ "=" ++
    before.settings.quote.text ++
    (TextPosition.escaped (.attribute before.settings.quote) value ++
      before.settings.quote.text)) after.output

theorem outerAttribute_ok {nothing : Unit} (ready : before.Ready) (start : before.phase = .start)
    (ok : perform (.attributeString request value) before = .ok nothing after) :
    ∃ nsPrefix kind, OuterAttribute before request value after nsPrefix kind := by
  have outside : before.depth = 0 := ready.placed.outside (.inl start)
  have fragment : before.mode = .fragment := by
    cases mode : before.mode with
    | fragment => rfl
    | document => exact absurd start (ready.placed.document mode).1
  have noPayload : before.payload = none :=
    ready.placed.payload_eq_none (by simp [start, Draft.TakesPayload])
  simp only [perform, bind_eq_ok] at ok
  rcases ok with ⟨_, opened, opens, _, filled, fills, ends⟩
  have opens := (guarded_ok opens).2
  have first := openAttribute_ok ready.sound opens
  rcases first with ⟨_, _, first, _⟩
  rcases text_ok first.sound fills with ⟨_, _, second⟩
  have went := advance_startAttribute_of_start start fragment noPayload
  rcases openAttribute_split opens with ⟨room, nsPrefix, kind, found, noted, _, wentToo, role, _, _,
    silentToo, isNoted, ⟨output, rfl, extended⟩, rfl⟩
  rw [went] at wentToo
  cases wentToo
  rcases attributeRole_ok (by exact ready.sound.bindings) role with ⟨silent, names⟩
  rcases names_of_outside (by exact outside) names with ⟨sameFound, sameNoted⟩
  rw [sameNoted] at isNoted
  rw [sameFound] at names
  have phase : noted.phase = .topAttribute := congrArg Draft.phase isNoted
  have mode : noted.mode = .fragment := (congrArg Draft.mode isNoted).trans fragment
  have payload : noted.payload = none := (congrArg Draft.payload isNoted).trans noPayload
  have settings : noted.settings = before.settings := congrArg Draft.settings isNoted
  have elements : noted.elements = before.elements := congrArg Draft.elements isNoted
  rcases putText_of_top (by exact phase) (by exact mode) (by exact payload) (guarded_ok fills).2 with
    ⟨isFilled, extendedText⟩
  have payloadToo : filled.draft.payload = none := by
    rw [isFilled]
    exact payload
  rcases endAttribute_of_top second.sound.bindings payloadToo (guarded_ok ends).2 with
    ⟨extendedEnd, applied, after_, applies⟩
  refine ⟨nsPrefix, kind, names, ?_, ⟨filled.draft, applied, ?_, ?_, after_, applies⟩, ?_⟩
  · rw [attributeName, roomFor_of_ok went, role]
  · rw [isFilled]
    exact elements
  · rw [isFilled]
    rfl
  · have quote : filled.settings.quote = before.settings.quote := by
      rw [← draft_settings, isFilled]
      exact congrArg Settings.quote settings
    have extended : before.output.Extends
        (writtenName nsPrefix request.localName ++ "=" ++ before.settings.quote.text) output := by
      rw [settings, silentToo.output, silent.output] at extended
      exact extended
    rw [quote] at extendedEnd
    have extendedText : output.Extends (TextPosition.escaped (.attribute before.settings.quote) value)
        filled.output := settings ▸ extendedText
    exact extended.trans (extendedText.trans extendedEnd)

section OuterAttribute

variable {nsPrefix : Option String} {kind : Option SpecialKind}

theorem OuterAttribute.manner (writes : OuterAttribute before request value after nsPrefix kind)
    (nothing : before.elements = {}) (enabled : before.settings.namespaces = true)
    (lawful : Draft.Lawful before.draft.scope) (fit : before.draft.Fit .plain)
    (meets : request.Meets .plain) (notAstray : ¬request.Astray) :
    after.elements.outside.manner = (({ name := [] } : StartTag).add (before.attributeName request)
        (value.toList.map .character)).manner ∧
      (before.attributeName request = spaceName → (spaceHandling? value).isSome = true) := by
  let begun : Draft := { before.draft with special := kind.map fun kind => { kind } }
  have heard : Heard begun.special _ [] :=
    writes.names.heard enabled lawful (fit.congr rfl rfl) meets notAstray
  rw [← writes.written] at heard
  rcases writes.applies with ⟨filled, applied, elements, special, after_, applies⟩
  have spelled : valueText (value.toList.map .character) = value := by
    rw [valueText_map_character, String.ofList_toList]
  have heardValue := Draft.heard_capture heard fun _ => spelled
  rw [List.nil_append, ← special] at heardValue
  have bare : filled.top.manner = ({ name := [] } : StartTag).manner := by
    rw [Draft.top, elements, nothing]
    rfl
  rcases Draft.manner_of_applies heardValue bare applies with ⟨manner, space⟩
  rw [spelled] at space
  have outside : applied.elements.opened = [] := by
    have depth : applied.depth = 0 := by
      have same : applied.depth = filled.depth := by
        split at applies
        · exact applies.frames.depth
        · rw [applies]
      rw [same, Draft.depth, elements, nothing]
      rfl
    exact List.length_eq_zero_iff.mp depth
  refine ⟨?_, space⟩
  rw [after_, ← manner, Draft.top, ElementStack.top, outside, List.headD_nil]

/-- A reader that is in a tag takes what has been written for an attribute of it. -/
def AddsAttribute (before : Writer) (name : List Char) (value : String) (after : Writer) : Prop :=
  ∃ text, before.output.Extends text after.output ∧ ∀ tag : StartTag,
    read (.tag tag true) text.toList = (.tag (tag.add name (value.toList.map .character)) false, [])

theorem OuterAttribute.adds (writes : OuterAttribute before request value after nsPrefix kind)
    (fit : before.draft.Fit .plain) (meets : request.Meets .plain) :
    before.AddsAttribute (before.attributeName request) value after := by
  refine ⟨_, writes.output, fun tag => ?_⟩
  rcases writes.names.fit (fit.congr rfl rfl) meets with ⟨_, prefixed, _⟩
  have isName : Grammar.Name (writtenName nsPrefix request.localName).toList :=
    Grammar.name_writtenName prefixed meets.localName
  have reads := @Draft.read_declarationText _ before.settings.quote tag _ (.tag false) isName value
  have apart (text : List Char) : read (.tag tag false) (' ' :: text) = read (.tag tag true) text := by
    rw [read_cons, advance_space (.tag false)]
    rfl
  rw [writes.written]
  simpa [Draft.toList_text, apart] using reads

end OuterAttribute

end XmlStream.Writer
