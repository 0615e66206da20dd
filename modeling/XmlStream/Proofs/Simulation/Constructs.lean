import XmlStream.Proofs.Simulation.Ends

namespace XmlStream.Writer

/-! The constructs that calls write, each after what has to be completed before it. -/

variable {before after : Writer}

/-- One writer comes from another one by some events of its own, between completions. -/
def Does (before : Writer) (own : List Event) (after : Writer) : Prop :=
  ∃ events text, before.Runs events text after ∧ events.filter (!·.completes) = own

theorem Does.trans {first second third : Writer} {own more : List Event}
    (earlier : first.Does own second) (later : second.Does more third) :
    first.Does (own ++ more) third := by
  obtain ⟨events, text, runs, rfl⟩ := earlier
  obtain ⟨rest, _, runsToo, rfl⟩ := later
  exact ⟨_, _, runs.trans runsToo, List.filter_append events rest⟩

theorem Does.refl {writer : Writer} (sound : writer.Sound) : writer.Does [] writer :=
  ⟨[], "", .refl sound, rfl⟩

theorem Does.sound {own : List Event} (does : before.Does own after) : after.Sound := by
  obtain ⟨_, _, runs, _⟩ := does
  exact runs.sound

theorem filter_completes {events : List Event} (completes : ∀ event ∈ events, event.completes) :
    events.filter (!·.completes) = [] := by
  rw [List.filter_eq_nil_iff]
  intro event member
  simp [completes event member]

theorem Runs.does {events : List Event} {text : String} (runs : before.Runs events text after)
    (completes : ∀ event ∈ events, event.completes) : before.Does [] after :=
  ⟨events, text, runs, filter_completes completes⟩

theorem Advances.does {token : Token} {mixes : Bool} {events own : List Event}
    {text lead more : String} {draft : Draft} {room : Writer}
    (advances : Advances token mixes before events text lead draft room)
    (path : draft.Path own (lead ++ more) after.draft)
    (output : room.output.Extends more after.output) (sound : after.Sound)
    (notCompletes : ∀ event ∈ own, event.completes = false) : before.Does own after := by
  refine ⟨events ++ own, text ++ (lead ++ more), ⟨advances.path.append path, ?_, sound⟩, ?_⟩
  · rw [← String.append_assoc]
    exact advances.output.trans output
  · have kept : own.filter (!·.completes) = own := by
      rw [List.filter_eq_self]
      intro event member
      simp [notCompletes event member]
    rw [List.filter_append, filter_completes advances.events, kept, List.nil_append]

theorem Advances.does_all {token : Token} {mixes : Bool} {events own : List Event}
    {text more : String} {draft : Draft} {room : Writer}
    (advances : Advances token mixes before events text "" draft room)
    (path : draft.Path own more after.draft)
    (output : room.output.Extends more after.output) (sound : after.Sound)
    (notCompletes : ∀ event ∈ own, event.completes = false) : before.Does own after :=
  advances.does (by rwa [String.empty_append]) output sound notCompletes

/-! ## Pieces of text -/

theorem checkName_ok {form : Name.Form} {name : String} {nothing : Unit}
    (ok : checkName form name before = .ok nothing after) :
    before = after ∧ Name.isUsable form before.settings.namespaces name = true := by
  simp only [checkName, bind_eq_ok, get_eq_ok, refuse_eq_ok, pure_eq_ok, true_and] at ok
  obtain ⟨_, _, ⟨rfl, rfl⟩, usable, rfl⟩ := ok
  exact ⟨rfl, by simpa using usable⟩

theorem textPosition_eq (writer : Writer) :
    writer.textPosition = writer.draft.position writer.phase := rfl

structure Fits (piece : Piece) (draft : Draft) : Prop where
  blank : ∀ text, piece = .whitespace text →
    text.toList.all CharacterClass.blank.hasChar = true
  named : ∀ name, piece = .entity name →
    Name.isUsable .qualified draft.settings.namespaces name = true
  legal : ∀ character, piece = .character character →
    CharacterClass.xml.hasChar character = true

theorem textual_token (piece : Piece) : piece.token = .text ∨ piece.token = .raw ∨
    piece.token = .whitespace ∨ piece.token = .base64 := by
  cases piece <;> simp [Piece.token]

theorem next?_ne_element {mode : Mode} {token : Token} {phase next : Phase}
    (textual : token = .text ∨ token = .raw ∨ token = .whitespace ∨ token = .base64)
    (leads : mode.next? token phase = some next) : next ≠ .element := by
  have all : (mode.next? token phase).all (· ≠ .element) = true := by
    obtain rfl | rfl | rfl | rfl := textual <;> cases mode <;> cases phase <;> rfl
  rw [leads] at all
  exact of_decide_eq_true all

theorem Advances.draft_text {token : Token} {events : List Event} {text : String} {draft : Draft}
    (advances : Advances token (after.phase = .content) before events text "" draft after) :
    after.draft = draft.enterText after.phase := by
  rw [advances.draft, Draft.enterText]
  by_cases content : after.phase = .content <;> simp [content]

theorem Advances.defaultUri_text {token : Token} {events : List Event} {text : String}
    {draft : Draft}
    (advances : Advances token (after.phase = .content) before events text "" draft after) :
    draft.top.defaultUri = after.top.defaultUri := by
  have same := congrArg (fun draft : Draft => draft.top.defaultUri) advances.draft_text
  simp only [draft_top, Draft.enterText_top_defaultUri] at same
  exact same.symm

/-- One writer comes from another one by events in a value or in content. If the value is
that of a special attribute, it is the one that was open before. -/
def Adds (before : Writer) (own : Option SpecialKind → List Event) (after : Writer) : Prop :=
  ∃ kind, before.Does (own kind) after ∧ (kind = none ∨ kind = before.special.map (·.kind))

/-- One writer comes from another one by completions, which make room and lead to a draft, and then by
events of its own in a value or in content. -/
structure Goes (before room : Writer) (draft : Draft) (own : Option SpecialKind → List Event)
    (after : Writer) : Prop where
  makes : ∃ events text, before.draft.Path events text draft ∧
    (∀ event ∈ events, event.completes) ∧ before.output.Extends text room.output
  does : ∃ more, draft.Path (own (draft.special.map (·.kind))) more after.draft ∧
    room.output.Extends more after.output
  sound : after.Sound

theorem Advances.goes {token : Token} {mixes : Bool} {events : List Event} {text more : String}
    {draft : Draft} {room : Writer} {own : Option SpecialKind → List Event}
    (advances : Advances token mixes before events text "" draft room)
    (path : draft.Path (own (draft.special.map (·.kind))) more after.draft)
    (output : room.output.Extends more after.output) (sound : after.Sound) :
    before.Goes room draft own after := by
  refine ⟨⟨events, text, advances.path, advances.events, ?_⟩, ⟨more, path, output⟩, sound⟩
  have extended := advances.output
  rwa [String.append_empty] at extended

theorem Goes.adds {room : Writer} {draft : Draft} {own : Option SpecialKind → List Event}
    (goes : before.Goes room draft own after)
    (notCompletes : ∀ kind, ∀ event ∈ own kind, event.completes = false) :
    before.Adds own after := by
  obtain ⟨events, text, path, completes, output⟩ := goes.makes
  obtain ⟨more, rest, outputToo⟩ := goes.does
  refine ⟨draft.special.map (·.kind),
    ⟨_, _, ⟨path.append rest, output.trans outputToo, goes.sound⟩, ?_⟩, ?_⟩
  · have kept : (own (draft.special.map (·.kind))).filter (!·.completes) =
        own (draft.special.map (·.kind)) := by
      rw [List.filter_eq_self]
      intro event member
      simp [notCompletes _ event member]
    rw [List.filter_append, filter_completes completes, kept, List.nil_append]
  · obtain none | same := special_of_completes path completes
    · exact .inl (by simp [none])
    · exact .inr same

theorem piece_goes (piece : Piece) {room : Writer} {nothing : Unit} (sound : before.Sound)
    (fits : Fits piece before.draft) (went : advance piece.token before = .ok nothing room)
    (wrote : (room.captured piece.value).Writes (piece.written room.textPosition) after) :
    ∃ draft, before.Goes room draft (fun kind => [.write piece kind]) after ∧
      draft.top.defaultUri = room.top.defaultUri := by
  obtain ⟨events, text, draft, advances, closed⟩ := advance_text_ok sound (textual_token piece) went
  obtain ⟨output, rfl, extended⟩ := wrote
  have position : room.textPosition = draft.position room.phase := by
    rw [textPosition_eq, advances.draft_text]
    simp [Draft.position]
  have step : draft.Step (.write piece (draft.special.map (·.kind)))
      (piece.written (draft.position room.phase))
      ((draft.enterText room.phase).capture piece.value) :=
    .write piece room.phase closed advances.leads fits.blank
      (by rw [advances.settings]; exact fits.named) fits.legal
  rw [← advances.draft_text, ← position] at step
  refine ⟨draft, advances.goes (.single step) extended ⟨advances.sound, fun inTag => ?_⟩, ?_⟩
  · exact absurd inTag (next?_ne_element (textual_token piece) advances.leads)
  · exact advances.defaultUri_text

theorem piece_ok (piece : Piece) {room : Writer} {nothing : Unit} (sound : before.Sound)
    (fits : Fits piece before.draft) (went : advance piece.token before = .ok nothing room)
    (wrote : (room.captured piece.value).Writes (piece.written room.textPosition) after) :
    before.Adds (fun kind => [.write piece kind]) after := by
  obtain ⟨draft, goes, _⟩ := piece_goes piece sound fits went wrote
  exact goes.adds (by simp [Event.completes])

theorem putText_ok {text : String} {nothing : Unit} (sound : before.Sound)
    (ok : putText text before = .ok nothing after) :
    before.Does [] after ∧ text = "" ∨ before.Adds (fun kind => [.write (.text text) kind]) after := by
  simp only [putText, ite_eq_ok, bind_eq_ok, pure_eq_ok, true_and, ne_eq, Decidable.not_not] at ok
  obtain ⟨_, _, _, went, wrote⟩ | ⟨empty, rfl⟩ := ok
  · exact .inr (piece_ok (.text text) sound ⟨by simp, by simp, by simp⟩ went (emitText_ok wrote))
  · exact .inl ⟨.refl sound, empty⟩

theorem putRaw_ok {text : String} {nothing : Unit} (sound : before.Sound)
    (ok : putRaw text before = .ok nothing after) :
    before.Adds (fun kind => [.write (.raw text) kind]) after := by
  simp only [putRaw, bind_eq_ok] at ok
  obtain ⟨_, _, went, wrote⟩ := ok
  exact piece_ok (.raw text) sound ⟨by simp, by simp, by simp⟩ went (emitVerbatim_ok wrote)

theorem putWhitespace_ok {text : String} {nothing : Unit} (sound : before.Sound)
    (ok : putWhitespace text before = .ok nothing after) :
    before.Adds (fun kind => [.write (.whitespace text) kind]) after := by
  simp only [putWhitespace, refuse_bind_eq_ok, bind_eq_ok] at ok
  obtain ⟨blank, _, _, went, wrote⟩ := ok
  exact piece_ok (.whitespace text) sound ⟨by simpa using blank, by simp, by simp⟩ went (emitText_ok wrote)

theorem putName_ok {name : String} {nothing : Unit} (sound : before.Sound)
    (ok : putName name before = .ok nothing after) :
    before.Adds (fun kind => [.write (.text name) kind]) after := by
  simp only [putName, bind_eq_ok] at ok
  obtain ⟨_, _, checked, _, _, went, wrote⟩ := ok
  obtain ⟨rfl, _⟩ := checkName_ok checked
  exact piece_ok (.text name) sound ⟨by simp, by simp, by simp⟩ went (emitText_ok wrote)

theorem putToken_ok {name : String} {nothing : Unit} (sound : before.Sound)
    (ok : putToken name before = .ok nothing after) :
    before.Adds (fun kind => [.write (.text name) kind]) after := by
  simp only [putToken, refuse_bind_eq_ok, bind_eq_ok] at ok
  obtain ⟨_, _, _, went, wrote⟩ := ok
  exact piece_ok (.text name) sound ⟨by simp, by simp, by simp⟩ went (emitText_ok wrote)

theorem putEntity_ok {name : String} {nothing : Unit} (sound : before.Sound)
    (ok : putEntity name before = .ok nothing after) :
    before.Adds (fun kind => [.write (.entity name) kind]) after := by
  simp only [putEntity, bind_eq_ok] at ok
  obtain ⟨_, _, checked, _, _, went, wrote⟩ := ok
  obtain ⟨rfl, usable⟩ := checkName_ok checked
  exact piece_ok (.entity name) sound ⟨by simp, by simpa using usable, by simp⟩ went (emitEntity_ok wrote)

theorem putHexadecimal_ok {bytes : List UInt8} {nothing : Unit} (sound : before.Sound)
    (ok : putHexadecimal bytes before = .ok nothing after) :
    before.Adds (fun kind => [.write (.hexadecimal bytes) kind]) after := by
  simp only [putHexadecimal, bind_eq_ok] at ok
  obtain ⟨_, _, went, wrote⟩ := ok
  exact piece_ok (.hexadecimal bytes) sound ⟨by simp, by simp, by simp⟩ went (emitVerbatim_ok wrote)

theorem toNat_ofNat {code : Nat} (valid : code.isValidChar) : (Char.ofNat code).toNat = code := by
  rw [Char.ofNat, dif_pos valid]
  rfl

theorem putCharacter_ok {code : Nat} {nothing : Unit} (sound : before.Sound)
    (ok : putCharacter code before = .ok nothing after) :
    ∃ character, before.Adds (fun kind => [.write (.character character) kind]) after := by
  unfold putCharacter at ok
  cases found : xmlCharacter? code with
  | none => simp [found] at ok
  | some character =>
      simp only [found, bind_eq_ok] at ok
      obtain ⟨_, _, went, wrote⟩ := ok
      have legal : CharacterClass.xml.hasChar character = true := by
        simp only [xmlCharacter?, Bool.and_eq_true, Option.ite_none_right_eq_some,
          Option.some.injEq] at found
        obtain ⟨⟨valid, isXml⟩, rfl⟩ := found
        rw [CharacterClass.hasChar, toNat_ofNat (of_decide_eq_true valid)]
        exact isXml
      exact ⟨character, piece_ok (.character character) sound
        ⟨by simp, by simp, by simpa using legal⟩ went (emitCharacter_ok wrote)⟩

theorem putSurrogates_ok {low high : Nat} {nothing : Unit} (sound : before.Sound)
    (ok : putSurrogates low high before = .ok nothing after) :
    ∃ character, before.Adds (fun kind => [.write (.character character) kind]) after := by
  simp only [putSurrogates, refuse_bind_eq_ok, bind_eq_ok, Bool.or_eq_true, decide_eq_true_eq,
    not_or, Nat.not_lt] at ok
  obtain ⟨highs, lows, _, _, went, wrote⟩ := ok
  have legal : CharacterClass.xml.hasChar
      (Char.ofNat (0x10000 + (high - 0xD800) * 0x400 + (low - 0xDC00))) = true := by
    have least : 0x10000 ≤ 0x10000 + (high - 0xD800) * 0x400 + (low - 0xDC00) := by omega
    have greatest : 0x10000 + (high - 0xD800) * 0x400 + (low - 0xDC00) ≤ 0x10FFFF := by omega
    generalize 0x10000 + (high - 0xD800) * 0x400 + (low - 0xDC00) = code at least greatest
    rw [CharacterClass.hasChar, toNat_ofNat (.inr ⟨by omega, by omega⟩)]
    simp only [CharacterClass.has, CharacterClass.xml, CodeRange.has, List.any_cons,
      List.any_nil, Bool.or_eq_true, Bool.and_eq_true, decide_eq_true_eq]
    omega
  exact ⟨_, piece_ok (.character _) sound ⟨by simp, by simp, by simpa using legal⟩ went
    (emitCharacter_ok wrote)⟩

theorem enterText_again {draft : Draft} {next : Phase} (entered : draft.phase = next)
    (mixed : next = .content → draft.top.mixed = true) : draft.enterText next = draft := by
  have same : draft.enter next = draft := by
    rw [← entered]
    rfl
  unfold Draft.enterText
  split
  · rename_i content
    have top : draft.markMixed = draft := by
      have elements : draft.elements.modifyTop (fun element => { element with mixed := true }) =
          draft.elements := by
        apply ElementStack.modifyTop_eq_self
        have marked := mixed content
        simp only [Draft.top] at marked
        rw [← marked]
      rw [Draft.markMixed, Draft.modifyTop, elements]
    rw [top]
    exact same
  · exact same

theorem next?_text_again {mode : Mode} {phase next : Phase}
    (leads : mode.next? .text phase = some next) : mode.next? .text next = some next := by
  have all : (mode.next? .text phase).all (fun next => mode.next? .text next = some next) = true := by
    cases mode <;> cases phase <;> rfl
  rw [leads] at all
  exact of_decide_eq_true all

theorem emitPrefix_ok {nsPrefix : String} {middle : Writer} {first second : Unit}
    (named : emitText nsPrefix before = .ok first middle)
    (divided : emitText ":" middle = .ok second after) :
    (before.captured (nsPrefix ++ ":")).Writes
      (before.textPosition.escaped nsPrefix ++ before.textPosition.escaped ":") after := by
  obtain ⟨output, rfl, extended⟩ := emitText_ok named
  obtain ⟨last, rfl, extendedToo⟩ := emitText_ok divided
  rw [← captured_captured]
  exact ⟨last, rfl, extended.trans extendedToo⟩

theorem qualify_goes {uri nsPrefix localName : String} {draft found : Draft} {room ready : Writer}
    {events : List Event} {text : String} {nothing : Unit}
    (advances : Advances .text (room.phase = .content) before events text "" draft room)
    (closed : draft.phase ≠ .element) (enabled : before.settings.namespaces = true)
    (nonEmpty : uri ≠ "") (notDefault : uri ≠ room.top.defaultUri)
    (finds : room.draft.QualifiesText uri nsPrefix found)
    (ok : emitText localName ready = .ok nothing after)
    (result : ready.draft =
      (if room.phase = .attribute then found.notePrefix nsPrefix else found).capture
        (nsPrefix ++ ":"))
    (wrote : room.output.Extends
      (room.textPosition.escaped nsPrefix ++ room.textPosition.escaped ":") ready.output)
    (sound : ready.bindings.Sound) :
    before.Goes room draft (fun kind => [.qualify uri kind, .write (.text localName) kind]) after := by
  obtain ⟨last, rfl, extended⟩ := emitText_ok ok
  have entered := advances.draft_text
  have again := next?_text_again advances.leads
  have frames : (draft.enterText room.phase).Frames
      (if room.phase = .attribute then found.notePrefix nsPrefix else found) := by
    rw [entered] at finds
    split
    · exact finds.frames.trans (found.frames_notePrefix nsPrefix)
    · exact finds.frames
  have phase : ready.phase = room.phase := by
    rw [← draft_phase, result]
    exact frames.phase.trans (by simp)
  have position : room.textPosition = draft.position room.phase := by
    rw [textPosition_eq, entered]
    simp [Draft.position]
  have first : draft.Step (.qualify uri (draft.special.map (·.kind))) _ _ :=
    .qualify uri nsPrefix room.phase found closed (by rwa [advances.settings]) nonEmpty
      (by rwa [advances.defaultUri_text]) advances.leads (by rwa [entered] at finds)
  rw [← result, ← position] at first
  have stays : ready.draft.enterText room.phase = ready.draft := by
    refine enterText_again phase fun content => ?_
    rw [result]
    exact frames.top.mixed.trans (draft.enterText_top_mixed content)
  have second : ready.draft.Step (.write (.text localName) (ready.special.map (·.kind))) _ _ :=
    .write (.text localName) room.phase
      (by rw [draft_phase, phase]; exact next?_ne_element (.inl rfl) again)
      (by
        have mode : ready.draft.mode = draft.mode := by
          rw [result]
          exact frames.mode.trans (by simp)
        rw [draft_phase, phase, mode]
        exact again)
      (by simp) (by simp) (by simp)
  have same : ready.special.map (·.kind) = draft.special.map (·.kind) := by
    have special := congrArg Draft.special result
    have kept := frames.special
    simp only [draft_special, Draft.enterText_special, Draft.capture] at special kept
    rw [special, kept, Option.map_map]
    rfl
  rw [stays, ← phase, ← textPosition_eq, same] at second
  refine advances.goes (.cons first (.single second)) (wrote.trans extended)
    ⟨sound, fun inTag => ?_⟩
  exact absurd (phase.symm.trans inTag) (next?_ne_element (.inl rfl) again)

theorem putQualifiedName_goes {localName : String} {uri : Option String} {nothing : Unit}
    (sound : before.Sound) (ok : putQualifiedName localName uri before = .ok nothing after) :
    Name.isUsable .unqualified before.settings.namespaces localName = true ∧
      ∃ room draft, advance .text before = .ok () room ∧
        (before.Goes room draft (fun kind => [.write (.text localName) kind]) after ∧
            (∀ asked, nonEmpty? uri = some asked → draft.top.defaultUri = asked) ∨
          ∃ asked, uri = some asked ∧ before.Goes room draft
            (fun kind => [.qualify asked kind, .write (.text localName) kind]) after) := by
  simp only [putQualifiedName, bind_eq_ok, get_eq_ok, refuse_bind_eq_ok] at ok
  obtain ⟨_, _, checked, _, _, ⟨rfl, rfl⟩, disabled, _, room, went, ok⟩ := ok
  obtain ⟨rfl, usable⟩ := checkName_ok checked
  refine ⟨usable, room, ?_⟩
  have plain (ok : emitText localName room = .ok nothing after) :
      ∃ draft, before.Goes room draft (fun kind => [.write (.text localName) kind]) after ∧
        draft.top.defaultUri = room.top.defaultUri :=
    piece_goes (.text localName) sound ⟨by simp, by simp, by simp⟩ went (emitText_ok ok)
  cases given : nonEmpty? uri with
  | none =>
      simp only [given] at ok
      obtain ⟨draft, goes, _⟩ := plain ok
      exact ⟨draft, went, .inl ⟨goes, by simp⟩⟩
  | some asked =>
      simp only [given, bind_eq_ok, get_eq_ok, ite_eq_ok] at ok
      obtain ⟨_, _, ⟨rfl, rfl⟩, ⟨notDefault, nsPrefix, found, finds, _, middle, prefixed, _, named,
        divided, _, _, ⟨rfl, rfl⟩, ok⟩ | ⟨isDefault, ok⟩⟩ := ok
      · have enabled : before.settings.namespaces = true := by simpa [given] using disabled
        obtain ⟨events, text, draft, advances, closed⟩ := advance_text_ok sound (by simp) went
        have finds := textPrefixFor_ok advances.sound finds
        obtain ⟨silent, qualifies⟩ := finds
        obtain ⟨output, rfl, extended⟩ := emitPrefix_ok prefixed divided
        obtain ⟨wanted, nonEmpty⟩ := nonEmpty?_eq_some given
        have phase : found.phase = room.phase := qualifies.frames.phase
        have position : found.textPosition = room.textPosition := by
          have settings : found.settings = room.settings := qualifies.frames.settings
          simp only [textPosition, phase, settings]
        have wrote : room.output.Extends
            (room.textPosition.escaped nsPrefix ++ room.textPosition.escaped ":") output := by
          rw [← silent.output, ← position]
          exact extended
        have soundToo := silent.sound advances.sound
        refine ⟨draft, went, .inr ⟨asked, wanted, ?_⟩⟩
        obtain ⟨inValue, _, _, noted, ok⟩ | ⟨other, ok⟩ := ok
        · have inValue : room.phase = .attribute := phase.symm.trans inValue
          obtain ⟨silentToo, result⟩ := modifyTop_ok noted
          exact qualify_goes advances closed enabled nonEmpty notDefault qualifies
            ok (by rw [result, if_pos inValue]; rfl) (by rwa [silentToo.output])
            (silentToo.sound soundToo)
        · have other : room.phase ≠ .attribute := fun inValue => other (phase.trans inValue)
          exact qualify_goes advances closed enabled nonEmpty notDefault qualifies
            ok (by rw [if_neg other]; rfl) wrote soundToo
      · obtain ⟨draft, goes, same⟩ := plain ok
        refine ⟨draft, went, .inl ⟨goes, ?_⟩⟩
        rintro _ ⟨⟩
        rw [same]
        exact (of_not_not isDefault).symm

theorem putQualifiedName_ok {localName : String} {uri : Option String} {nothing : Unit}
    (sound : before.Sound) (ok : putQualifiedName localName uri before = .ok nothing after) :
    before.Adds (fun kind => [.write (.text localName) kind]) after ∨
      ∃ asked, uri = some asked ∧
        before.Adds (fun kind => [.qualify asked kind, .write (.text localName) kind]) after := by
  obtain ⟨_, _, _, _, ⟨goes, _⟩ | ⟨asked, wanted, goes⟩⟩ := putQualifiedName_goes sound ok
  · exact .inl (goes.adds (by simp [Event.completes]))
  · exact .inr ⟨asked, wanted, goes.adds (by simp [Event.completes])⟩

theorem putBase64_ok {chunk : List UInt8} {nothing : Unit} (sound : before.Sound)
    (ok : putBase64 chunk before = .ok nothing after) :
    before.Adds (fun kind => [.feed chunk kind]) after := by
  simp only [putBase64, bind_eq_ok, get_eq_ok, modify_eq_ok] at ok
  obtain ⟨_, room, went, _, _, ⟨rfl, rfl⟩, _, _, rfl, _, _, wrote, rfl⟩ := ok
  obtain ⟨events, text, draft, advances, closed⟩ := advance_text_ok sound (by simp) went
  obtain ⟨output, rfl, extended⟩ := emitVerbatim_ok wrote
  have sameCarry : room.carry = draft.carry := by
    have entered := congrArg Draft.carry advances.draft_text
    simpa using entered
  have step : draft.Step (.feed chunk (draft.special.map (·.kind))) _ _ :=
    .feed chunk room.phase closed advances.leads
  rw [← advances.draft_text, ← sameCarry] at step
  suffices goes : before.Goes room draft (fun kind => [.feed chunk kind]) _ from
    goes.adds (by simp [Event.completes])
  refine advances.goes (.single step) extended ⟨advances.sound, fun inTag => ?_⟩
  exact absurd inTag (next?_ne_element (by simp) advances.leads)

end XmlStream.Writer
