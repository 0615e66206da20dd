import XmlStream.Proofs.Reading.Escapes
import XmlStream.Proofs.Simulation.Exact

namespace XmlStream

/-! Values that are written part by part. Beside the text that stands in the quotes a writer
keeps the value of a special attribute, and each part adds to both what means the same. -/

/-- The calls that add to a value, other than raw text and entities by their names. -/
def Call.addsValue : Call → Bool
  | .text _ | .whitespace _ | .character _ | .surrogates _ _ | .base64 _ | .hexadecimal _
  | .name _ | .token _ | .qualifiedName _ _ => true
  | _ => false

namespace Reading

variable {quote : Quote} {text more value later : String}

/-- Text between quotes that normalization leaves as it is, and the characters it spells. -/
structure Renders (quote : Quote) (text characters : List Char) : Prop where
  spells : Spells (some quote) text (characters.map .character)
  stays : ∀ character ∈ text, Stays (some quote) character

theorem Renders.nil (quote : Quote) : Renders quote [] [] := ⟨spells_nil, by simp⟩

theorem Renders.append {text more characters others : List Char}
    (renders : Renders quote text characters) (rest : Renders quote more others) :
    Renders quote (text ++ more) (characters ++ others) where
  spells := by
    rw [List.map_append]
    exact renders.spells.append rest.spells
  stays character member :=
    (List.mem_append.mp member).elim (renders.stays character) (rest.stays character)

theorem Renders.conveys {text characters : List Char} (renders : Renders quote text characters) :
    Conveys (some quote) text characters :=
  renders.spells.conveys renders.stays

/-- Text between quotes yields a value, also where a character set brings in references. -/
structure Yields (quote : Quote) (text value : String) : Prop where
  plain : Renders quote text.toList value.toList
  shown : ∀ charset : Charset, Renders quote (text.toList.flatMap charset.shown) value.toList

theorem Yields.nil (quote : Quote) : Yields quote "" "" := ⟨.nil quote, fun _ => .nil quote⟩

theorem Yields.append (yields : Yields quote text value) (rest : Yields quote more later) :
    Yields quote (text ++ more) (value ++ later) where
  plain := by
    rw [String.toList_append, String.toList_append]
    exact yields.plain.append rest.plain
  shown charset := by
    rw [String.toList_append, String.toList_append, List.flatMap_append]
    exact (yields.shown charset).append (rest.shown charset)

/-! ## Parts of values -/

theorem stays_of_mem_shown {quote : Quote} {text : List Char} {charset : Charset}
    (inert : ∀ character ∈ text, Inert (.attribute quote) character) :
    ∀ character ∈ text.flatMap charset.shown, Stays (some quote) character := by
  intro other member
  rcases List.mem_flatMap.mp member with ⟨character, there, shown⟩
  exact (inert_of_mem_shown (inert character there) shown).stays

theorem yields_escaped (quote : Quote) (text : String) :
    Yields quote (TextPosition.escaped (.attribute quote) text) text := by
  have inert := (readsBack_escaped (.attribute quote) text).inert
  have suits : Suits (.attribute quote) (some quote) := suits_quote? _
  refine ⟨⟨spells_escaped suits text, fun character member => (inert character member).stays⟩,
    fun charset => ⟨?_, stays_of_mem_shown inert⟩⟩
  rw [TextPosition.toList_escaped, List.flatMap_assoc]
  exact spells_flatMap fun character _ => spells_shown_escapedChar suits character

theorem yields_hexReference (quote : Quote) (character : Char) :
    Yields quote (hexReference character) (String.singleton character) := by
  have inert : ∀ other ∈ (hexReference character).toList, Inert (.attribute quote) other :=
    fun other member => inert_of_harmless (harmless_of_mem_hexReference member)
  have renders : Renders quote (hexReference character).toList (String.singleton character).toList :=
    ⟨by simpa using spells_hexReference character, fun other member => (inert other member).stays⟩
  refine ⟨renders, fun charset => ?_⟩
  rwa [Charset.flatMap_shown_of_has fun other member => (isCommon_of_mem_hexReference member).has]

def Tame (character : Char) : Prop :=
  Charset.IsCommon character ∧ character ≠ '&' ∧ character ∉ hazards

instance (character : Char) : Decidable (Tame character) :=
  inferInstanceAs (Decidable (_ ∧ _ ∧ _))

theorem yields_of_tame {text : List Char} (tame : ∀ character ∈ text, Tame character) :
    Yields quote (String.ofList text) (String.ofList text) := by
  have inert (character : Char) (member : character ∈ text) : Inert (.attribute quote) character :=
    inert_of_harmless (tame character member).2.2
  have spells : Spells (some quote) text (text.map .character) :=
    spells_plain fun character member =>
      have stands := inert character member
      ⟨stands.notLess, (tame character member).2.1, stands.notQuote⟩
  have renders : Renders quote (String.ofList text).toList (String.ofList text).toList := by
    rw [String.toList_ofList]
    exact ⟨spells, fun character member => (inert character member).stays⟩
  refine ⟨renders, fun charset => ?_⟩
  have has : text.flatMap charset.shown = text :=
    Charset.flatMap_shown_of_has fun character member => (tame character member).1.has
  rw [String.toList_ofList] at renders ⊢
  rwa [has]

theorem tame_symbol (bits : Nat) : Tame (Base64.symbol bits) :=
  of_getD bits (by decide +kernel) (by decide)

theorem tame_of_mem_hexadecimal {bytes : List UInt8} :
    ∀ character ∈ Hexadecimal.encode bytes, Tame character :=
  Hexadecimal.of_mem_encode fun bits => of_getD bits (by decide +kernel) (by decide)

theorem tame_of_mem_lastGroup {carry : Base64.Carry} :
    ∀ character ∈ carry.lastGroup, Tame character :=
  Base64.of_mem_lastGroup tame_symbol (by decide)

theorem yields_payloadEnd (quote : Quote) (draft : Draft) :
    Yields quote draft.payloadEnd draft.payloadEnd := by
  unfold Draft.payloadEnd
  cases draft.payload with
  | none => exact .nil quote
  | some carry => exact yields_of_tame tame_of_mem_lastGroup

theorem tame_of_mem_feed {carry : Base64.Carry} {chunk : List UInt8} :
    ∀ character ∈ (carry.feed chunk).1, Tame character :=
  Base64.of_mem_groups tame_symbol _

end Reading

namespace Writer

open Reading

variable {α β : Type} {before after : Writer} {text more value later : String}

structure InValue (writer : Writer) : Prop where
  phase : writer.phase = .attribute ∨ writer.phase = .topAttribute
  bindings : writer.bindings.Sound

/-- A value has gone on with some text, and with what that means to a reader. -/
structure Fills (before : Writer) (text value : String) (after : Writer) : Prop where
  phase : after.phase = before.phase
  settings : after.settings = before.settings
  special : after.special = (before.captured value).special
  bindings : before.bindings.Sound → after.bindings.Sound
  output : before.output.Extends text after.output
  yields : Yields before.settings.quote text value

namespace Fills

theorem of_silent (phase : after.phase = before.phase) (settings : after.settings = before.settings)
    (special : after.special = before.special) (silent : before.Silent after) :
    before.Fills "" "" after where
  phase := phase
  settings := settings
  special := by rw [captured_empty, special]
  bindings := silent.sound
  output := by
    rw [silent.output]
    exact .refl _
  yields := .nil _

theorem trans {first second third : Writer} (earlier : first.Fills text value second)
    (rest : second.Fills more later third) : first.Fills (text ++ more) (value ++ later) third where
  phase := rest.phase.trans earlier.phase
  settings := rest.settings.trans earlier.settings
  special := by
    rw [rest.special, captured, earlier.special, ← captured_captured]
    rfl
  bindings := rest.bindings ∘ earlier.bindings
  output := earlier.output.trans rest.output
  yields := earlier.yields.append (earlier.settings ▸ rest.yields)

theorem inValue (fills : before.Fills text value after) (inValue : before.InValue) :
    after.InValue :=
  ⟨by rw [fills.phase]; exact inValue.phase, fills.bindings inValue.bindings⟩

theorem of_writes (wrote : (before.captured value).Writes text after)
    (yields : Yields before.settings.quote text value) : before.Fills text value after := by
  rcases wrote with ⟨output, rfl, extended⟩
  exact ⟨rfl, rfl, rfl, id, extended, yields⟩

end Fills

def Filling (action : Action α) : Prop :=
  ∀ ⦃before result after⦄, before.InValue → action before = .ok result after →
    ∃ text value, before.Fills text value after

namespace Filling

theorem pure (result : α) : Filling (Pure.pure result) := by
  intro before value after _ ok
  rw [pure_eq_ok] at ok
  rw [← ok.2]
  exact ⟨"", "", .of_silent rfl rfl rfl (.refl _)⟩

theorem throw (error : WriterError) : Filling (MonadExcept.throw error : Action α) := by
  intro before value after _ ok
  simp at ok

theorem bind {action : Action α} {next : α → Action β} (filling : Filling action)
    (rest : ∀ value, Filling (next value)) : Filling (action >>= next) := by
  intro before result after inValue ok
  rcases bind_eq_ok.mp ok with ⟨first, middle, does, goesOn⟩
  rcases filling inValue does with ⟨_, _, fills⟩
  rcases rest first (fills.inValue inValue) goesOn with ⟨_, _, fillsToo⟩
  exact ⟨_, _, fills.trans fillsToo⟩

theorem get_bind {next : Writer → Action α} (rest : ∀ writer, Filling (next writer)) :
    Filling (get >>= next) :=
  fun before _ _ inValue ok => rest before inValue ok

theorem change {update : Writer → Writer}
    (kept : ∀ writer : Writer, writer.Fills "" "" (update writer)) : Filling (modify update) := by
  intro before result after _ ok
  rw [modify_eq_ok] at ok
  rw [← ok]
  exact ⟨"", "", kept before⟩

theorem ite {condition : Prop} [Decidable condition] {action other : Action α}
    (filling : Filling action) (otherwise : Filling other) :
    Filling (if condition then action else other) := by
  split
  · exact filling
  · exact otherwise

theorem when {condition : Prop} [Decidable condition] {action : Action PUnit}
    {next : PUnit → Action β} (filling : Filling action) (rest : Filling (next ⟨⟩)) :
    Filling (if condition then action >>= next else next ⟨⟩) :=
  .ite (.bind filling fun _ => rest) rest

theorem guarded {call : Action Unit} (filling : Filling call) : Filling (Writer.guarded call) :=
  fun _ _ _ inValue ok => filling inValue (guarded_ok ok).2

end Filling

/-! ## Parts of values -/

theorem textPosition_of_inValue (inValue : before.InValue) :
    before.textPosition = .attribute before.settings.quote := by
  rcases inValue.phase with phase | phase <;> rw [textPosition, phase]

theorem filling_emitText (text : String) : Filling (emitText text) := by
  intro before result after inValue ok
  have wrote := emitText_ok ok
  rw [textPosition_of_inValue inValue] at wrote
  exact ⟨_, text, .of_writes wrote (yields_escaped _ text)⟩

theorem filling_emitTame {text : List Char} (tame : ∀ character ∈ text, Tame character) :
    Filling (emitVerbatim (String.ofList text)) :=
  fun _ _ _ _ ok => ⟨_, _, .of_writes (emitVerbatim_ok ok) (yields_of_tame tame)⟩

theorem filling_emitCharacter (character : Char) : Filling (emitCharacter character) :=
  fun _ _ _ _ ok => ⟨_, _, .of_writes (emitCharacter_ok ok) (yields_hexReference _ character)⟩

theorem filling_modifyTop (update : OpenElement → OpenElement) : Filling (modifyTop update) :=
  .change fun _ => .of_silent rfl rfl rfl ⟨rfl, rfl, id⟩

theorem finishPayload_fills {nothing : Unit} (ok : finishPayload before = .ok nothing after) :
    before.Fills before.draft.payloadEnd before.draft.payloadEnd after := by
  rcases finishPayload_cases ok with ⟨paid, rfl⟩ | ⟨pending, output, extended, rfl⟩
  · rw [Draft.payloadEnd_of_paid paid]
    exact .of_silent rfl rfl rfl (.refl _)
  · have ends : before.draft.payloadEnd = String.ofList before.carry.lastGroup :=
      Draft.payloadEnd_of_unflushed pending
    refine ⟨rfl, rfl, ?_, id, ends ▸ extended, yields_payloadEnd _ _⟩
    rw [ends]

theorem filling_finishPayload : Filling finishPayload :=
  fun _ _ _ _ ok => ⟨_, _, finishPayload_fills ok⟩

theorem filling_advance {token : Token} (adds : token = .text ∨ token = .whitespace ∨ token = .base64) :
    Filling (advance token) := by
  intro before nothing after inValue ok
  rcases advance_ok ok with ⟨next, paid, room, written, leads, finished, made, rfl⟩
  have paid_ : ∃ text value, before.Fills text value paid := by
    rcases finished with ⟨_, _, finished⟩ | ⟨_, rfl⟩
    · exact filling_finishPayload inValue finished
    · exact ⟨"", "", .of_silent rfl rfl rfl (.refl _)⟩
  rcases paid_ with ⟨text, value, fills⟩
  have stays : next = before.phase := by
    have leads := next?_of_nextPhase? (by rcases adds with rfl | rfl | rfl <;> simp) leads
    rcases inValue.phase with phase | phase <;> rcases adds with rfl | rfl | rfl <;>
      cases mode : before.mode <;> rw [mode, phase] at leads <;> cases leads <;> exact phase.symm
  have room_ : room = paid := by
    have phases : paid.phase ≠ .element ∧ next ≠ .content := by
      rw [fills.phase, stays]
      rcases inValue.phase with phase | phase <;> simp [phase]
    rcases adds with rfl | rfl | rfl <;>
    · simp only [makeRoom, get_bind_eq, phases.1, phases.2, decide_false, Bool.false_and,
        Bool.false_eq_true, if_false, pure_eq_ok] at made
      exact made.2.symm
  subst room_
  exact ⟨text, value, stays, fills.settings, fills.special, fills.bindings, fills.output, fills.yields⟩

theorem filling_checkName (form : Name.Form) (name : String) : Filling (checkName form name) :=
  .get_bind fun _ => .ite (.throw _) (.pure _)

theorem filling_textPrefixFor (uri : String) : Filling (textPrefixFor uri) := by
  intro before nsPrefix after inValue ok
  rcases textPrefixFor_ok inValue.bindings ok with ⟨silent, qualifies⟩
  have frames := qualifies.frames
  exact ⟨"", "", .of_silent frames.phase frames.settings frames.special silent⟩

theorem filling_putText (text : String) : Filling (putText text) :=
  .ite (.bind (filling_advance (.inl rfl)) fun _ => filling_emitText text) (.pure _)

theorem filling_putCharacter (code : Nat) : Filling (putCharacter code) := by
  unfold putCharacter
  cases xmlCharacter? code with
  | none => exact .throw _
  | some character =>
      exact .bind (filling_advance (.inl rfl)) fun _ => filling_emitCharacter character

theorem filling_putBase64 (chunk : List UInt8) : Filling (putBase64 chunk) := by
  refine .bind (filling_advance (.inr (.inr rfl))) fun _ => .get_bind fun _ => ?_
  refine .bind (.change fun _ => .of_silent rfl rfl rfl ⟨rfl, rfl, id⟩) fun _ => ?_
  refine .bind (filling_emitTame tame_of_mem_feed) fun _ => ?_
  exact .change fun _ => .of_silent rfl rfl rfl ⟨rfl, rfl, id⟩

theorem filling_putQualifiedName (localName : String) (uri : Option String) :
    Filling (putQualifiedName localName uri) := by
  refine .bind (filling_checkName _ localName) fun _ => .get_bind fun _ => ?_
  refine .ite (.throw _) (.bind (filling_advance (.inl rfl)) fun _ => ?_)
  cases nonEmpty? uri with
  | none => exact filling_emitText localName
  | some uri =>
      refine .get_bind fun _ => .ite ?_ (filling_emitText localName)
      refine .bind (filling_textPrefixFor uri) fun nsPrefix => ?_
      refine .bind (filling_emitText nsPrefix) fun _ => .bind (filling_emitText ":") fun _ => ?_
      exact .get_bind fun _ => .when (filling_modifyTop _) (filling_emitText localName)

theorem filling_perform {call : Call} (adds : call.addsValue = true) : Filling (perform call) := by
  cases call with
  | text text => exact (filling_putText text).guarded
  | whitespace text =>
      exact Filling.guarded (.ite (.throw _) (.bind (filling_advance (.inr (.inl rfl))) fun _ =>
        filling_emitText text))
  | character code => exact (filling_putCharacter code).guarded
  | surrogates low high =>
      exact Filling.guarded (.ite (.throw _) (.ite (.throw _)
        (.bind (filling_advance (.inl rfl)) fun _ => filling_emitCharacter _)))
  | base64 chunk => exact (filling_putBase64 chunk).guarded
  | hexadecimal bytes =>
      exact Filling.guarded (.bind (filling_advance (.inl rfl)) fun _ =>
        filling_emitTame tame_of_mem_hexadecimal)
  | name name =>
      exact Filling.guarded (.bind (filling_checkName _ name) fun _ =>
        .bind (filling_advance (.inl rfl)) fun _ => filling_emitText name)
  | token name =>
      exact Filling.guarded (.ite (.throw _) (.bind (filling_advance (.inl rfl)) fun _ =>
        filling_emitText name))
  | qualifiedName localName uri => exact (filling_putQualifiedName localName uri).guarded
  | _ => cases adds

/-- By induction on the calls that add to a value. -/
theorem fills_of_accepts {calls : List Call} (inValue : before.InValue)
    (add : ∀ call ∈ calls, call.addsValue = true) (accepts : before.Accepts calls) :
    ∃ text value, before.Fills text value (before.run calls).2 := by
  induction calls generalizing before with
  | nil => exact ⟨"", "", .of_silent rfl rfl rfl (.refl _)⟩
  | cons call rest induction =>
      rcases accepts_cons.mp accepts with ⟨ok, accepts⟩
      rcases filling_perform (add call List.mem_cons_self) inValue (step_ok ok) with ⟨_, _, fills⟩
      rcases induction (fills.inValue inValue)
        (fun other member => add other (List.mem_cons_of_mem _ member)) accepts with ⟨_, _, later⟩
      exact ⟨_, _, fills.trans later⟩

end Writer

end XmlStream
