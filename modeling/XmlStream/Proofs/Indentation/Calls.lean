import XmlStream.Proofs.Indentation.Room

namespace XmlStream.Writer

/-! What two writers draw in a call, one with lines and one without. -/

variable {α : Type} {first second after afterToo : Writer}

/-! ## Actions that write nothing -/

def Mute (action : Action α) : Prop :=
  ∀ writer, EndsIn (fun after : Writer => after.output = writer.output) (action writer)

namespace Mute

variable {β : Type}

theorem pure (value : α) : Mute (Pure.pure value) := fun _ => rfl

theorem throw (error : WriterError) : Mute (MonadExcept.throw error : Action α) := fun _ => rfl

theorem bind {action : Action α} {next : α → Action β} (mute : Mute action)
    (later : ∀ value, Mute (next value)) : Mute (action >>= next) := by
  intro writer
  refine endsIn_bind (mute writer) fun value middle same => ?_
  rw [← same]
  exact later value middle

theorem get_bind {next : Writer → Action α} (later : ∀ writer, Mute (next writer)) :
    Mute (get >>= next) :=
  fun writer => later writer writer

theorem change {update : Writer → Writer} (kept : ∀ writer, (update writer).output = writer.output) :
    Mute (modify update) :=
  kept

theorem ite {condition : Prop} [Decidable condition] {action other : Action α} (mute : Mute action)
    (otherwise : Mute other) : Mute (if condition then action else other) := by
  split
  · exact mute
  · exact otherwise

end Mute

theorem mute_checkName (form : Name.Form) (name : String) : Mute (checkName form name) :=
  .get_bind fun _ => .ite (.throw _) (.pure _)

theorem mute_checkRequest (request : NameRequest) : Mute (checkRequest request) :=
  .ite (.throw _) (.get_bind fun _ => .ite (.throw _) (.pure _))

theorem mute_quoted (literal : String) : Mute (quoted literal) := by
  refine .get_bind fun writer => ?_
  cases literalQuote? writer.settings.quote literal with
  | none => exact .throw _
  | some quote => exact .pure _

theorem mute_externalId (publicId systemId : Option String) :
    Mute (externalId publicId systemId) := by
  unfold externalId
  split
  · exact .pure _
  · exact .bind (mute_quoted _) fun _ => .pure _
  · exact .bind (mute_quoted _) fun _ => .bind (mute_quoted _) fun _ => .pure _

theorem mute_checkSpelling (nsPrefix uri : String) : Mute (checkSpelling nsPrefix uri) :=
  .ite (.throw _) (.pure _)

theorem mute_checkReserved (nsPrefix : Option String) (uri : String) :
    Mute (checkReserved nsPrefix uri) :=
  .ite (.throw _) (.pure _)

theorem mute_bindDefault (uri : String) (declared : Bool) : Mute (bindDefault uri declared) :=
  .bind (mute_checkReserved none uri) fun _ => .get_bind fun _ =>
    .ite (.throw _) (.change fun _ => rfl)

theorem mute_pushBinding (nsPrefix uri : String) (declared : Bool) :
    Mute (pushBinding nsPrefix uri declared) :=
  .get_bind fun _ => .bind (.change fun _ => rfl) fun _ => .ite (.change fun _ => rfl) (.pure _)

theorem mute_bindPrefix (nsPrefix uri : String) (declared : Bool) :
    Mute (bindPrefix nsPrefix uri declared) := by
  refine .bind (mute_checkReserved _ uri) fun _ => .ite (.throw _) fun writer => ?_
  simp only [Bind.bind, EStateM.bind, get_run]
  cases writer.bindings.boundTo? nsPrefix uri with
  | some position => cases declared <;> exact rfl
  | none => exact Mute.ite (.throw _) (mute_pushBinding nsPrefix uri declared) writer

theorem mute_elementPrefix (request : NameRequest) : Mute (elementPrefix request) := by
  have joins (uri : String) : Mute (do bindDefault uri false; return none : Action (Option String)) :=
    .bind (mute_bindDefault uri false) fun _ => .pure _
  refine .get_bind fun writer => .ite (.pure _) ?_
  cases request.uri with
  | some uri =>
      simp only [elementPrefixFor]
      split
      · refine .get_bind fun writer => ?_
        cases writer.bindings.findPrefix? uri with
        | some found => exact .pure _
        | none => exact joins uri
      · exact joins uri
      · exact .ite (.throw _) (.bind (mute_checkSpelling _ uri) fun _ =>
          .bind (mute_bindPrefix _ uri false) fun _ => .pure _)
  | none =>
      cases nonEmpty? request.nsPrefix with
      | none => exact .pure _
      | some nsPrefix =>
          have checks : Mute (checkBound nsPrefix) :=
            .get_bind fun _ => .ite (.throw _) (.pure _)
          exact .bind checks fun _ => .pure _

theorem Steady.both_mute {action : Action α} (steady : Steady action) (mute : Mute action)
    (abreast : first.Abreast second) :
    Both (fun _ after afterToo => InStep first second after afterToo ∧
        Came first second "" "" after afterToo)
      (fun after afterToo => InStep first second after afterToo ∧
        Came first second "" "" after afterToo)
      (action first) (action second) := by
  have nothing {after afterToo : Writer} (inStep : InStep first second after afterToo)
      (same : after.output = first.output) : Came first second "" "" after afterToo := by
    rcases inStep.came with ⟨text, came⟩
    have none := came.output.text_eq (.refl first.output) abreast.bare (by rw [same])
    rwa [none] at came
  have both := steady.both abreast
  have here := mute first
  generalize action first = result at both here ⊢
  generalize action second = result at both ⊢
  cases both with
  | ok value inStep => exact .ok value ⟨inStep, nothing inStep here⟩
  | error error inStep => exact .error error ⟨inStep, nothing inStep here⟩

/-! ## Strokes of actions -/

structure Drawn (start startToo : Writer) (strokes : List Stroke) (first second : Writer) :
    Prop where
  came : Came start startToo (Stroke.texts strokes) (start.margin.indented strokes) first second
  margin : first.margin = start.margin.afterAll strokes

/-- Two writers that have drawn strokes up to a refusal. -/
structure Torn (start startToo : Writer) (strokes : List Stroke) (first second : Writer) :
    Prop where
  came : Came start startToo (Stroke.texts strokes) (start.margin.indented strokes) first second
  paid : .lostTag ∈ strokes → first.payload = none

theorem Drawn.trans {start startToo middle middleToo : Writer} {strokes more : List Stroke}
    (drawn : Drawn start startToo strokes middle middleToo)
    (further : Drawn middle middleToo more first second) :
    Drawn start startToo (strokes ++ more) first second where
  came := by
    rw [Stroke.texts_append, Margin.indented_append, ← drawn.margin]
    exact drawn.came.trans further.came
  margin := by rw [Margin.afterAll_append, ← drawn.margin, further.margin]

theorem Drawn.torn {start startToo middle middleToo : Writer} {strokes more : List Stroke}
    (drawn : Drawn start startToo strokes middle middleToo)
    (torn : Torn middle middleToo more first second) (whole : .lostTag ∉ strokes) :
    Torn start startToo (strokes ++ more) first second where
  came := by
    rw [Stroke.texts_append, Margin.indented_append, ← drawn.margin]
    exact drawn.came.trans torn.came
  paid := fun lost => torn.paid ((List.mem_append.mp lost).resolve_left whole)

theorem InStep.torn {start startToo : Writer} (inStep : InStep start startToo first second) :
    ∃ text, Torn start startToo [.torn text] first second := by
  rcases inStep.came with ⟨text, came⟩
  refine ⟨text, ?_, by simp⟩
  simpa [Stroke.text] using came

/-- What an action draws that is part of a call. -/
def Outlines (call : Call) (action : Action Unit) : Prop :=
  ∀ ⦃first second : Writer⦄, first.Abreast second →
    Both (fun _ after afterToo => ∃ strokes, call.Draws first.phase after.phase strokes ∧
        Drawn first second strokes after afterToo)
      (fun after afterToo => ∃ strokes, call.Breaks first.phase strokes ∧
        Torn first second strokes after afterToo)
      (action first) (action second)

theorem InStep.breaks {start startToo : Writer} (inStep : InStep start startToo first second)
    (call : Call) (phase : Phase) :
    ∃ strokes, call.Breaks phase strokes ∧ Torn start startToo strokes first second := by
  rcases inStep.torn with ⟨text, torn⟩
  exact ⟨_, .torn call text, torn⟩

namespace Outlines

variable {call : Call}

theorem check {action : Action α} {next : α → Action Unit} (steady : Steady action)
    (mute : Mute action) (later : ∀ value, Outlines call (next value)) :
    Outlines call (action >>= next) := by
  intro first second abreast
  have checked := (steady.both_mute mute abreast).mono (fun _ _ _ holds => holds)
    fun _ _ holds => holds.1.breaks call first.phase
  refine checked.bind fun value middle middleToo holds => ?_
  rcases holds with ⟨inStep, came⟩
  refine (later value came.abreast).mono ?_ ?_
  · rintro _ after afterToo ⟨strokes, draws, drawn⟩
    rw [inStep.phase] at draws
    refine ⟨strokes, draws, ?_, ?_⟩
    · have whole := came.trans drawn.came
      rwa [String.empty_append, String.empty_append, inStep.margin] at whole
    · rw [drawn.margin, inStep.margin]
  · rintro after afterToo ⟨strokes, breaks, torn⟩
    rw [inStep.phase] at breaks
    refine ⟨strokes, breaks, ?_, torn.paid⟩
    have whole := came.trans torn.came
    rwa [String.empty_append, String.empty_append, inStep.margin] at whole

theorem refuse {condition : Prop} [Decidable condition] {error : WriterError} {β : Type}
    {next : β → Action Unit} {otherwise : Action Unit} (later : Outlines call otherwise) :
    Outlines call (if condition then MonadExcept.throw error >>= next else otherwise) := by
  split
  · intro first second abreast
    exact .error error (abreast.inStep.breaks call first.phase)
  · exact later

theorem get_bind {next : Writer → Action Unit}
    (same : ∀ (writer : Writer) output formatting,
      next { writer with output, settings := { writer.settings with formatting } } = next writer)
    (later : ∀ writer, Outlines call (next writer)) : Outlines call (get >>= next) := by
  intro first second abreast
  change Both _ _ (next first first) (next second second)
  have there : next second = next first := by
    rw [abreast.same]
    exact same first second.output .indented
  rw [there]
  exact later first abreast

theorem guarded {action : Action Unit} (outlines : Outlines call action) :
    Outlines call (Writer.guarded action) := by
  intro first second abreast
  have phase : second.phase = first.phase := by rw [abreast.same]
  by_cases closed : first.phase = .closed
  · simp only [Writer.guarded, phase, closed, if_true]
    exact .error _ (abreast.inStep.breaks call _)
  · have both := outlines abreast
    simp only [Writer.guarded, phase, closed, if_false]
    generalize action first = result at both ⊢
    generalize action second = result at both ⊢
    cases both with
    | ok value holds => exact .ok () holds
    | error error holds =>
        rcases holds with ⟨strokes, breaks, torn⟩
        refine .error error ⟨strokes, breaks, ?_, torn.paid⟩
        exact torn.came.update (fun writer => { writer with
          phase := .failed, log := writer.log.push (.callFailed writer.phase error) })
          (fun _ _ _ => rfl) (fun _ => rfl) rfl

end Outlines

/-! ## Attributes, text, and sections -/

theorem Reaches.trans {token : Token} {start startToo middle middleToo : Writer} {text : String}
    {margin : Margin} (reaches : Reaches token start startToo text text margin middle middleToo)
    (inStep : InStep middle middleToo first second) :
    ∃ text, Reaches token start startToo text text margin first second := by
  rcases inStep.came with ⟨more, came⟩
  refine ⟨_, reaches.came.trans came, ?_, ?_, fun other => inStep.paid (reaches.paid other)⟩
  · rw [inStep.phase, reaches.leads]
  · rw [inStep.margin, reaches.margin]

theorem Reaches.breaks {token : Token} {start startToo middle middleToo : Writer} {text : String}
    {margin : Margin} (reaches : Reaches token start startToo text text margin middle middleToo)
    (inStep : InStep middle middleToo first second) (call : Call) (phase : Phase) :
    ∃ strokes, call.Breaks phase strokes ∧ Torn start startToo strokes first second := by
  rcases reaches.trans inStep with ⟨text, reaches⟩
  refine ⟨_, .torn call text, ?_, by simp⟩
  simpa [Stroke.text] using reaches.came

theorem Reaches.drawn_inline {token : Token} {text : String}
    (reaches : Reaches token first second text text first.margin after afterToo) :
    Drawn first second [.inline text] after afterToo := by
  refine ⟨?_, reaches.margin⟩
  simpa [Stroke.text] using reaches.came

theorem begin_mix (margin : Margin) : margin.mix.begin = margin.begin.mix := by
  cases mixed : margin.mixed <;> simp [Margin.mix, Margin.begin, mixed]

theorem Reaches.drawn_data {token : Token} {text : String}
    (reaches : Reaches token first second text text first.margin.mix after afterToo) :
    Drawn first second [.data text] after afterToo := by
  refine ⟨?_, reaches.margin.trans (begin_mix _)⟩
  simpa [Stroke.text] using reaches.came

theorem outlines_attribute {call : Call} {token : Token} {rest : Action Unit}
    (attributed : token = .startAttribute ∨ token = .endAttribute) (steady : Steady rest)
    (draws : ∀ text (before : Writer) (after : Phase), before.nextPhase? token = some after →
      call.Draws before.phase after [.inline text]) :
    Outlines call (advance token >>= fun _ => rest) := by
  intro first second abreast
  have went := (both_advance_attribute abreast attributed).mono (fun _ _ _ holds => holds)
    fun _ _ inStep => inStep.breaks call first.phase
  refine went.bind fun _ middle middleToo holds => ?_
  rcases holds with ⟨text, reaches⟩
  refine (steady.both reaches.came.abreast).mono ?_ fun _ _ inStep => reaches.breaks inStep _ _
  intro _ after afterToo inStep
  rcases reaches.trans inStep with ⟨whole, reaches⟩
  exact ⟨_, draws whole first after.phase reaches.leads, reaches.drawn_inline⟩

theorem outlines_openAttribute (request : NameRequest) :
    Outlines (.startAttribute request) (openAttribute request) := by
  refine .check (steady_checkRequest request) (mute_checkRequest request) fun _ => ?_
  refine outlines_attribute (.inl rfl) (.bind (steady_attributeRole request) fun role => ?_) ?_
  · obtain ⟨nsPrefix, kind⟩ := role
    have writes (nsPrefix : Option String) : Steady (do
        emit (writtenName nsPrefix request.localName)
        emit "="
        emitQuote
        modify fun writer : Writer => { writer with special := kind.map fun kind => { kind } }) :=
      .bind (steady_emit _) fun _ => .bind (steady_emit _) fun _ => .bind steady_emitQuote fun _ =>
        .change (aside_special fun _ => _)
    cases nsPrefix with
    | none => exact writes none
    | some nsPrefix =>
        exact .get_bind (fun _ _ _ => rfl) fun _ =>
          .when (steady_notePrefix nsPrefix) (writes (some nsPrefix))
  · intro text before after leads
    refine .startAttribute request text ?_
    have leads := token_next?_of_next? (next?_of_nextPhase? (by simp) leads)
    generalize before.phase = phase at leads
    cases phase <;> simp [Token.next?] at leads <;> simp [← leads]

theorem outlines_endAttribute : Outlines .endAttribute (advance .endAttribute) := by
  have outlines : Outlines .endAttribute (advance .endAttribute >>= fun _ => return) :=
    outlines_attribute (.inr rfl) (.pure _) fun text _ _ _ => .endAttribute text
  rwa [show (advance .endAttribute >>= fun _ => return : Action Unit) = advance .endAttribute from
    bind_pure _] at outlines

/-- Where text leads: it stays in a value, it is content in an element, and it may be both outside
of elements. -/
theorem phase_of_text {token : Token} {phase next : Phase}
    (fills : token = .text ∨ token = .base64 ∨ token = .raw ∨ token = .whitespace)
    (leads : token.next? phase = some next) :
    (phase = .attribute ∨ phase = .topAttribute → next ≠ .content) ∧
      (phase = .element ∨ phase = .content → next = .content) := by
  rcases fills with rfl | rfl | rfl | rfl <;> cases phase <;> cases leads <;> simp

theorem Reaches.drawn_fills {call : Call} {token : Token} {text : String}
    (fills : token = .text ∨ token = .base64 ∨ token = .raw ∨ token = .whitespace)
    (fillsToo : call.Fills) (reaches : Reaches token first second text text
      (if after.phase = .content then first.margin.mix else first.margin) after afterToo) :
    ∃ strokes, call.Draws first.phase after.phase strokes ∧
      Drawn first second strokes after afterToo := by
  have other : token ≠ .endElement ∧ token ≠ .separateEnd := by
    rcases fills with rfl | rfl | rfl | rfl <;> simp
  have leads := phase_of_text fills
    (token_next?_of_next? (next?_of_nextPhase? other reaches.leads))
  by_cases content : after.phase = .content
  · rw [if_pos content] at reaches
    refine ⟨_, .content call text fillsToo ?_ content, reaches.drawn_data⟩
    exact ⟨fun inValue => leads.1 (.inl inValue) content, fun inValue => leads.1 (.inr inValue) content⟩
  · rw [if_neg content] at reaches
    refine ⟨_, .outside call text fillsToo ?_ content, reaches.drawn_inline⟩
    exact ⟨fun inside => content (leads.2 (.inl inside)), fun inside => content (leads.2 (.inr inside))⟩

theorem outlines_fills {call : Call} {token : Token} {rest : Unit → Action Unit}
    (fills : token = .text ∨ token = .base64 ∨ token = .raw ∨ token = .whitespace)
    (fillsToo : call.Fills) (steady : ∀ value, Steady (rest value)) :
    Outlines call (advance token >>= rest) := by
  intro first second abreast
  have went := (both_advance_text abreast fills).mono (fun _ _ _ holds => holds)
    fun _ _ inStep => inStep.breaks call first.phase
  refine went.bind fun value middle middleToo holds => ?_
  rcases holds with ⟨text, reaches⟩
  refine ((steady value).both reaches.came.abreast).mono ?_ fun _ _ inStep =>
    reaches.breaks inStep _ _
  intro _ after afterToo inStep
  have phase : middle.phase = after.phase := inStep.phase.symm
  rcases reaches.trans inStep with ⟨whole, reaches⟩
  rw [phase] at reaches
  exact reaches.drawn_fills fills fillsToo

theorem outlines_putText (text : String) : Outlines (.text text) (putText text) := by
  by_cases empty : text = ""
  · subst empty
    intro first second abreast
    exact .ok _ ⟨[], .noText rfl, abreast.came, rfl⟩
  · simp only [putText, ne_eq, empty, not_false_eq_true, if_true]
    exact outlines_fills (.inl rfl) (.text text empty) fun _ => steady_emitText text

theorem outlines_putRaw (text : String) : Outlines (.raw text) (putRaw text) :=
  outlines_fills (by simp) (.raw text) fun _ => steady_emitVerbatim text

theorem outlines_putWhitespace (text : String) : Outlines (.whitespace text) (putWhitespace text) :=
  .refuse (outlines_fills (by simp) (.whitespace text) fun _ => steady_emitText text)

theorem outlines_putName (name : String) : Outlines (.name name) (putName name) :=
  .check (steady_checkName _ name) (mute_checkName _ name) fun _ =>
    outlines_fills (.inl rfl) (.name name) fun _ => steady_emitText name

theorem outlines_putToken (name : String) : Outlines (.token name) (putToken name) :=
  .refuse (outlines_fills (.inl rfl) (.token name) fun _ => steady_emitText name)

theorem outlines_putEntity (name : String) : Outlines (.entity name) (putEntity name) :=
  .check (steady_checkName _ name) (mute_checkName _ name) fun _ =>
    outlines_fills (.inl rfl) (.entity name) fun _ => steady_emitEntity name

theorem outlines_putHexadecimal (bytes : List UInt8) :
    Outlines (.hexadecimal bytes) (putHexadecimal bytes) :=
  outlines_fills (.inl rfl) (.hexadecimal bytes) fun _ => steady_emitVerbatim _

theorem outlines_putCharacter (code : Nat) : Outlines (.character code) (putCharacter code) := by
  unfold putCharacter
  cases xmlCharacter? code with
  | none => exact fun first second abreast => .error _ (abreast.inStep.breaks _ first.phase)
  | some character =>
      exact outlines_fills (.inl rfl) (.character code) fun _ => steady_emitCharacter character

theorem outlines_putSurrogates (low high : Nat) :
    Outlines (.surrogates low high) (putSurrogates low high) :=
  .refuse (.refuse (outlines_fills (.inl rfl) (.surrogates low high) fun _ =>
    steady_emitCharacter _))

theorem outlines_putQualifiedName (localName : String) (uri : Option String) :
    Outlines (.qualifiedName localName uri) (putQualifiedName localName uri) := by
  refine .check (steady_checkName _ localName) (mute_checkName _ localName) fun _ => ?_
  refine .get_bind (fun _ _ _ => rfl) fun _ => .refuse ?_
  refine outlines_fills (.inl rfl) (.qualifiedName localName uri) fun _ => ?_
  cases nonEmpty? uri with
  | none => exact steady_emitText localName
  | some uri =>
      refine .get_bind (fun _ _ _ => rfl) fun _ => ?_
      refine .ite (.bind (steady_textPrefixFor uri) fun nsPrefix => ?_) (steady_emitText localName)
      refine .bind (steady_emitText nsPrefix) fun _ => .bind (steady_emitText ":") fun _ => ?_
      exact .get_bind (fun _ _ _ => rfl) fun _ =>
        .when (steady_notePrefix nsPrefix) (steady_emitText localName)

theorem outlines_putBase64 (chunk : List UInt8) : Outlines (.base64 chunk) (putBase64 chunk) := by
  intro first second abreast
  have went := (both_advance_text abreast (.inr (.inl rfl))).mono (fun _ _ _ holds => holds)
    fun _ _ inStep => inStep.breaks (.base64 chunk) first.phase
  refine went.bind fun _ middle middleToo holds => ?_
  rcases holds with ⟨text, reaches⟩
  have carry : middleToo.carry = middle.carry := by rw [reaches.came.abreast.same]
  have fed := reaches.came.update (fun writer =>
    { writer with carry := (middle.carry.feed chunk).2 }) (fun _ _ _ => rfl) (fun _ => rfl) rfl
  rcases prints_emitVerbatim (String.ofList (middle.carry.feed chunk).1) fed.abreast with
    ⟨last, lastToo, does, doesToo, inStep, came⟩
  have phase : last.phase = middle.phase := inStep.phase
  have fed := (fed.trans came).update (fun writer => { writer with unflushed := true })
    (fun _ _ _ => rfl) (fun _ => rfl) rfl
  simp only [Bind.bind, EStateM.bind, get_run, modify_run, carry, does, doesToo]
  refine .ok _ (Reaches.drawn_fills (.inr (.inl rfl)) (.base64 chunk) ⟨fed, ?_, ?_, by simp⟩)
  · exact reaches.leads.trans (congrArg some phase.symm)
  · refine (inStep.margin.trans reaches.margin).trans ?_
    rw [← phase]

theorem outlines_putCData (text : String) : Outlines (.cdata text) (putCData text) := by
  refine .refuse fun first second abreast => ?_
  have steady : Steady (do
      emit "<![CDATA["
      emitVerbatim text
      emit "]]>") :=
    .bind (steady_emit _) fun _ => .bind (steady_emitVerbatim text) fun _ => steady_emit _
  have went := (both_advance_cdata abreast).mono (fun _ _ _ holds => holds)
    fun _ _ inStep => inStep.breaks (.cdata text) first.phase
  refine went.bind fun _ middle middleToo holds => ?_
  rcases holds with ⟨front, reaches⟩
  refine (steady.both reaches.came.abreast).mono ?_ fun _ _ inStep => reaches.breaks inStep _ _
  intro _ after afterToo inStep
  rcases reaches.trans inStep with ⟨whole, reaches⟩
  exact ⟨_, .cdata text whole, reaches.drawn_data⟩

end XmlStream.Writer
