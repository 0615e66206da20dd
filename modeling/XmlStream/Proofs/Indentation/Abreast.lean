import XmlStream.Proofs.Indentation.Strokes
import XmlStream.Proofs.Output.Alongside

namespace XmlStream.Writer

/-! Two writers of the same document, of which the second one indents. Nearly all that a call is
made of does not look at the formatting, so both writers do the same and write the same. -/

def margin (writer : Writer) : Margin where
  width := writer.settings.indentation
  indentChar := writer.settings.indentChar
  begun := writer.phase ≠ .start
  mixed := writer.elements.opened.map (·.mixed)
  outside := writer.elements.outside.mixed

/-- Two writers that differ in their formatting and in their outputs, which do not fail. -/
structure Abreast (first second : Writer) : Prop where
  same : second =
    { first with
      output := second.output, settings := { first.settings with formatting := .indented } }
  plain : first.settings.formatting = .plain
  bare : first.output.encoder = none
  bareToo : second.output.encoder = none
  unfailing : first.output.sink.Unfailing
  unfailingToo : second.output.sink.Unfailing

/-- Two writers that have come abreast from two others, each by a text of its own. -/
structure Came (start startToo : Writer) (text more : String) (first second : Writer) : Prop where
  abreast : first.Abreast second
  output : start.output.Extends text first.output
  outputToo : startToo.output.Extends more second.output

/-- Two writers that have come abreast by the same text, and stand in the document where they
stood. -/
structure InStep (start startToo first second : Writer) : Prop where
  came : ∃ text, Came start startToo text text first second
  phase : first.phase = start.phase
  margin : first.margin = start.margin
  paid : start.payload = none → first.payload = none

theorem Abreast.came {first second : Writer} (abreast : first.Abreast second) :
    Came first second "" "" first second :=
  ⟨abreast, .refl _, .refl _⟩

theorem Abreast.inStep {first second : Writer} (abreast : first.Abreast second) :
    InStep first second first second :=
  ⟨⟨"", abreast.came⟩, rfl, rfl, id⟩

theorem Came.trans {start startToo middle middleToo last lastToo : Writer}
    {text more later laterToo : String} (came : Came start startToo text more middle middleToo)
    (further : Came middle middleToo later laterToo last lastToo) :
    Came start startToo (text ++ later) (more ++ laterToo) last lastToo :=
  ⟨further.abreast, came.output.trans further.output, came.outputToo.trans further.outputToo⟩

theorem InStep.trans {start startToo middle middleToo last lastToo : Writer}
    (inStep : InStep start startToo middle middleToo) (further : InStep middle middleToo last lastToo) :
    InStep start startToo last lastToo := by
  rcases inStep.came with ⟨text, came⟩
  rcases further.came with ⟨more, cameToo⟩
  exact ⟨⟨_, came.trans cameToo⟩, further.phase.trans inStep.phase,
    further.margin.trans inStep.margin, fun free => further.paid (inStep.paid free)⟩

variable {α β : Type}

/-- An action that writes the same with and without indentation, and neither opens nor closes
anything, nor makes anything mixed. -/
def Steady (action : Action α) : Prop :=
  ∀ ⦃start startToo : Writer⦄, Mirrors (InStep start startToo) action action

theorem Steady.agree {action : Action α} (steady : Steady action) {first second : Writer}
    (abreast : first.Abreast second) :
    Agree (InStep first second) (action first) (action second) :=
  steady abreast.inStep

/-- A change of what a writer knows, beside its place in the document and what it writes. -/
structure Aside (update : Writer → Writer) : Prop where
  blind : ∀ (writer : Writer) output formatting,
    update { writer with output, settings := { writer.settings with formatting } } =
      { update writer with
        output, settings := { (update writer).settings with formatting } }
  output : ∀ writer, (update writer).output = writer.output
  settings : ∀ writer, (update writer).settings = writer.settings
  phase : ∀ writer, (update writer).phase = writer.phase
  margin : ∀ writer, (update writer).margin = writer.margin
  paid : ∀ writer, writer.payload = none → (update writer).payload = none

theorem aside_log (next : Array LogEvent → Array LogEvent) :
    Aside fun writer => { writer with log := next writer.log } :=
  ⟨fun _ _ _ => rfl, fun _ => rfl, fun _ => rfl, fun _ => rfl, fun _ => rfl, fun _ free => free⟩

theorem aside_special (next : Option SpecialAttribute → Option SpecialAttribute) :
    Aside fun writer => { writer with special := next writer.special } :=
  ⟨fun _ _ _ => rfl, fun _ => rfl, fun _ => rfl, fun _ => rfl, fun _ => rfl, fun _ free => free⟩

theorem aside_bindings (next : Bindings → Bindings) :
    Aside fun writer => { writer with bindings := next writer.bindings } :=
  ⟨fun _ _ _ => rfl, fun _ => rfl, fun _ => rfl, fun _ => rfl, fun _ => rfl, fun _ free => free⟩

theorem aside_carry (next : Base64.Carry) : Aside fun writer => { writer with carry := next } := by
  refine ⟨fun _ _ _ => rfl, fun _ => rfl, fun _ => rfl, fun _ => rfl, fun _ => rfl, ?_⟩
  intro writer free
  have paid : writer.draft.unflushed = false := Draft.payload_eq_none.mp free
  exact Draft.payload_eq_none.mpr paid

theorem aside_flushed : Aside fun writer => { writer with unflushed := false } :=
  ⟨fun _ _ _ => rfl, fun _ => rfl, fun _ => rfl, fun _ => rfl, fun _ => rfl, fun _ _ => rfl⟩

theorem margin_modifyTop (writer : Writer) {update : OpenElement → OpenElement}
    (keeps : ∀ element, (update element).mixed = element.mixed) :
    { writer with elements := writer.elements.modifyTop update : Writer }.margin =
      writer.margin := by
  cases opened : writer.elements.opened <;>
    simp [margin, ElementStack.modifyTop, opened, keeps]

theorem aside_modifyTop {update : OpenElement → OpenElement}
    (keeps : ∀ element, (update element).mixed = element.mixed) :
    Aside fun writer => { writer with elements := writer.elements.modifyTop update } :=
  ⟨fun _ _ _ => rfl, fun _ => rfl, fun _ => rfl, fun _ => rfl,
    fun writer => margin_modifyTop writer keeps, fun _ free => free⟩

theorem Abreast.update {first second : Writer} (abreast : first.Abreast second)
    (update : Writer → Writer)
    (blind : ∀ (writer : Writer) output formatting,
      update { writer with output, settings := { writer.settings with formatting } } =
        { update writer with
          output, settings := { (update writer).settings with formatting } })
    (output : ∀ writer, (update writer).output = writer.output)
    (plain : (update first).settings.formatting = first.settings.formatting) :
    (update first).Abreast (update second) where
  same := by
    have same : update second = _ :=
      (congrArg update abreast.same).trans (blind first second.output .indented)
    rw [output second]
    exact same
  plain := plain.trans abreast.plain
  bare := by rw [output]; exact abreast.bare
  bareToo := by rw [output]; exact abreast.bareToo
  unfailing := by rw [output]; exact abreast.unfailing
  unfailingToo := by rw [output]; exact abreast.unfailingToo

theorem Came.update {start startToo first second : Writer} {text more : String}
    (came : Came start startToo text more first second) (update : Writer → Writer)
    (blind : ∀ (writer : Writer) output formatting,
      update { writer with output, settings := { writer.settings with formatting } } =
        { update writer with
          output, settings := { (update writer).settings with formatting } })
    (output : ∀ writer, (update writer).output = writer.output)
    (plain : (update first).settings.formatting = first.settings.formatting) :
    Came start startToo text more (update first) (update second) where
  abreast := came.abreast.update update blind output plain
  output := by rw [output]; exact came.output
  outputToo := by rw [output]; exact came.outputToo

namespace Steady

theorem pure (value : α) : Steady (Pure.pure value) := fun _ _ => .pure value

theorem throw (error : WriterError) : Steady (MonadExcept.throw error : Action α) :=
  fun _ _ => .throw error

theorem bind {action : Action α} {next : α → Action β} (steady : Steady action)
    (later : ∀ value, Steady (next value)) : Steady (action >>= next) :=
  fun _ _ => .bind (@steady _ _) fun value => @later value _ _

theorem ite {condition : Prop} [Decidable condition] {action other : Action α}
    (steady : Steady action) (otherwise : Steady other) :
    Steady (if condition then action else other) :=
  fun _ _ => .ite (@steady _ _) (@otherwise _ _)

theorem when {condition : Prop} [Decidable condition] {action : Action PUnit}
    {next : PUnit → Action β} (steady : Steady action) (later : Steady (next ⟨⟩)) :
    Steady (if condition then action >>= next else next ⟨⟩) :=
  fun _ _ => .when (@steady _ _) (@later _ _)

theorem forM {γ : Type} (entries : List γ) {action : γ → Action PUnit}
    (steady : ∀ entry, Steady (action entry)) : Steady (entries.forM action) :=
  fun _ _ => .forM entries fun entry => @steady entry _ _

/-- An action may look at its writer, if what it does next does not depend on the formatting. -/
theorem get_bind_of {next : Writer → Action α}
    (later : ∀ writer : Writer, ∃ action, Steady action ∧ ∀ output formatting,
      let beside : Writer :=
        { writer with output, settings := { writer.settings with formatting } }
      next beside beside = action beside) : Steady (get >>= next) := by
  intro start startToo first second inStep
  rcases later first with ⟨action, steady, same⟩
  rcases inStep.came with ⟨_, came⟩
  have here : next first first = action first := same first.output first.settings.formatting
  have there : next second second = action second := by
    rw [came.abreast.same]
    exact same second.output .indented
  change Agree _ (next first first) (next second second)
  rw [here, there]
  exact steady inStep

theorem get_bind {next : Writer → Action α}
    (same : ∀ (writer : Writer) output formatting,
      next { writer with output, settings := { writer.settings with formatting } } = next writer)
    (later : ∀ writer, Steady (next writer)) : Steady (get >>= next) :=
  .get_bind_of fun writer => ⟨next writer, later writer, fun output formatting =>
    congrFun (same writer output formatting) _⟩

theorem change {update : Writer → Writer} (aside : Aside update) : Steady (modify update) := by
  intro start startToo first second inStep
  rcases inStep.came with ⟨text, came⟩
  refine .ok _ ⟨⟨text, came.update update aside.blind aside.output (by rw [aside.settings])⟩, ?_, ?_, ?_⟩
  · exact (aside.phase first).trans inStep.phase
  · exact (aside.margin first).trans inStep.margin
  · intro free
    exact aside.paid first (inStep.paid free)

end Steady

theorem encoder_of_extends {before after : OutputBuffer} {text : String}
    (grown : before.Extends text after) (bare : before.encoder = none) : after.encoder = none := by
  rw [grown.encoder, bare]
  rfl

theorem Abreast.order {first second : Writer} (abreast : first.Abreast second) (order : Order) :
    ∃ after afterToo, onOutput order.action first = .ok () after ∧
      onOutput order.action second = .ok () afterToo ∧ InStep first second after afterToo ∧
      Came first second (OutputBuffer.added none order) (OutputBuffer.added none order) after
        afterToo := by
  rcases @OutputBuffer.extends_of_order order _ abreast.unfailing with ⟨output, does, grown, still⟩
  rcases @OutputBuffer.extends_of_order order _ abreast.unfailingToo with
    ⟨outputToo, doesToo, grownToo, stillToo⟩
  rw [OutputBuffer.encoding?, abreast.bare, Option.map_none] at grown
  rw [OutputBuffer.encoding?, abreast.bareToo, Option.map_none] at grownToo
  have beside : Abreast { first with output } { second with output := outputToo } := by
    refine ⟨?_, abreast.plain, encoder_of_extends grown abreast.bare,
      encoder_of_extends grownToo abreast.bareToo, still, stillToo⟩
    rw [abreast.same]
  have came : Came first second _ _ { first with output } { second with output := outputToo } :=
    ⟨beside, grown, grownToo⟩
  refine ⟨_, _, ?_, ?_, ⟨⟨_, came⟩, rfl, rfl, id⟩, came⟩
  · simp only [onOutput, does]
  · simp only [onOutput, doesToo]

theorem Steady.onOutput (order : Order) : Steady (Writer.onOutput order.action) := by
  intro start startToo first second inStep
  rcases inStep.came with ⟨_, came⟩
  rcases came.abreast.order order with ⟨after, afterToo, does, doesToo, further, _⟩
  rw [does, doesToo]
  exact .ok _ (inStep.trans further)

/-! ## Outcomes -/

/-- The same result or the same error, with writers that are related in one way or in another. -/
inductive Both (Done : α → Writer → Writer → Prop) (Failed : Writer → Writer → Prop) :
    EStateM.Result WriterError Writer α → EStateM.Result WriterError Writer α → Prop
  | ok {first second : Writer} (value : α) (done : Done value first second) :
      Both Done Failed (.ok value first) (.ok value second)
  | error {first second : Writer} (error : WriterError) (failed : Failed first second) :
      Both Done Failed (.error error first) (.error error second)

section Both

variable {Done Wanted : α → Writer → Writer → Prop} {Failed Broken : Writer → Writer → Prop}
  {Later : β → Writer → Writer → Prop} {first second : Writer}

theorem Both.of_agree {result other : EStateM.Result WriterError Writer α}
    (agree : Agree Failed result other) : Both (fun _ => Failed) Failed result other := by
  cases agree with
  | ok value related => exact .ok value related
  | error error related => exact .error error related

theorem Both.mono {result other : EStateM.Result WriterError Writer α}
    (both : Both Done Failed result other)
    (done : ∀ value first second, Done value first second → Wanted value first second)
    (failed : ∀ first second, Failed first second → Broken first second) :
    Both Wanted Broken result other := by
  cases both with
  | ok value holds => exact .ok value (done _ _ _ holds)
  | error error holds => exact .error error (failed _ _ holds)

theorem Both.bind {action : Action α} {next : α → Action β}
    (both : Both Done Failed (action first) (action second))
    (later : ∀ value after afterToo, Done value after afterToo →
      Both Later Failed (next value after) (next value afterToo)) :
    Both Later Failed ((action >>= next) first) ((action >>= next) second) := by
  simp only [Bind.bind, EStateM.bind]
  generalize action first = result at both ⊢
  generalize action second = result at both ⊢
  cases both with
  | ok value done => exact later value _ _ done
  | error error failed => exact .error error failed

theorem Steady.both {action : Action α} (steady : Steady action) (abreast : first.Abreast second) :
    Both (fun _ => InStep first second) (InStep first second) (action first) (action second) :=
  .of_agree (steady.agree abreast)

end Both

/-! ## Texts -/

/-- An action that does nothing but write a text, as far as lines are concerned. -/
def Prints (text : String) (action : Action Unit) : Prop :=
  ∀ ⦃first second : Writer⦄, first.Abreast second →
    ∃ after afterToo, action first = .ok () after ∧ action second = .ok () afterToo ∧
      InStep first second after afterToo ∧ Came first second text text after afterToo

namespace Prints

theorem emit (markup : String) : Prints markup (emit markup) := by
  intro first second abreast
  exact abreast.order (.write fun _ => markup)

theorem bind {text more : String} {action next : Action Unit} (prints : Prints text action)
    (later : Prints more next) : Prints (text ++ more) (action >>= fun _ => next) := by
  intro first second abreast
  rcases prints abreast with ⟨middle, middleToo, does, doesToo, inStep, came⟩
  rcases later came.abreast with ⟨after, afterToo, goes, goesToo, further, cameToo⟩
  refine ⟨after, afterToo, ?_, ?_, inStep.trans further, came.trans cameToo⟩
  · exact bind_eq_ok.mpr ⟨_, _, does, goes⟩
  · exact bind_eq_ok.mpr ⟨_, _, doesToo, goesToo⟩

theorem change {update : Writer → Writer} (aside : Aside update) : Prints "" (modify update) := by
  intro first second abreast
  refine ⟨update first, update second, rfl, rfl, ?_, ?_⟩
  · refine ⟨⟨"", ?_⟩, aside.phase first, aside.margin first, fun free => ?_⟩
    · exact abreast.came.update update aside.blind aside.output (by rw [aside.settings])
    · exact aside.paid first free
  · exact abreast.came.update update aside.blind aside.output (by rw [aside.settings])

theorem both {text : String} {action : Action Unit} (prints : Prints text action)
    {first second : Writer} (abreast : first.Abreast second) {Failed : Writer → Writer → Prop} :
    Both (fun _ after afterToo => InStep first second after afterToo ∧
      Came first second text text after afterToo) Failed (action first) (action second) := by
  rcases prints abreast with ⟨after, afterToo, does, doesToo, holds⟩
  rw [does, doesToo]
  exact .ok _ holds

end Prints

/-! ## Ends of texts -/

def SteadyTo (tail : String) (action : Action Unit) : Prop :=
  ∀ ⦃first second : Writer⦄, first.Abreast second →
    Both (fun _ after afterToo => InStep first second after afterToo ∧
        ∃ text, Came first second (text ++ tail) (text ++ tail) after afterToo)
      (InStep first second) (action first) (action second)

namespace SteadyTo

variable {tail : String}

theorem of_prints {action : Action Unit} (prints : Prints tail action) : SteadyTo tail action := by
  intro first second abreast
  refine (prints.both abreast).mono ?_ fun _ _ inStep => inStep
  rintro _ after afterToo ⟨inStep, came⟩
  refine ⟨inStep, "", ?_⟩
  rw [String.empty_append]
  exact came

theorem bind {action : Action α} {next : α → Action Unit} (steady : Steady action)
    (later : ∀ value, SteadyTo tail (next value)) : SteadyTo tail (action >>= next) := by
  intro first second abreast
  refine (steady.both abreast).bind fun value middle middleToo inStep => ?_
  rcases inStep.came with ⟨text, came⟩
  refine (later value came.abreast).mono ?_ fun _ _ further => inStep.trans further
  rintro _ after afterToo ⟨further, more, cameToo⟩
  refine ⟨inStep.trans further, text ++ more, ?_⟩
  rw [String.append_assoc]
  exact came.trans cameToo

theorem get_bind {next : Writer → Action Unit}
    (same : ∀ (writer : Writer) output formatting,
      next { writer with output, settings := { writer.settings with formatting } } = next writer)
    (later : ∀ writer, SteadyTo tail (next writer)) : SteadyTo tail (get >>= next) := by
  intro first second abreast
  change Both _ _ (next first first) (next second second)
  have there : next second = next first := by
    rw [abreast.same]
    exact same first second.output .indented
  rw [there]
  exact later first abreast

theorem steady {action : Action Unit} (steadyTo : SteadyTo tail action) : Steady action := by
  intro start startToo first second inStep
  rcases inStep.came with ⟨_, came⟩
  have both := steadyTo came.abreast
  generalize action first = result at both ⊢
  generalize action second = result at both ⊢
  cases both with
  | ok value done => exact .ok value (inStep.trans done.1)
  | error error further => exact .error error (inStep.trans further)

end SteadyTo

end XmlStream.Writer
