import XmlStream.Proofs.Indentation.Steps

namespace XmlStream

/-! What a writer that indents writes in a whole run: the lines that a margin has before the
strokes of the run, and what is written without indentation. -/

namespace Stroke

/-- Strokes that write nothing, and that no line is begun for. -/
structure Quiet (stroke : Stroke) : Prop where
  text : stroke.text = ""
  unled : ∀ margin : Margin, margin.level? stroke = none

theorem quiet_torn : Quiet (.torn "") := ⟨rfl, fun _ => rfl⟩

theorem quiet_width (width : Width) : Quiet (.width width) := ⟨rfl, fun _ => rfl⟩

theorem quiet_indentChar (character : Char) : Quiet (.indentChar character) :=
  ⟨rfl, fun _ => rfl⟩

/-- What a start tag is lost for ends the text: after that only quiet strokes come. -/
def EndsLost (strokes : List Stroke) : Prop :=
  strokes.Pairwise fun stroke later => stroke = .lostTag → later.Quiet

theorem endsLost_of_notMem {strokes : List Stroke} (whole : .lostTag ∉ strokes) :
    EndsLost strokes := by
  induction strokes with
  | nil => exact .nil
  | cons stroke rest induction =>
      rw [List.mem_cons, not_or] at whole
      exact .cons (fun _ _ lost => absurd lost.symm whole.1) (induction whole.2)

theorem EndsLost.append {strokes more : List Stroke} (endsLost : EndsLost strokes)
    (further : EndsLost more)
    (quiet : .lostTag ∈ strokes → ∀ stroke ∈ more, stroke.Quiet) : EndsLost (strokes ++ more) :=
  List.pairwise_append.mpr ⟨endsLost, further, fun _ member later memberToo lost =>
    quiet (lost ▸ member) later memberToo⟩

end Stroke

theorem Margin.indented_of_unled {strokes : List Stroke} (margin : Margin)
    (unled : ∀ stroke ∈ strokes, ∀ margin : Margin, margin.level? stroke = none) :
    margin.indented strokes = Stroke.texts strokes := by
  induction strokes generalizing margin with
  | nil => rfl
  | cons stroke rest induction =>
      have first := unled stroke List.mem_cons_self margin
      have others := induction (margin.after stroke) fun later member =>
        unled later (List.mem_cons_of_mem _ member)
      simp [Margin.lead, first, others]

/-! ## Strokes of runs -/

def Call.isAboutFormatting : Call → Bool
  | .setFormatting _ | .query .settings => true
  | _ => false

theorem Call.notMem_of_draws {call : Call} {before after : Phase} {strokes : List Stroke}
    (draws : call.Draws before after strokes) : .lostTag ∉ strokes := by
  cases draws with
  | endDocument completes => simp [Writer.notMem_of_completes completes]
  | endElement ends => exact Writer.notMem_of_endsElement ends
  | fullEndElement ends => exact Writer.notMem_of_endsElement ends
  | close completes => exact Writer.notMem_of_completes completes
  | closeTorn text completes => simp [Writer.notMem_of_completes completes]
  | elementString request value nsPrefix ends closes holds completes =>
      rcases holds with ⟨_, _, rfl⟩ | ⟨_, _, rfl⟩ <;>
        simp [Writer.notMem_of_endsElement completes]
  | _ => simp

theorem Call.endsLost_of_breaks {call : Call} {before : Phase} {strokes : List Stroke}
    (breaks : call.Breaks before strokes) : Stroke.EndsLost strokes := by
  cases breaks with
  | torn _ text => exact Stroke.endsLost_of_notMem (by simp)
  | lost request ends closes => simp [Stroke.EndsLost]
  | lostString request value ends closes => simp [Stroke.EndsLost]
  | elementString request value nsPrefix ends text closes holds =>
      rcases holds with rfl | ⟨_, rfl⟩ <;> exact Stroke.endsLost_of_notMem (by simp)
  | endDocument text completes =>
      exact Stroke.endsLost_of_notMem (by simp [Writer.notMem_of_completes completes])

namespace Writer

/-- The strokes of a call on a writer, whether the call succeeds or is refused. -/
inductive Sketches (writer : Writer) (call : Call) (strokes : List Stroke) : Prop
  | ok (does : (writer.step call).1.isOk = true)
      (draws : call.Draws writer.phase (writer.step call).2.phase strokes)
  | error (fails : (writer.step call).1.isOk = false) (breaks : call.Breaks writer.phase strokes)

/-- The strokes of a run of a writer that does not indent: for each call those of the call, which
make up the text that the call writes. -/
inductive SketchesAll : Writer → List Call → List Stroke → Prop
  | nil (writer : Writer) : SketchesAll writer [] []
  | cons {writer : Writer} {call : Call} {calls : List Call} {strokes rest : List Stroke}
      (sketches : writer.Sketches call strokes)
      (writes : writer.output.Extends (Stroke.texts strokes) (writer.step call).2.output)
      (others : SketchesAll (writer.step call).2 calls rest) :
      SketchesAll writer (call :: calls) (strokes ++ rest)

theorem Sketches.endsLost {writer : Writer} {call : Call} {strokes : List Stroke}
    (sketches : writer.Sketches call strokes) : Stroke.EndsLost strokes := by
  cases sketches with
  | ok does draws => exact Stroke.endsLost_of_notMem (Call.notMem_of_draws draws)
  | error fails breaks => exact Call.endsLost_of_breaks breaks

/-- Nothing comes any more on a spent writer that has no payload to complete. -/
structure Still (writer : Writer) : Prop where
  spent : writer.Spent
  paid : writer.phase = .failed → writer.payload = none

variable {before after first second : Writer}

theorem Still.step (still : before.Still) (call : Call) : (before.step call).2.Still := by
  refine ⟨still.spent.step call, fun failedToo => ?_⟩
  rcases still.spent with failed | closed
  · by_cases closes : call = .close
    · subst closes
      rw [(accrues_step_close failed).1] at failedToo
      cases failedToo
    · exact (Fails.step failed closes).payload.trans (still.paid failed)
  · rw [(step_of_closed call closed).1] at failedToo
    cases failedToo

def reply (writer : Writer) : Call → Answer
  | .query question => writer.answer question
  | _ => .done

theorem step_of_perform {call : Call} {nothing : Unit} (ok : perform call before = .ok nothing after) :
    before.step call = (.ok (before.reply call), after) := by
  by_cases question : ∃ question, call = .query question
  · rcases question with ⟨question, rfl⟩
    rw [perform, pure_eq_ok] at ok
    rw [← ok.2]
    rfl
  · have answers : Writer.call call before = .ok .done after := by
      cases call
      case query question => exact absurd ⟨_, rfl⟩ question
      all_goals exact bind_eq_ok.mpr ⟨_, _, ok, rfl⟩
    rw [step, answers]
    cases call
    case query question => exact absurd ⟨_, rfl⟩ question
    all_goals rfl

theorem Abreast.reply (abreast : first.Abreast second) {call : Call}
    (other : call.isAboutFormatting = false) : second.reply call = first.reply call := by
  cases call with
  | query question =>
      cases question with
      | settings => cases other
      | _ => rw [abreast.same]; rfl
  | _ => rfl

/-! ## Calls on writers that are neither failed nor closed -/

structure Stepped (first second : Writer) (call : Call) (margin : Margin) (strokes : List Stroke) :
    Prop where
  sketches : first.Sketches call strokes
  answers : (second.step call).1 = (first.step call).1
  came : Came first second (Stroke.texts strokes) (margin.indented strokes)
    (first.step call).2 (second.step call).2

theorem Abreast.stepped_ok {call : Call} {nothing : Unit} {afterToo : Writer} {margin : Margin}
    {strokes : List Stroke} (abreast : first.Abreast second)
    (other : call.isAboutFormatting = false) (ok : perform call first = .ok nothing after)
    (okToo : perform call second = .ok nothing afterToo)
    (draws : call.Draws first.phase after.phase strokes)
    (came : Came first second (Stroke.texts strokes) (margin.indented strokes) after afterToo) :
    Stepped first second call margin strokes := by
  have steps := step_of_perform ok
  have stepsToo := step_of_perform okToo
  refine ⟨.ok ?_ ?_, ?_, ?_⟩
  · rw [steps]
    rfl
  · rwa [steps]
  · rw [steps, stepsToo, abreast.reply other]
  · rwa [steps, stepsToo]

theorem stepped_error {call : Call} {error : WriterError} {afterToo : Writer} {margin : Margin}
    {strokes : List Stroke} (fails : perform call first = .error error after)
    (failsToo : perform call second = .error error afterToo)
    (breaks : call.Breaks first.phase strokes)
    (came : Came first second (Stroke.texts strokes) (margin.indented strokes) after afterToo) :
    Stepped first second call margin strokes := by
  have steps := step_of_error fails
  have stepsToo := step_of_error failsToo
  refine ⟨.error ?_ breaks, ?_, ?_⟩
  · rw [steps]
    rfl
  · rw [steps, stepsToo]
  · rwa [steps, stepsToo]

theorem notFormatting_of_other {call : Call} (other : call.isAboutFormatting = false)
    (formatting : Formatting) : call ≠ .setFormatting formatting := by
  rintro rfl
  cases other

/-- A call on two writers draws for their margin. As long as they do not fail, it leads to the
margin behind the strokes. -/
theorem Abreast.step_live (abreast : first.Abreast second) (live : ¬first.Spent) {call : Call}
    (other : call.isAboutFormatting = false) :
    ∃ strokes, Stepped first second call first.margin strokes ∧
      (¬(first.step call).2.Spent → (first.step call).2.margin = first.margin.afterAll strokes) ∧
      (.lostTag ∈ strokes → (first.step call).2.Still) := by
  have phase : second.phase = first.phase := by rw [abreast.same]
  by_cases closes : call = .close
  · subst closes
    rcases shut_of_abreast abreast with ⟨after, afterToo, strokes, ok, okToo, draws, came, closed⟩
    have steps : first.step .close = _ := step_of_perform ok
    refine ⟨strokes, abreast.stepped_ok other ok okToo draws came, ?_, ?_⟩
    · rw [steps]
      exact fun liveToo => absurd (.inr closed) liveToo
    · exact fun lost => absurd lost (Call.notMem_of_draws draws)
  · have both := outlines_perform closes (fun formatting sets => by simp [sets, Call.isAboutFormatting] at other)
      abreast
    generalize ok : perform call first = result at both
    generalize okToo : perform call second = resultToo at both
    cases both with
    | ok nothing drawn =>
        rcases drawn with ⟨strokes, draws, drawn⟩
        refine ⟨strokes, abreast.stepped_ok other ok okToo draws drawn.came, ?_, ?_⟩
        · rw [step_of_perform ok]
          exact fun _ => drawn.margin
        · exact fun lost => absurd lost (Call.notMem_of_draws draws)
    | @error after afterToo error torn =>
        rcases torn with ⟨strokes, breaks, torn⟩
        have steps := step_of_error ok
        have phases : afterToo.phase = after.phase := by rw [torn.came.abreast.same]
        by_cases spent : after.Spent
        · refine ⟨strokes, stepped_error ok okToo breaks torn.came, ?_, ?_⟩
          · rw [steps]
            exact fun liveToo => absurd spent liveToo
          · rw [steps]
            exact fun lost => ⟨spent, fun _ => torn.paid lost⟩
        · have same : after = first := by
            rcases perform_error ok with ⟨same, _⟩ | failed | ⟨closed, _⟩
            · exact same
            · exact absurd (.inl failed) spent
            · exact absurd (.inr closed) spent
          have sameToo : afterToo = second := by
            rcases perform_error okToo with ⟨same, _⟩ | failed | ⟨closed, _⟩
            · exact same
            · exact absurd (.inl (phases.symm.trans failed)) spent
            · exact absurd (.inr (phases.symm.trans closed)) spent
          subst same sameToo
          refine ⟨[.torn ""], stepped_error ok okToo (.torn call "") ?_, ?_, by simp⟩
          · simpa [Stroke.text] using abreast.came
          · rw [steps]
            exact fun _ => rfl

/-! ## Calls on failed and closed writers -/

theorem extends_of_accrues {output grown : OutputBuffer} {text told : String}
    (extended : output.Extends text grown) (bare : output.encoder = none)
    (endless : output.sink.limit = none) (accrues : output.Accrues told.toUTF8 grown) :
    output.Extends told grown where
  delivered := by
    rw [accrues.delivered endless, bare]
    rfl
  encoder := by
    rw [extended.encoder, bare]
    rfl
  limit := extended.limit
  canFlush := extended.canFlush

theorem Came.told {start startToo : Writer} {text more : String} (told : String)
    (came : Came start startToo text more first second) (abreast : start.Abreast startToo)
    (accrues : start.output.Accrues told.toUTF8 first.output)
    (accruesToo : startToo.output.Accrues told.toUTF8 second.output) :
    Came start startToo told told first second :=
  ⟨came.abreast, extends_of_accrues came.output abreast.bare abreast.unfailing.limit accrues,
    extends_of_accrues came.outputToo abreast.bareToo abreast.unfailingToo.limit accruesToo⟩

theorem Abreast.spent (abreast : first.Abreast second) (spent : first.Spent) : second.Spent := by
  rw [abreast.same]
  exact spent

theorem accrues_step_spent (spent : before.Spent) {call : Call} (stays : call ≠ .close) :
    before.output.Accrues .empty (before.step call).2.output := by
  rcases spent with failed | closed
  · exact (Fails.step failed stays).output
  · rw [(step_of_closed call closed).2]
    exact .refl _

theorem remainder_of_bare (bare : before.output.encoder = none) :
    before.remainder = before.lastGroup.toUTF8 := by
  simp [remainder, bare, OutputBuffer.encoded, OutputBuffer.switchBack]

theorem eq_of_emptyText {nothing : Unit} (ok : perform (.text "") before = .ok nothing after) :
    after = before := by
  have fills : guarded (putText "") before = .ok nothing after := ok
  have fills := (guarded_ok fills).2
  simp only [putText, ne_eq, not_true_eq_false, if_false, pure_eq_ok, true_and] at fills
  exact fills.symm

theorem draws_of_idle {call : Call} (idle : call.Idle ∨ call = .flush)
    (other : call.isAboutFormatting = false) (phase phaseToo : Phase)
    (stays : call = .text "" → phaseToo = phase) :
    ∃ strokes, call.Draws phase phaseToo strokes ∧ ∀ stroke ∈ strokes, stroke.Quiet := by
  rcases idle with idle | rfl
  · cases idle with
    | query question => exact ⟨[], .query question, by simp⟩
    | setFormatting formatting => cases other
    | setIndentation width =>
        exact ⟨_, .setIndentation width, by simp [Stroke.quiet_width]⟩
    | setIndentChar character =>
        exact ⟨_, .setIndentChar character, by simp [Stroke.quiet_indentChar]⟩
    | setQuoteChar character => exact ⟨[], .setQuoteChar character, by simp⟩
    | emptyText => exact ⟨[], .noText (stays rfl), by simp⟩
  · exact ⟨[], .flush, by simp⟩

theorem texts_of_quiet {strokes : List Stroke} (quiet : ∀ stroke ∈ strokes, stroke.Quiet) :
    Stroke.texts strokes = "" := by
  induction strokes with
  | nil => rfl
  | cons stroke rest induction =>
      rw [Stroke.texts_cons, (quiet stroke List.mem_cons_self).text,
        induction fun later member => quiet later (List.mem_cons_of_mem _ member)]
      rfl

theorem Abreast.step_spent (abreast : first.Abreast second) (spent : first.Spent) (margin : Margin)
    {call : Call} (other : call.isAboutFormatting = false) :
    ∃ strokes, Stepped first second call margin strokes ∧ .lostTag ∉ strokes ∧
      (first.Still → ∀ stroke ∈ strokes, stroke.Quiet) := by
  by_cases closes : call = .close
  · subst closes
    rcases shut_of_abreast abreast with ⟨after, afterToo, strokes, ok, okToo, _, came, closed⟩
    have steps : first.step .close = _ := step_of_perform ok
    have stepsToo : second.step .close = _ := step_of_perform okToo
    -- What a failed writer adds when it is closed is known, and it is the same for both.
    rcases spent with failed | closed
    · have failedToo : second.phase = .failed := by rw [abreast.same]; exact failed
      have accrues := (accrues_step_close failed).2
      have accruesToo := (accrues_step_close failedToo).2
      have rest : second.lastGroup = first.lastGroup := by rw [abreast.same]; rfl
      rw [remainder_of_bare abreast.bare, steps] at accrues
      rw [remainder_of_bare abreast.bareToo, stepsToo, rest] at accruesToo
      have told := came.told first.lastGroup abreast accrues accruesToo
      refine ⟨[.closing first.lastGroup], abreast.stepped_ok other ok okToo
        (.close (.mk first.lastGroup (.inl rfl) (.none _))) ?_, by simp, ?_⟩
      · simpa [Stroke.text] using told
      · intro still stroke member
        have paid : first.unflushed = false := Draft.payload_eq_none.mp (still.paid failed)
        have nothing : first.lastGroup = "" := by simp [lastGroup, paid]
        rw [List.mem_singleton.mp member, nothing]
        exact ⟨rfl, fun _ => rfl⟩
    · have same := (step_of_closed .close closed).2
      have closedToo : second.phase = .closed := by rw [abreast.same]; exact closed
      have sameToo := (step_of_closed .close closedToo).2
      rw [steps] at same
      rw [stepsToo] at sameToo
      have told : Came first second "" "" after afterToo :=
        ⟨came.abreast, same ▸ .refl _, sameToo ▸ .refl _⟩
      refine ⟨[.closing ""], abreast.stepped_ok other ok okToo
        (.close (.mk "" (.inl rfl) (.none _))) ?_, by simp, ?_⟩
      · simpa [Stroke.text] using told
      · intro _ stroke member
        rw [List.mem_singleton.mp member]
        exact ⟨rfl, fun _ => rfl⟩
  · have accrues := accrues_step_spent spent closes
    have accruesToo := accrues_step_spent (abreast.spent spent) closes
    have both := outlines_perform closes (notFormatting_of_other other) abreast
    generalize ok : perform call first = result at both
    generalize okToo : perform call second = resultToo at both
    cases both with
    | @ok after afterToo nothing drawn =>
        rcases drawn with ⟨_, _, drawn⟩
        rw [step_of_perform ok] at accrues
        rw [step_of_perform okToo] at accruesToo
        have nothing := drawn.came.told "" abreast accrues accruesToo
        have idle : call.Idle ∨ call = .flush := by
          rcases idle_of_perform spent ok with idle | flush | close
          · exact .inl idle
          · exact .inr flush
          · exact absurd close closes
        have stays : call = .text "" → after.phase = first.phase := fun text =>
          congrArg Writer.phase (eq_of_emptyText (text ▸ ok))
        rcases draws_of_idle idle other first.phase after.phase stays with ⟨strokes, draws, quiet⟩
        refine ⟨strokes, abreast.stepped_ok other ok okToo draws ?_,
          Call.notMem_of_draws draws, fun _ => quiet⟩
        rw [margin.indented_of_unled fun stroke member => (quiet stroke member).unled,
          texts_of_quiet quiet]
        exact nothing
    | @error after afterToo error torn =>
        rcases torn with ⟨_, _, torn⟩
        rw [step_of_error ok] at accrues
        rw [step_of_error okToo] at accruesToo
        have nothing := torn.came.told "" abreast accrues accruesToo
        refine ⟨[.torn ""], stepped_error ok okToo (.torn call "") ?_, by simp, ?_⟩
        · simpa [Stroke.text] using nothing
        · intro _ stroke member
          rw [List.mem_singleton.mp member]
          exact Stroke.quiet_torn

/-! ## Runs -/

structure Ran (first second : Writer) (calls : List Call) (margin : Margin)
    (strokes : List Stroke) : Prop where
  sketches : first.SketchesAll calls strokes
  answers : (second.run calls).1 = (first.run calls).1
  came : Came first second (Stroke.texts strokes) (margin.indented strokes)
    (first.run calls).2 (second.run calls).2
  endsLost : Stroke.EndsLost strokes
  quiet : first.Still → ∀ stroke ∈ strokes, stroke.Quiet

theorem Abreast.run (abreast : first.Abreast second) (margin : Margin)
    (stands : ¬first.Spent → margin = first.margin) (calls : List Call)
    (others : ∀ call ∈ calls, call.isAboutFormatting = false) :
    ∃ strokes, Ran first second calls margin strokes := by
  -- The margin is that of the writers until they fail. After that no line is begun any more.
  induction calls generalizing first second margin with
  | nil => exact ⟨[], .nil first, rfl, abreast.came, .nil, by simp⟩
  | cons call rest induction =>
      have other := others call List.mem_cons_self
      have step : ∃ strokes, Stepped first second call margin strokes ∧
          (¬(first.step call).2.Spent →
            margin.afterAll strokes = (first.step call).2.margin) ∧
          (.lostTag ∈ strokes → (first.step call).2.Still) ∧
          (first.Still → ∀ stroke ∈ strokes, stroke.Quiet) := by
        by_cases spent : first.Spent
        · rcases abreast.step_spent spent margin other with ⟨strokes, stepped, whole, quiet⟩
          exact ⟨strokes, stepped, fun live => absurd (spent.step call) live,
            fun lost => absurd lost whole, quiet⟩
        · rcases abreast.step_live spent other with ⟨strokes, stepped, leads, still⟩
          rw [stands spent]
          exact ⟨strokes, stepped, fun live => (leads live).symm, still,
            fun still => absurd still.spent spent⟩
      rcases step with ⟨strokes, stepped, leads, still, quiet⟩
      rcases induction stepped.came.abreast (margin.afterAll strokes) leads
        fun call member => others call (List.mem_cons_of_mem _ member) with ⟨more, ran⟩
      refine ⟨strokes ++ more, .cons stepped.sketches stepped.came.output ran.sketches, ?_, ?_,
        stepped.sketches.endsLost.append ran.endsLost fun lost => ran.quiet (still lost), ?_⟩
      · simp only [Writer.run, stepped.answers, ran.answers]
      · rw [Stroke.texts_append, Margin.indented_append]
        exact stepped.came.trans ran.came
      · intro stillToo stroke member
        rcases List.mem_append.mp member with member | member
        · exact quiet stillToo stroke member
        · exact ran.quiet (stillToo.step call) stroke member

end Writer

end XmlStream
