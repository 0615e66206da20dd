import XmlStream.Proofs.Indentation.Steady

namespace XmlStream.Writer

/-! What two writers do before a construct. This is where lines are begun: behind what has to be
completed, and in front of the markup that comes next. -/

variable {first second : Writer}

/-- Two writers that have come abreast, with what they have written, and with the margin that they
have reached. -/
structure Stands (start startToo : Writer) (text more : String) (margin : Margin)
    (first second : Writer) : Prop where
  came : Came start startToo text more first second
  margin : first.margin = margin
  paid : start.payload = none → first.payload = none

theorem InStep.stands {start startToo : Writer} (inStep : InStep start startToo first second) :
    ∃ text, Stands start startToo text text start.margin first second := by
  rcases inStep.came with ⟨text, came⟩
  exact ⟨text, came, inStep.margin, inStep.paid⟩

theorem Stands.trans {start startToo middle middleToo : Writer} {text more later laterToo : String}
    {margin next : Margin} (stands : Stands start startToo text more margin middle middleToo)
    (further : Stands middle middleToo later laterToo next first second) :
    Stands start startToo (text ++ later) (more ++ laterToo) next first second :=
  ⟨stands.came.trans further.came, further.margin, fun free => further.paid (stands.paid free)⟩

/-! ## Lines -/

theorem Abreast.line (abreast : first.Abreast second) (line : String) :
    ∃ afterToo, emit line second = .ok () afterToo ∧ Came first second "" line first afterToo := by
  rcases OutputBuffer.write_of_unfailing abreast.unfailingToo line with ⟨output, writes, still⟩
  have grown := OutputBuffer.extends_of_write writes
  refine ⟨{ second with output }, by simp only [emit, onOutput, writes], ?_, .refl _, grown⟩
  refine ⟨?_, abreast.plain, abreast.bare, encoder_of_extends grown abreast.bareToo,
    abreast.unfailing, still⟩
  rw [abreast.same]

theorem Abreast.margin (abreast : first.Abreast second) : second.margin = first.margin := by
  rw [abreast.same]
  rfl

theorem depth_eq (writer : Writer) : writer.depth = writer.margin.mixed.length := by
  simp [depth, ElementStack.depth, Writer.margin]

theorem mixed_top {writer : Writer} (inside : writer.depth ≠ 0) :
    writer.top.mixed = writer.margin.mixed.headD false := by
  cases opened : writer.elements.opened with
  | nil => simp [depth, ElementStack.depth, opened] at inside
  | cons innermost rest => simp [top, ElementStack.top, Writer.margin, opened]

theorem indent_eq (beforeEnd : Bool) {writer : Writer} (begun : writer.phase ≠ .start) :
    indent beforeEnd writer = emit (writer.margin.gap
      (if beforeEnd then writer.depth - 1 else writer.depth)) writer ∨
    indent beforeEnd writer = .ok () writer ∧ writer.margin.gap
      (if beforeEnd then writer.depth - 1 else writer.depth) = "" := by
  have begins : writer.margin.begun = true := by simp [Writer.margin, begun]
  by_cases outside : writer.depth = 0
  · have none : writer.margin.mixed = [] := by
      rw [depth_eq] at outside
      exact List.length_eq_zero_iff.mp outside
    refine .inl ?_
    simp only [indent, Bind.bind, EStateM.bind, get_run, outside, if_true, Margin.gap,
      Margin.isFree, begins, none, List.headD_nil, Bool.not_false, Bool.and_self, Margin.line]
    cases beforeEnd <;> simp
  · cases mixed : writer.top.mixed with
    | true =>
        refine .inr ⟨?_, ?_⟩
        · simp only [indent, Bind.bind, EStateM.bind, get_run, outside, if_false, mixed]
          rfl
        · have inMixed := (mixed_top outside).symm.trans mixed
          simp only [Margin.gap, Margin.isFree, inMixed, Bool.not_true, Bool.and_false]
          rfl
    | false =>
        refine .inl ?_
        simp only [indent, Bind.bind, EStateM.bind, get_run, outside, if_false, mixed,
          Bool.not_false, if_true, Margin.gap, Margin.isFree, begins, ← mixed_top outside,
          Bool.and_self, Margin.line]
        rfl

theorem Abreast.indent (abreast : first.Abreast second) (beforeEnd : Bool)
    (begun : first.phase ≠ .start) :
    ∃ afterToo, Writer.indent beforeEnd second = .ok () afterToo ∧
      Came first second "" (first.margin.gap
        (if beforeEnd then first.depth - 1 else first.depth)) first afterToo := by
  have phase : second.phase = first.phase := by rw [abreast.same]
  have depth : second.depth = first.depth := by rw [abreast.same]; rfl
  rcases indent_eq beforeEnd (phase ▸ begun) with writes | ⟨nothing, none⟩
  · rw [abreast.margin, depth] at writes
    rcases abreast.line _ with ⟨afterToo, does, came⟩
    exact ⟨afterToo, writes.trans does, came⟩
  · rw [abreast.margin, depth] at none
    rw [none]
    exact ⟨second, nothing, abreast.came⟩

theorem Abreast.indentNext (abreast : first.Abreast second) :
    Writer.indentNext first = .ok () first ∧
    ∃ afterToo, Writer.indentNext second = .ok () afterToo ∧
      Came first second "" (first.margin.gap first.margin.mixed.length) first afterToo := by
  have plain : first.indents = false := by simp [Writer.indents, Settings.indents, abreast.plain]
  have indents : second.indents = true := by
    rw [abreast.same]
    rfl
  have phase : second.phase = first.phase := by rw [abreast.same]
  refine ⟨?_, ?_⟩
  · simp only [Writer.indentNext, Bind.bind, EStateM.bind, get_run, plain, Bool.false_and,
      Bool.false_eq_true, if_false]
    rfl
  · by_cases start : first.phase = .start
    · have none : first.margin.gap first.margin.mixed.length = "" := by
        simp [Margin.gap, Margin.isFree, Writer.margin, start]
      refine ⟨second, ?_, by rw [none]; exact abreast.came⟩
      simp only [Writer.indentNext, Bind.bind, EStateM.bind, get_run, phase, start, ne_eq,
        not_true_eq_false, decide_false, Bool.and_false, Bool.false_eq_true, if_false]
      rfl
    · rcases abreast.indent false start with ⟨afterToo, does, came⟩
      refine ⟨afterToo, ?_, ?_⟩
      · simp only [Writer.indentNext, Bind.bind, EStateM.bind, get_run, phase, start, indents, ne_eq,
          not_false_eq_true, decide_true, Bool.and_self, if_true]
        exact does
      · rw [← depth_eq]
        exact came

/-! ## Room for constructs -/

theorem token_next?_of_next? {mode : Mode} {token : Token} {phase next : Phase}
    (leads : mode.next? token phase = some next) : token.next? phase = some next := by
  unfold Mode.next? at leads
  split at leads
  · exact leads
  · cases leads

theorem next?_ne_start {mode : Mode} {token : Token} {phase next : Phase}
    (leads : mode.next? token phase = some next) : next ≠ .start := by
  rintro rfl
  have leads := token_next?_of_next? leads
  cases token <;> cases phase <;> cases leads

theorem nextPhase?_ne_start {writer : Writer} {token : Token} {next : Phase}
    (leads : writer.nextPhase? token = some next) : next ≠ .start := by
  simp only [nextPhase?, Option.bind_eq_bind, Option.bind_eq_some_iff] at leads
  rcases leads with ⟨found, leads, same⟩
  split at same
  · cases same
    simp
  · cases same
    exact next?_ne_start leads

theorem margin_enter (writer : Writer) {next : Phase} (begun : next ≠ .start)
    (lastToken : Option Token) :
    { writer with phase := next, lastToken : Writer }.margin = writer.margin.begin := by
  simp [Writer.margin, Margin.begin, begun]

theorem margin_markMixed (writer : Writer) :
    { writer with
      elements := writer.elements.modifyTop fun element => { element with mixed := true }
      : Writer }.margin = writer.margin.mix := by
  cases opened : writer.elements.opened <;>
    simp [Writer.margin, Margin.mix, ElementStack.modifyTop, opened]

theorem both_finishPayload (abreast : first.Abreast second) :
    Both (fun _ after afterToo => InStep first second after afterToo ∧ after.payload = none)
      (InStep first second) (finishPayload first) (finishPayload second) := by
  have both := steady_finishPayload.both abreast
  cases made : finishPayload first with
  | ok value after =>
      rw [made] at both
      generalize finishPayload second = result at both ⊢
      cases both with
      | ok _ inStep =>
          rcases finishPayload_ok made with ⟨_, _, _, paid, _⟩
          exact .ok _ ⟨inStep, paid⟩
  | error error after =>
      rw [made] at both
      generalize finishPayload second = result at both ⊢
      cases both with
      | error _ inStep => exact .error _ inStep

structure Reaches (token : Token) (start startToo : Writer) (text more : String) (margin : Margin)
    (first second : Writer) : Prop where
  came : Came start startToo text more first second
  leads : start.nextPhase? token = some first.phase
  margin : first.margin = margin.begin
  paid : token ≠ .base64 → first.payload = none

theorem both_advance (Shape : Token → Phase → String → String → Margin → Prop) {token : Token}
    (abreast : first.Abreast second)
    (room : ∀ next middle middleToo, first.nextPhase? token = some next →
      InStep first second middle middleToo → middle.Abreast middleToo →
      Both (fun written made madeToo => ∃ text more margin, Shape written next text more margin ∧
          Stands middle middleToo text more margin made madeToo)
        (InStep middle middleToo) (makeRoom token next middle) (makeRoom token next middleToo)) :
    Both (fun _ after afterToo => ∃ written rest text more margin,
        Shape written after.phase text more margin ∧ after.lastToken = some written ∧
        Reaches token first second (rest ++ text) (rest ++ more) margin after afterToo)
      (InStep first second) (advance token first) (advance token second) := by
  have same : second.nextPhase? token = first.nextPhase? token := by
    rw [abreast.same]
    rfl
  have phase : second.phase = first.phase := by rw [abreast.same]
  cases leads : first.nextPhase? token with
  | none =>
      simp only [advance, Bind.bind, EStateM.bind, get_run, same, leads, phase, throw_run]
      exact .error _ abreast.inStep
  | some next =>
      have entered {middle middleToo : Writer} (inStep : InStep first second middle middleToo)
          (paid : token ≠ .base64 → middle.payload = none) :
          Both (fun _ after afterToo => ∃ written rest text more margin,
              Shape written after.phase text more margin ∧ after.lastToken = some written ∧
              Reaches token first second (rest ++ text) (rest ++ more) margin after afterToo)
            (InStep first second)
            ((do
              let written ← makeRoom token next
              modify fun writer => { writer with phase := next, lastToken := some written }
              : Action Unit) middle)
            ((do
              let written ← makeRoom token next
              modify fun writer => { writer with phase := next, lastToken := some written }
              : Action Unit) middleToo) := by
        rcases inStep.came with ⟨rest, came⟩
        have made := (room next middle middleToo leads inStep came.abreast).mono
          (fun _ _ _ holds => holds) fun _ _ further => inStep.trans further
        refine made.bind fun written made madeToo holds => ?_
        rcases holds with ⟨text, more, margin, shape, stands⟩
        refine .ok _ ⟨written, rest, text, more, margin, shape, rfl, ?_, leads, ?_, ?_⟩
        · exact (came.trans stands.came).update (fun writer =>
            { writer with phase := next, lastToken := some written }) (fun _ _ _ => rfl)
            (fun _ => rfl) rfl
        · rw [margin_enter made (nextPhase?_ne_start leads), stands.margin]
        · exact fun notBase64 => stands.paid (paid notBase64)
      simp only [advance, Bind.bind, EStateM.bind, get_run, same, leads]
      -- More of a payload does not end it.
      by_cases base64 : token = .base64
      · simp only [base64, ne_eq, not_true_eq_false, if_false]
        subst base64
        exact entered abreast.inStep fun absurdly => absurd rfl absurdly
      · simp only [base64, ne_eq, not_false_eq_true, if_true]
        exact (both_finishPayload abreast).bind fun _ middle middleToo holds =>
          entered holds.1 fun _ => holds.2

/-! ## Attributes and content -/

theorem both_advance_attribute {token : Token} (abreast : first.Abreast second)
    (attributed : token = .startAttribute ∨ token = .endAttribute) :
    Both (fun _ after afterToo => ∃ text,
        Reaches token first second text text first.margin after afterToo)
      (InStep first second) (advance token first) (advance token second) := by
  have steady (next : Phase) : Steady (makeRoom token next) := by
    refine .get_bind (fun _ _ _ => rfl) fun _ => ?_
    rcases attributed with rfl | rfl
    · exact .when steady_closeValue (.when (steady_emit _) (.pure _))
    · exact .bind steady_closeValue fun _ => .pure _
  refine (both_advance (fun _ _ text more margin => more = text ∧ margin = first.margin)
    abreast fun next middle middleToo _ inStep beside => ?_).mono ?_ fun _ _ inStep => inStep
  · refine ((steady next).both beside).mono ?_ fun _ _ inStep => inStep
    intro _ made madeToo further
    rcases further.stands with ⟨text, stands⟩
    exact ⟨text, text, _, ⟨rfl, inStep.margin⟩, stands⟩
  · rintro _ after afterToo ⟨_, rest, text, _, _, ⟨rfl, rfl⟩, _, reaches⟩
    exact ⟨_, reaches⟩

theorem Stands.markMixed {start startToo : Writer} {text more : String} {margin : Margin}
    (stands : Stands start startToo text more margin first second) :
    ∃ after afterToo, Writer.markMixed first = .ok ⟨⟩ after ∧
      Writer.markMixed second = .ok ⟨⟩ afterToo ∧
      Stands start startToo text more margin.mix after afterToo := by
  refine ⟨_, _, rfl, rfl, ?_, ?_, stands.paid⟩
  · exact stands.came.update (fun writer => { writer with
      elements := writer.elements.modifyTop fun element => { element with mixed := true } })
      (fun _ _ _ => rfl) (fun _ => rfl) rfl
  · rw [← stands.margin]
    exact margin_markMixed first

def fill (token : Token) (next : Phase) : Action Token := do
  if next = .content then markMixed
  return token

theorem makeRoom_eq_fill {token : Token} (next : Phase)
    (fills : token = .text ∨ token = .base64 ∨ token = .raw ∨ token = .whitespace) :
    makeRoom token next = (do
      let writer ← get
      if writer.phase = .element && writer.lastToken ≠ some .text then closeStartTag false
      fill token next) := by
  rcases fills with rfl | rfl | rfl | rfl <;> rfl

theorem both_advance_text {token : Token} (abreast : first.Abreast second)
    (fills : token = .text ∨ token = .base64 ∨ token = .raw ∨ token = .whitespace) :
    Both (fun _ after afterToo => ∃ text, Reaches token first second text text
        (if after.phase = .content then first.margin.mix else first.margin) after afterToo)
      (InStep first second) (advance token first) (advance token second) := by
  refine (both_advance (fun _ next text more margin => more = text ∧
    margin = if next = .content then first.margin.mix else first.margin)
    abreast fun next middle middleToo _ inStep beside => ?_).mono ?_ fun _ _ inStep => inStep
  · have fill {room roomToo : Writer} (further : InStep middle middleToo room roomToo) :
        Both (fun _ made madeToo => ∃ text more margin, (more = text ∧
            margin = if next = .content then first.margin.mix else first.margin) ∧
            Stands middle middleToo text more margin made madeToo)
          (InStep middle middleToo) (fill token next room) (fill token next roomToo) := by
      rcases further.stands with ⟨text, stands⟩
      rw [inStep.margin] at stands
      by_cases content : next = .content
      · rcases stands.markMixed with ⟨made, madeToo, does, doesToo, mixed⟩
        simp only [Writer.fill, content, if_true, Bind.bind, EStateM.bind, does, doesToo]
        exact .ok _ ⟨_, _, _, ⟨rfl, rfl⟩, mixed⟩
      · simp only [Writer.fill, content, if_false]
        exact .ok _ ⟨_, _, _, ⟨rfl, rfl⟩, stands⟩
    have phase : middleToo.phase = middle.phase := by rw [beside.same]
    have lastToken : middleToo.lastToken = middle.lastToken := by rw [beside.same]
    rw [makeRoom_eq_fill next fills]
    simp only [Bind.bind, EStateM.bind, get_run, phase, lastToken]
    by_cases unclosed : (decide (middle.phase = .element) &&
      decide (middle.lastToken ≠ some .text)) = true
    · rw [if_pos unclosed]
      exact ((steadyTo_closeStartTag false).steady.both beside).bind fun _ _ _ => fill
    · rw [if_neg unclosed]
      exact fill beside.inStep
  · rintro _ after afterToo ⟨_, rest, text, _, _, ⟨rfl, rfl⟩, _, reaches⟩
    exact ⟨_, reaches⟩

/-! ## Markup -/

theorem closes_append {phase : Phase} {text : String} (closes : phase.Closes text)
    (rest : String) : phase.Closes (rest ++ text) := by
  intro inside
  rcases closes inside with ⟨front, rfl⟩
  exact ⟨rest ++ front, String.append_assoc.symm⟩

theorem both_closeOpenTag (abreast : first.Abreast second) :
    Both (fun _ after afterToo => InStep first second after afterToo ∧
        ∃ text, Came first second text text after afterToo ∧ first.phase.Closes text)
      (InStep first second) (closeOpenTag first) (closeOpenTag second) := by
  have same : second.phase = first.phase := by rw [abreast.same]
  have closes {middle middleToo : Writer} (inStep : InStep first second middle middleToo) :
      Both (fun _ after afterToo => InStep first second after afterToo ∧
          ∃ text, Came first second text text after afterToo ∧ first.phase.Closes text)
        (InStep first second) (closeStartTag false middle) (closeStartTag false middleToo) := by
    rcases inStep.came with ⟨front, came⟩
    refine (steadyTo_closeStartTag false came.abreast).mono ?_ fun _ _ further =>
      inStep.trans further
    rintro _ after afterToo ⟨further, text, cameToo⟩
    exact ⟨inStep.trans further, _, came.trans cameToo,
      fun _ => ⟨front ++ text, String.append_assoc.symm⟩⟩
  simp only [closeOpenTag, Bind.bind, EStateM.bind, get_run, same]
  cases phase : first.phase with
  | «attribute» =>
      rw [phase] at closes
      exact (steady_closeValue.both abreast).bind fun _ _ _ => closes
  | element =>
      rw [phase] at closes
      exact closes abreast.inStep
  | start | prolog | afterDoctype | content | topAttribute | epilog | failed | closed =>
      exact .ok _ ⟨abreast.inStep, "", abreast.came, by simp [Phase.Closes]⟩

theorem both_advance_markup {token : Token} (abreast : first.Abreast second)
    (markup : token = .startElement ∨ token = .comment ∨ token = .processingInstruction ∨
      token = .doctype) :
    Both (fun _ after afterToo => ∃ text, first.phase.Closes text ∧
        Reaches token first second text (text ++ first.margin.gap first.margin.mixed.length)
          first.margin after afterToo)
      (InStep first second) (advance token first) (advance token second) := by
  refine (both_advance (fun _ _ text more margin => first.phase.Closes text ∧
    more = text ++ first.margin.gap first.margin.mixed.length ∧ margin = first.margin)
    abreast fun next middle middleToo leads inStep beside => ?_).mono ?_ fun _ _ inStep => inStep
  · have begins {room roomToo : Writer} (holds : InStep middle middleToo room roomToo ∧
          ∃ text, Came middle middleToo text text room roomToo ∧ first.phase.Closes text) :
        Both (fun _ made madeToo => ∃ text more margin, (first.phase.Closes text ∧
            more = text ++ first.margin.gap first.margin.mixed.length ∧ margin = first.margin) ∧
            Stands middle middleToo text more margin made madeToo)
          (InStep middle middleToo)
          ((indentNext >>= fun _ => return token : Action Token) room)
          ((indentNext >>= fun _ => return token : Action Token) roomToo) := by
      rcases holds with ⟨further, text, came, closes⟩
      rcases came.abreast.indentNext with ⟨does, madeToo, doesToo, line⟩
      have margin : room.margin = first.margin := further.margin.trans inStep.margin
      rw [margin] at line
      simp only [Bind.bind, EStateM.bind, does, doesToo]
      refine .ok _ ⟨text, _, _, ⟨closes, rfl, rfl⟩, ?_, margin, further.paid⟩
      have whole := came.trans line
      rwa [String.append_empty] at whole
    have phase : middle.phase = first.phase := inStep.phase
    have ends := both_closeOpenTag beside
    rw [phase] at ends
    rcases markup with rfl | rfl | rfl | rfl
    · exact ends.bind fun _ _ _ => begins
    · exact ends.bind fun _ _ _ => begins
    · exact ends.bind fun _ _ _ => begins
    · refine begins ⟨beside.inStep, "", beside.came, fun inside => ?_⟩
      have leads := token_next?_of_next? (next?_of_nextPhase? (by simp) leads)
      rcases inside with inside | inside <;> rw [inside] at leads <;> cases leads
  · rintro _ after afterToo ⟨_, rest, text, _, _, ⟨closes, rfl, rfl⟩, _, reaches⟩
    rw [← String.append_assoc] at reaches
    exact ⟨_, closes_append closes rest, reaches⟩

theorem both_advance_cdata (abreast : first.Abreast second) :
    Both (fun _ after afterToo => ∃ text,
        Reaches .cdata first second text text first.margin.mix after afterToo)
      (InStep first second) (advance .cdata first) (advance .cdata second) := by
  refine (both_advance (fun _ _ text more margin => more = text ∧ margin = first.margin.mix)
    abreast fun next middle middleToo _ inStep beside => ?_).mono ?_ fun _ _ inStep => inStep
  · refine (both_closeOpenTag beside).bind fun _ room roomToo holds => ?_
    rcases holds.1.stands with ⟨text, stands⟩
    rcases stands.markMixed with ⟨made, madeToo, does, doesToo, mixed⟩
    rw [inStep.margin] at mixed
    simp only [Bind.bind, EStateM.bind, does, doesToo]
    exact .ok _ ⟨_, _, _, ⟨rfl, rfl⟩, mixed⟩
  · rintro _ after afterToo ⟨_, rest, text, _, _, ⟨rfl, rfl⟩, _, reaches⟩
    exact ⟨_, reaches⟩

/-! ## Ends of elements -/

/-- What is written before the end of an element: all of it, or what goes before a separate end
tag. -/
def EndShape (phase : Phase) (separate : Bool) (written : Token) (text : String) : Prop :=
  written = .endElement ∧ phase ≠ .content ∧ separate = false ∧ (∃ front, text = front ++ " />") ∨
    written = .separateEnd ∧ (phase = .content ∨ separate = true) ∧ phase.Closes text

theorem makeRoom_endToken (separate : Bool) (next : Phase) :
    makeRoom (endToken separate) next = (do
      let writer ← get
      if writer.phase = .attribute then closeValue
      if writer.phase = .content then return .separateEnd
      closeStartTag (endToken separate = .endElement)
      return endToken separate) := by
  cases separate <;> rfl

theorem both_advance_end (abreast : first.Abreast second) (separate : Bool) :
    Both (fun _ after afterToo => ∃ written text,
        EndShape first.phase separate written text ∧ after.lastToken = some written ∧
        Reaches (endToken separate) first second text text first.margin after afterToo)
      (InStep first second) (advance (endToken separate) first)
      (advance (endToken separate) second) := by
  refine (both_advance (fun written _ text more margin => more = text ∧ margin = first.margin ∧
    EndShape first.phase separate written text)
    abreast fun next middle middleToo leads inStep beside => ?_).mono ?_ fun _ _ inStep => inStep
  · have phase : middle.phase = first.phase := inStep.phase
    have same : middleToo.phase = middle.phase := by rw [beside.same]
    have closes (notContent : first.phase ≠ .content) {room roomToo : Writer}
        (further : InStep middle middleToo room roomToo) :
        Both (fun written made madeToo => ∃ text more margin, (more = text ∧
            margin = first.margin ∧ EndShape first.phase separate written text) ∧
            Stands middle middleToo text more margin made madeToo)
          (InStep middle middleToo)
          ((closeStartTag (endToken separate = .endElement) >>= fun _ => return endToken separate
            : Action Token) room)
          ((closeStartTag (endToken separate = .endElement) >>= fun _ => return endToken separate
            : Action Token) roomToo) := by
      rcases further.came with ⟨front, came⟩
      refine ((steadyTo_closeStartTag _ came.abreast).mono (fun _ _ _ holds => holds)
        fun _ _ inStep => further.trans inStep).bind fun _ made madeToo holds => ?_
      rcases holds with ⟨last, text, cameToo⟩
      have whole := further.trans last
      refine .ok _ ⟨_, _, _, ⟨rfl, rfl, ?_⟩, came.trans cameToo, whole.margin.trans inStep.margin,
        whole.paid⟩
      cases separate with
      | true =>
          exact .inr ⟨rfl, .inr rfl, fun _ => ⟨front ++ text, String.append_assoc.symm⟩⟩
      | false =>
          exact .inl ⟨rfl, notContent, rfl, front ++ text, String.append_assoc.symm⟩
    rw [makeRoom_endToken]
    simp only [Bind.bind, EStateM.bind, get_run, same, phase]
    by_cases inValue : first.phase = .attribute
    · simp only [inValue, if_true, reduceCtorEq, if_false]
      rw [inValue] at closes
      exact (steady_closeValue.both beside).bind fun _ _ _ => closes (by simp)
    · by_cases content : first.phase = .content
      · simp only [content, reduceCtorEq, if_true, if_false]
        refine .ok _ ⟨"", "", _, ⟨rfl, rfl, .inr ⟨rfl, .inl rfl, by simp [Phase.Closes]⟩⟩, ?_⟩
        exact ⟨beside.came, inStep.margin, id⟩
      · simp only [inValue, content, if_false]
        exact closes content beside.inStep
  · rintro _ after afterToo ⟨written, rest, text, _, _, ⟨rfl, rfl, shape⟩, last, reaches⟩
    refine ⟨written, _, ?_, last, reaches⟩
    rcases shape with ⟨rfl, inTag, joined, front, rfl⟩ | ⟨rfl, apart, closes⟩
    · exact .inl ⟨rfl, inTag, joined, rest ++ front, String.append_assoc.symm⟩
    · exact .inr ⟨rfl, apart, closes_append closes rest⟩

end XmlStream.Writer
