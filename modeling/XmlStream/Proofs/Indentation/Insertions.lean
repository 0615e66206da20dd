import XmlStream.Proofs.Indentation.Runs

namespace XmlStream

/-! Indentation as a whole: the lines that are put into a text, and what they leave alone. -/

/-- A text with lines put in, each one before markup. -/
inductive LinesInserted : List Char → List Char → Prop
  | nil : LinesInserted [] []
  | keep (character : Char) {text more : List Char} (inserted : LinesInserted text more) :
      LinesInserted (character :: text) (character :: more)
  | line (level : Nat) (width : Width) (indentChar : Char) {text more : List Char}
      (inserted : LinesInserted text more) :
      LinesInserted ('<' :: text)
        ('\n' :: List.replicate (width.times level) indentChar ++ '<' :: more)

namespace LinesInserted

theorem refl (text : List Char) : LinesInserted text text := by
  induction text with
  | nil => exact .nil
  | cons character rest induction => exact .keep character induction

theorem append {text more other further : List Char} (inserted : LinesInserted text more)
    (insertedToo : LinesInserted other further) :
    LinesInserted (text ++ other) (more ++ further) := by
  induction inserted with
  | nil => exact insertedToo
  | keep character _ induction => exact .keep character induction
  | line level width indentChar _ induction =>
      have inserted := line level width indentChar induction
      simpa using inserted

theorem gap (margin : Margin) (level : Nat) (markup : String) :
    LinesInserted ("<" ++ markup).toList (margin.gap level ++ ("<" ++ markup)).toList := by
  by_cases free : margin.isFree = true
  · have inserted := line level margin.width margin.indentChar (refl markup.toList)
    simpa [Margin.gap, free, Margin.line] using inserted
  · simp only [Margin.gap, free, Bool.false_eq_true, if_false, String.empty_append]
    exact refl _

theorem lead (margin : Margin) {stroke : Stroke} (whole : stroke ≠ .lostTag) :
    LinesInserted stroke.text.toList (margin.lead stroke ++ stroke.text).toList := by
  have unled (none : margin.level? stroke = none) :
      LinesInserted stroke.text.toList (margin.lead stroke ++ stroke.text).toList := by
    rw [Margin.lead, none]
    exact refl _
  cases stroke with
  | lostTag => exact absurd rfl whole
  | markup text => exact gap margin _ text
  | startTag name => exact gap margin _ name
  | endTag name =>
      have inserted := gap margin (margin.mixed.length - 1) ("/" ++ name ++ ">")
      have same : "<" ++ ("/" ++ name ++ ">") = "</" ++ name ++ ">" := by
        simp only [← String.append_assoc]
        rfl
      rwa [same] at inserted
  | _ => exact unled rfl

end LinesInserted

/-- On a level that fits the width, a line has so many characters for each level. -/
theorem Margin.lead_of_fits {margin : Margin} {stroke : Stroke} {level : Nat}
    (stands : margin.level? stroke = some level)
    (fits : level * margin.width.toNat < Width.limit) :
    margin.lead stroke = if margin.isFree then
      String.ofList ('\n' :: List.replicate (level * margin.width.toNat) margin.indentChar)
    else "" := by
  rw [Margin.lead, stands]
  dsimp only
  rw [Margin.gap, Margin.line, Width.times_of_lt fits]

theorem Margin.linesInserted {strokes : List Stroke} (margin : Margin)
    (whole : .lostTag ∉ strokes) :
    LinesInserted (Stroke.texts strokes).toList (margin.indented strokes).toList := by
  induction strokes generalizing margin with
  | nil => exact .nil
  | cons stroke rest induction =>
      rw [List.mem_cons, not_or] at whole
      have inserted := (LinesInserted.lead margin (Ne.symm whole.1)).append
        (induction (margin.after stroke) whole.2)
      simpa using inserted

namespace Writer

/-- Indentation puts in lines where they do no harm, and changes nothing else. Of two writers on a
sink that does not fail, which get the same calls, one indents and the other one does not. They
answer every call alike, and are in the same phase after every call. What the first one writes are
strokes, for each call those that it draws or that it breaks off with. What the second one writes
are the same strokes with the lines that a margin has before them. A line has the indent character
so many times for each level as the width says, as far as that fits into a word. Unless a start tag
is refused when there is room for it already, this puts in lines before markup. After such a start
tag nothing is written any more. -/
theorem indented_of_run (output : OutputBuffer) (settings : Settings) (calls : List Call)
    (bare : output.encoder = none) (unfailing : output.sink.Unfailing)
    (others : ∀ call ∈ calls, call.isAboutFormatting = false) :
    let plain := create output { settings with formatting := .plain }
    let indenting := create output { settings with formatting := .indented }
    let margin : Margin := { width := settings.indentation, indentChar := settings.indentChar }
    (indenting.run calls).1 = (plain.run calls).1 ∧
      (∀ count, (indenting.run (calls.take count)).2.phase =
        (plain.run (calls.take count)).2.phase) ∧
      ∃ strokes, plain.SketchesAll calls strokes ∧
        (plain.run calls).2.output.delivered =
          output.delivered ++ (Stroke.texts strokes).toUTF8 ∧
        (indenting.run calls).2.output.delivered =
          output.delivered ++ (margin.indented strokes).toUTF8 ∧
        (∀ earlier stroke later level, strokes = earlier ++ stroke :: later →
          let here := margin.afterAll earlier
          here.level? stroke = some level → level * here.width.toNat < Width.limit →
            here.lead stroke = if here.isFree then
              String.ofList ('\n' :: List.replicate (level * here.width.toNat) here.indentChar)
            else "") ∧
        (.lostTag ∉ strokes →
          LinesInserted (Stroke.texts strokes).toList (margin.indented strokes).toList) ∧
        Stroke.EndsLost strokes := by
  intro plain indenting margin
  have abreast : plain.Abreast indenting := ⟨rfl, rfl, bare, bare, unfailing, unfailing⟩
  have start : plain.margin = margin := rfl
  have phases (count : Nat) : (indenting.run (calls.take count)).2.phase =
      (plain.run (calls.take count)).2.phase := by
    rcases abreast.run margin (fun _ => start.symm) (calls.take count)
      fun call member => others call (List.mem_of_mem_take member) with ⟨_, ran⟩
    rw [ran.came.abreast.same]
  have text {text : String} {after : Writer} (extended : output.Extends text after.output) :
      after.output.delivered = output.delivered ++ text.toUTF8 := by
    rw [extended.delivered, bare]
    rfl
  rcases abreast.run margin (fun _ => start.symm) calls others with ⟨strokes, ran⟩
  exact ⟨ran.answers, phases, strokes, ran.sketches, text ran.came.output, text ran.came.outputToo,
    fun earlier _ _ _ _ => (margin.afterAll earlier).lead_of_fits, margin.linesInserted,
    ran.endsLost⟩

/-- Elements are indented, but not where text stands around them. -/
theorem indented_of_run_nested :
    let calls : List Call :=
      [.startElement { localName := "a" }, .startElement { localName := "b" }, .text "c",
        .startElement { localName := "d" }, .endElement, .endElement, .endElement]
    let output : OutputBuffer := { sink := {} }
    let margin : Margin := { width := 2, indentChar := ' ' }
    output.encoder = none ∧ output.sink.Unfailing ∧
      (∀ call ∈ calls, call.isAboutFormatting = false) ∧
      ∃ strokes, (create output { formatting := .plain }).SketchesAll calls strokes ∧
        Stroke.texts strokes = "<a><b>c<d /></b></a>" ∧
        margin.indented strokes = "<a>\n  <b>c<d /></b>\n</a>" := by
  intro calls output margin
  have others : ∀ call ∈ calls, call.isAboutFormatting = false := by decide
  rcases indented_of_run output {} calls rfl ⟨rfl, rfl⟩ others with
    ⟨_, _, strokes, sketches, plain, indented, _, _, _⟩
  refine ⟨rfl, ⟨rfl, rfl⟩, others, strokes, sketches, String.toByteArray_inj.mp ?_,
    String.toByteArray_inj.mp ?_⟩
  · calc (Stroke.texts strokes).toUTF8
      _ = output.delivered ++ (Stroke.texts strokes).toUTF8 := ByteArray.empty_append.symm
      _ = _ := plain.symm
      _ = "<a><b>c<d /></b></a>".toUTF8 := by decide +kernel
  · calc (margin.indented strokes).toUTF8
      _ = output.delivered ++ (margin.indented strokes).toUTF8 := ByteArray.empty_append.symm
      _ = _ := indented.symm
      _ = "<a>\n  <b>c<d /></b>\n</a>".toUTF8 := by decide +kernel

/-- The line for a start tag stays when the start tag is refused for its prefix, so it stands
before no markup. A line that is longer than a word can tell is cut: four levels of a quarter of
the words each are none. -/
theorem line_of_lostTag :
    let calls : List Call :=
      [.startElement { localName := "a" },
        .startElement { nsPrefix := some "p", localName := "b" }]
    ((create { sink := {} } { formatting := .plain }).run calls).2.output.delivered =
        "<a>".toUTF8 ∧
      ((create { sink := {} } { formatting := .indented }).run calls).2.output.delivered =
        "<a>\n  ".toUTF8 ∧
      ¬LinesInserted "<a>".toList "<a>\n  ".toList ∧
      let width : Width := .ofNat (Nat.pow 2 62)
      let element : Call := .startElement { localName := "a" }
      ((create { sink := {} } { indentation := 0, formatting := .indented }).run
          [element, element, element, element, .setIndentation width, element]).2.output.delivered =
        "<a>\n<a>\n<a>\n<a>\n<a".toUTF8 ∧
      4 * width.toNat ≠ 0 := by
  refine ⟨by decide +kernel, by decide +kernel, ?_, by decide +kernel, by decide +kernel⟩
  intro inserted
  cases inserted with
  | keep _ inserted =>
    cases inserted with
    | keep _ inserted =>
      cases inserted with
      | keep _ inserted => cases inserted

end Writer

end XmlStream
