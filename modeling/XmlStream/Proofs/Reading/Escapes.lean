import XmlStream.Proofs.Completion.Implicit
import XmlStream.Proofs.Reading.Normalization

namespace XmlStream

theorem TextPosition.escaped_append (position : TextPosition) (text more : String) :
    position.escaped (text ++ more) = position.escaped text ++ position.escaped more := by
  apply String.toList_inj.mp
  rw [String.toList_append, toList_escaped, toList_escaped, toList_escaped, String.toList_append,
    List.flatMap_append]

namespace Writer

/-! Text that is written piece by piece. Once there is room for it, each piece follows the one
before at once, so how a text is split does not show. -/

open Reading

variable {before after writer room : Writer} {text piece : String} {pieces : List String}

theorem captured_empty (writer : Writer) : writer.captured "" = writer := by
  have same : writer.special.map (fun special => { special with value := special.value ++ "" }) =
      writer.special := by
    cases writer.special <;> simp
  rw [captured, same]

/-- A writer stands in text, so that more of it needs no room. -/
structure AmidText (writer : Writer) : Prop where
  leads : writer.mode.next? .text writer.phase = some writer.phase
  notElement : writer.phase ≠ .element
  payload : writer.payload = none
  lastToken : writer.lastToken = some .text
  mixed : writer.phase = .content → writer.top.mixed = true

theorem nextPhase?_text_eq (writer : Writer) :
    writer.nextPhase? .text = writer.mode.next? .text writer.phase := by
  simp [nextPhase?]

theorem makeRoom_amid {token : Token} (textual : token = .text ∨ token = .base64)
    (notElement : writer.phase ≠ .element)
    (mixed : writer.phase = .content → writer.top.mixed = true) :
    makeRoom token writer.phase writer = .ok token writer := by
  have marked (content : writer.phase = .content) : markMixed writer = .ok () writer := by
    have elements : writer.elements.modifyTop (fun element => { element with mixed := true }) =
        writer.elements := by
      apply ElementStack.modifyTop_eq_self
      have mixed : writer.elements.top.mixed = true := mixed content
      rw [← mixed]
    rw [markMixed, modifyTop, modify_run, elements]
  rcases textual with rfl | rfl
  all_goals
    by_cases content : writer.phase = .content
    · simp [makeRoom, content, Bind.bind, EStateM.bind, get_run, marked content, pure, EStateM.pure]
    · simp [makeRoom, get_bind_eq, notElement, content, pure, EStateM.pure]

theorem AmidText.advance (amid : writer.AmidText) : advance .text writer = .ok () writer := by
  have made := makeRoom_amid (.inl rfl) amid.notElement amid.mixed
  rw [advance_eq (by rw [nextPhase?_text_eq, amid.leads]), if_pos (by simp)]
  simp only [Bind.bind, EStateM.bind, finishPayload_of_none amid.payload, made, modify_run]
  rw [← amid.lastToken]

theorem AmidText.writes {more : String} (amid : writer.AmidText)
    (wrote : (writer.captured text).Writes more after) : after.AmidText := by
  rcases wrote with ⟨output, rfl, _⟩
  exact ⟨amid.leads, amid.notElement, amid.payload, amid.lastToken, amid.mixed⟩

theorem payload_of_advance_text (sound : before.Sound)
    (went : Writer.advance .text before = .ok () room) : room.payload = none := by
  rcases advance_split (by simp) went with
    ⟨_, _, middle, made, _, finished, noPayload, _, makes, result⟩
  have open_ : middle.phase = .element → middle.lastToken ≠ some .text := by
    rw [finished.keeps.phase, finished.keeps.lastToken]
    exact sound.lastToken
  rcases makeRoom_text_ok open_ (.inl rfl) makes with ⟨inside, closes, rfl, reaches⟩
  have inside_payload : inside.payload = none := by
    rcases closes with ⟨_, _, closes⟩ | ⟨_, rfl⟩
    · rcases closeStartTag_ok (finished.sound sound.bindings) closes with ⟨_, settled, _⟩
      rw [← draft_payload, settled]
      exact noPayload (by simp)
    · exact noPayload (by simp)
  have same := congrArg Writer.payload reaches
  rw [result]
  exact same.trans inside_payload

theorem amidText_of_advance (sound : before.Sound)
    (went : Writer.advance .text before = .ok () room) : room.AmidText := by
  rcases advance_text_ok sound (.inl rfl) went with ⟨events, text, draft, advances, notElement⟩
  have again := next?_text_again advances.leads
  have entered := advances.draft_text
  have mode : room.mode = draft.mode := by
    rw [← draft_mode, entered, Draft.enterText_mode]
  refine ⟨by rw [mode]; exact again, next?_ne_element (.inl rfl) advances.leads,
    payload_of_advance_text sound went, advances.lastToken, fun content => ?_⟩
  rw [← draft_top, entered]
  exact draft.enterText_top_mixed content

theorem values_of_text {mode : Mode} {phase next : Phase}
    (leads : mode.next? .text phase = some next) :
    (next = .attribute ↔ phase = .attribute) ∧ (next = .topAttribute ↔ phase = .topAttribute) := by
  have all : (mode.next? .text phase).all (fun next =>
      (next = .attribute ↔ phase = .attribute) ∧
        (next = .topAttribute ↔ phase = .topAttribute)) = true := by
    cases mode <;> cases phase <;> decide
  rw [leads] at all
  exact of_decide_eq_true all

theorem leads_of_advance_text (went : Writer.advance .text before = .ok () room) :
    before.mode.next? .text before.phase = some room.phase := by
  rcases advance_ok went with ⟨next, _, _, _, leads, _, _, rfl⟩
  exact next?_of_nextPhase? (by simp) leads

theorem textPosition_congr (settings : after.settings = before.settings)
    (inValue : after.phase = .attribute ↔ before.phase = .attribute)
    (onTop : after.phase = .topAttribute ↔ before.phase = .topAttribute) :
    after.textPosition = before.textPosition := by
  unfold textPosition
  rw [settings]
  cases here : after.phase <;> cases there : before.phase <;> simp_all

theorem textPosition_of_advance (sound : before.Sound)
    (went : Writer.advance .text before = .ok () room) :
    room.textPosition = before.textPosition := by
  rcases advance_text_ok sound (.inl rfl) went with ⟨events, text, draft, advances, notElement⟩
  have values := values_of_text (leads_of_advance_text went)
  refine textPosition_congr ?_ values.1 values.2
  rw [← draft_settings, advances.draft_text, Draft.enterText_settings, advances.settings]

theorem AmidText.step (amid : writer.AmidText)
    (ok : (writer.step (.text piece)).1.isOk = true) :
    (writer.captured piece).Writes (writer.textPosition.escaped piece)
      (writer.step (.text piece)).2 := by
  have wrote := (guarded_ok (step_ok ok)).2
  generalize (writer.step (.text piece)).2 = after at wrote
  simp only [putText, ite_eq_ok, bind_eq_ok, pure_eq_ok, true_and, ne_eq,
    Decidable.not_not] at wrote
  rcases wrote with ⟨_, _, room, went, wrote⟩ | ⟨rfl, rfl⟩
  · rw [amid.advance] at went
    cases went
    exact emitText_ok wrote
  · rw [captured_empty]
    exact .refl writer

theorem AmidText.run (amid : writer.AmidText)
    (accepts : writer.Accepts (pieces.map .text)) :
    (writer.captured (String.join pieces)).Writes
      (writer.textPosition.escaped (String.join pieces)) (writer.run (pieces.map .text)).2 := by
  induction pieces generalizing writer with
  | nil =>
      rw [String.join_nil, captured_empty]
      exact .refl writer
  | cons piece rest induction =>
      rw [List.map_cons, accepts_cons] at accepts
      have first := amid.step accepts.1
      have later := induction (amid.writes first) accepts.2
      change (writer.captured _).Writes _
        ((writer.step (.text piece)).2.run (rest.map .text)).2
      generalize (writer.step (.text piece)).2 = middle at first later
      rcases first with ⟨output, rfl, extended⟩
      rcases later with ⟨last, same, extendedToo⟩
      rw [same, String.join_cons, ← captured_captured, TextPosition.escaped_append]
      exact ⟨last, rfl, extended.trans extendedToo⟩

theorem step_emptyText (notClosed : before.phase ≠ .closed) :
    before.step (.text "") = (.ok .done, before) :=
  step_of_ok (by simp) (by simp [perform, guarded, notClosed, putText, pure, EStateM.pure])

theorem step_text (nonEmpty : piece ≠ "") (known : before.Ready ∨ before.Spent)
    (ok : (before.step (.text piece)).1.isOk = true) :
    ∃ room, Writer.advance .text before = .ok () room ∧ room.AmidText ∧
      room.textPosition = before.textPosition ∧
      (room.captured piece).Writes (room.textPosition.escaped piece)
        (before.step (.text piece)).2 := by
  have performed := step_ok ok
  rcases known with ready | spent
  · have wrote := (guarded_ok performed).2
    simp only [putText, ite_eq_ok, bind_eq_ok, pure_eq_ok, true_and, ne_eq, nonEmpty,
      not_false_eq_true, not_true_eq_false, false_and, or_false] at wrote
    rcases wrote with ⟨_, room, went, wrote⟩
    exact ⟨room, went, amidText_of_advance ready.sound went,
      textPosition_of_advance ready.sound went, emitText_ok wrote⟩
  · rcases idle_of_perform spent performed with idle | flushes | closes
    · cases idle
      exact absurd rfl nonEmpty
    · cases flushes
    · cases closes

/-- Pieces of text make room once, for the first of them that is not empty. -/
theorem run_text (known : before.Ready ∨ before.Spent)
    (accepts : before.Accepts (pieces.map .text)) :
    String.join pieces = "" ∧ (before.run (pieces.map .text)).2 = before ∨
      String.join pieces ≠ "" ∧ ∃ room, Writer.advance .text before = .ok () room ∧
        (room.captured (String.join pieces)).Writes
          (before.textPosition.escaped (String.join pieces))
          (before.run (pieces.map .text)).2 := by
  induction pieces with
  | nil => exact .inl ⟨rfl, rfl⟩
  | cons piece rest induction =>
      rw [List.map_cons, accepts_cons] at accepts
      rw [String.join_cons]
      have first : (before.run ((piece :: rest).map .text)).2 =
          ((before.step (.text piece)).2.run (rest.map .text)).2 := rfl
      rw [first]
      by_cases nonEmpty : piece ≠ ""
      · rcases step_text nonEmpty known accepts.1 with ⟨room, went, amid, position, wrote⟩
        have later := (amid.writes wrote).run accepts.2
        generalize (before.step (.text piece)).2 = middle at wrote later
        rcases wrote with ⟨output, rfl, extended⟩
        rcases later with ⟨last, same, extendedToo⟩
        refine .inr ⟨by simp [nonEmpty], room, went, ?_⟩
        rw [same, ← captured_captured, TextPosition.escaped_append, ← position]
        exact ⟨last, rfl, extended.trans extendedToo⟩
      · rw [ne_eq, Decidable.not_not] at nonEmpty
        subst nonEmpty
        have performed : guarded (putText "") before = _ := step_ok accepts.1
        have notClosed := (guarded_ok performed).1
        rw [step_emptyText notClosed] at accepts ⊢
        rw [String.empty_append]
        exact induction accepts.2

/-! ## Text never fails by itself -/

theorem sure_makeRoom_text {token : Token} (textual : token = .text ∨ token = .base64)
    (next : Phase) : Sure (makeRoom token next) := by
  have marks (token : Token) : Sure (if next = .content then markMixed >>= fun _ => pure token
      else pure token) :=
    .ite (.bind (sure_modifyTop _) fun _ => .pure _) (.pure _)
  rcases textual with rfl | rfl
  all_goals
    refine .get_bind fun _ => ?_
    exact .ite (.bind (sure_closeStartTag false) fun _ => marks _) (marks _)

theorem advance_text_of_unfailing {next : Phase} (unfailing : before.output.sink.Unfailing)
    (leads : before.nextPhase? .text = some next) :
    ∃ room, Writer.advance .text before = .ok () room ∧ room.output.sink.Unfailing := by
  have sure : Sure (finishPayload >>= fun _ => makeRoom .text next >>= fun written =>
      modify fun writer => { writer with phase := next, lastToken := some written }) :=
    .bind sure_finishPayload fun _ => .bind (sure_makeRoom_text (.inl rfl) next) fun _ => .change fun _ => rfl
  rcases sure unfailing with ⟨_, room, went, still⟩
  exact ⟨room, by rw [advance_eq leads, if_pos (by simp)]; exact went, still⟩

/-- Where text can stand, all text can be written, as long as the sink does not fail. -/
theorem accepts_text (ready : before.Ready) (unfailing : before.output.sink.Unfailing)
    (leads : (before.nextPhase? .text).isSome = true) : before.Accepts (pieces.map .text) := by
  induction pieces generalizing before with
  | nil => simp [Accepts, run]
  | cons piece rest induction =>
      rcases Option.isSome_iff_exists.mp leads with ⟨next, leadsTo⟩
      have notClosed : before.phase ≠ .closed := by
        intro closed
        rw [nextPhase?_text_eq, closed] at leadsTo
        cases mode : before.mode <;> rw [mode] at leadsTo <;> cases leadsTo
      rw [List.map_cons, accepts_cons]
      by_cases nonEmpty : piece = ""
      · subst nonEmpty
        rw [step_emptyText notClosed]
        exact ⟨rfl, induction ready unfailing leads⟩
      · rcases advance_text_of_unfailing unfailing leadsTo with ⟨room, went, still⟩
        rcases sure_emitText piece still with ⟨_, after, wrote, stillToo⟩
        have performed : perform (.text piece) before = .ok () after := by
          have puts : putText piece before = .ok () after := by
            simp only [putText, ne_eq, nonEmpty, not_false_eq_true, if_true]
            exact bind_eq_ok.mpr ⟨_, room, went, wrote⟩
          simp only [perform, guarded, notClosed, if_false, puts]
        have stepped := step_of_ok (by simp) performed
        rcases perform_ok ready (by simp) performed with ⟨_, _, does⟩
        rw [stepped]
        refine ⟨rfl, induction (does.ready ready) stillToo ?_⟩
        have amid := (amidText_of_advance ready.sound went).writes (emitText_ok wrote)
        rw [nextPhase?_text_eq, amid.leads]
        rfl

theorem next?_of_spent {token : Token} (spent : before.Spent) :
    before.mode.next? token before.phase = none := by
  rcases spent with phase | phase <;> rw [phase] <;> cases before.mode <;> cases token <;> rfl

/-- However a text is split, it adds the same bytes. -/
theorem delivered_of_split {others : List String} (known : before.Ready ∨ before.Spent)
    (same : String.join others = String.join pieces)
    (accepts : before.Accepts (pieces.map .text)) (acceptsToo : before.Accepts (others.map .text)) :
    (before.run (others.map .text)).2.output.delivered =
      (before.run (pieces.map .text)).2.output.delivered := by
  rcases run_text known accepts with ⟨empty, stays⟩ | ⟨nonEmpty, room, went, output, is, extended⟩
  · rcases run_text known acceptsToo with ⟨_, staysToo⟩ | ⟨nonEmpty, _⟩
    · rw [stays, staysToo]
    · exact absurd (same.trans empty) nonEmpty
  · rcases run_text known acceptsToo with ⟨empty, _⟩ | ⟨_, roomToo, wentToo, outputToo, isToo, extendedToo⟩
    · exact absurd (same.symm.trans empty) nonEmpty
    · rw [went] at wentToo
      cases wentToo
      rw [same] at extendedToo
      rw [is, isToo]
      dsimp only
      rw [extended.delivered, extendedToo.delivered]

/-- Escaped text reads back as it was written. Where text can stand, all pieces of a text are accepted
unless the sink fails. Apart from the room that is made for the text, what they emit is the text as it is
escaped for where it stands, in content or between some quotes, no matter how it is split. In that no
character is markup or changed by normalization, every ampersand begins a reference for a character of
the text, and a reader that has normalized it and resolves the references has the text itself. -/
theorem text_reads_back_of_run (output : OutputBuffer) (settings : Settings) (calls : List Call)
    (pieces : List String) (writer : Writer)
    (reached : writer = ((create output settings).run calls).2) :
    (output.sink.Unfailing → (writer.nextPhase? .text).isSome = true →
      writer.Accepts (pieces.map .text)) ∧
    (writer.Accepts (pieces.map .text) →
      let text := String.join pieces
      let emitted := writer.textPosition.escaped text
      let after := (writer.run (pieces.map .text)).2
      (text = "" ∧ after = writer ∨ text ≠ "" ∧ ∃ room, Writer.advance .text writer = .ok () room ∧
        room.output.Extends emitted after.output) ∧
      (∀ others, String.join others = text → writer.Accepts (others.map .text) →
        (writer.run (others.map .text)).2.output.delivered = after.output.delivered) ∧
      ReadsBack writer.textPosition emitted text) := by
  subst reached
  have kept := run_extends (ready_create output settings) calls
  generalize ((create output settings).run calls).2 = writer at kept
  constructor
  · intro unfailing leads
    rcases kept with spent | ⟨ready, _, extended⟩
    · rw [nextPhase?_text_eq, next?_of_spent spent] at leads
      cases leads
    · exact accepts_text ready
        ⟨extended.limit.trans unfailing.limit, extended.canFlush.trans unfailing.canFlush⟩ leads
  · intro accepts text emitted after
    have known : writer.Ready ∨ writer.Spent := kept.symm.imp_left (·.1)
    refine ⟨?_, fun others same acceptsToo => delivered_of_split known same accepts acceptsToo,
      readsBack_escaped _ _⟩
    rcases run_text known accepts with nothing | ⟨nonEmpty, room, went, output, same, extended⟩
    · exact .inl nothing
    · refine .inr ⟨nonEmpty, room, went, ?_⟩
      show room.output.Extends emitted (writer.run (pieces.map .text)).2.output
      rw [same]
      exact extended

/-- A value between single quotes, in two pieces. -/
theorem text_reads_back_of_run_quoted :
    let calls : List Call :=
      [.setQuoteChar '\'', .startElement { localName := "a" }, .startAttribute { localName := "b" }]
    let writer := ((create { sink := {} }).run calls).2
    let pieces := ["it's <", "\t\r\x00"]
    let emitted := "it&apos;s &lt;&#x9;&#xD;&#x0;"
    writer.Accepts (pieces.map .text) ∧
      (∃ room, Writer.advance .text writer = .ok () room ∧
        room.output.Extends emitted (writer.run (pieces.map .text)).2.output) ∧
      ReadsBack (.attribute .single) emitted "it's <\t\r\x00" := by
  intro calls writer pieces emitted
  have position : writer.textPosition = .attribute .single := by decide +kernel
  have leads : (writer.nextPhase? .text).isSome = true := by decide +kernel
  have joined : String.join pieces = "it's <\t\r\x00" := by decide +kernel
  have escapes : (TextPosition.attribute .single).escaped "it's <\t\r\x00" = emitted := by
    decide +kernel
  have reached : writer = ((create { sink := {} }).run calls).2 := rfl
  clear_value calls writer pieces emitted
  have holds := text_reads_back_of_run { sink := {} } {} calls pieces writer reached
  have accepts := holds.1 ⟨rfl, rfl⟩ leads
  rcases holds.2 accepts with ⟨⟨empty, _⟩ | ⟨_, wrote⟩, _, reads⟩
  · rw [joined] at empty
    exact absurd empty (by decide)
  · rw [joined, position, escapes] at wrote reads
    exact ⟨accepts, wrote, reads⟩

end Writer

end XmlStream
