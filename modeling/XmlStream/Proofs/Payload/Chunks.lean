import XmlStream.Proofs.Grammar.Growth
import XmlStream.Proofs.Payload.Ending
import XmlStream.Proofs.Reading.Escapes
import XmlStream.Proofs.Text.Sextets

namespace XmlStream

/-! A payload comes in chunks, with calls between them that leave it as it is. What is written up to a
chunk are the complete groups of all bytes so far, whatever the chunks are. -/

def Call.chunk : Call → List UInt8
  | .base64 chunk => chunk
  | _ => []

theorem Base64.encode_eq_groups (bytes : List UInt8) :
    encode bytes = (groups bytes).1 ++ (groups bytes).2.lastGroup := rfl

theorem Mode.next?_base64 (mode : Mode) (phase : Phase) :
    mode.next? .base64 phase = mode.next? .text phase := by
  cases mode <;> cases phase <;> rfl

namespace Writer

variable {before after room writer : Writer} {bytes chunk : List UInt8}

/-- A writer stands amid a payload, so that more of it needs no room. -/
structure AmidPayload (writer : Writer) : Prop where
  leads : writer.mode.next? .base64 writer.phase = some writer.phase
  notElement : writer.phase ≠ .element
  lastToken : writer.lastToken = some .base64
  mixed : writer.phase = .content → writer.top.mixed = true

theorem nextPhase?_base64_eq (writer : Writer) :
    writer.nextPhase? .base64 = writer.mode.next? .base64 writer.phase := by
  simp [nextPhase?]

theorem AmidPayload.advance (amid : writer.AmidPayload) : advance .base64 writer = .ok () writer := by
  have made := makeRoom_amid (.inr rfl) amid.notElement amid.mixed
  rw [advance_eq (by rw [nextPhase?_base64_eq, amid.leads]), if_neg (by simp)]
  simp only [Bind.bind, EStateM.bind, pure, EStateM.pure, made, modify_run]
  rw [← amid.lastToken]

theorem AmidPayload.live (amid : writer.AmidPayload) : ¬writer.Spent := by
  intro spent
  have leads := amid.leads
  rw [next?_of_spent spent] at leads
  cases leads

theorem AmidPayload.begun (amid : writer.AmidPayload) : writer.phase ≠ .start := by
  intro start
  have leads := amid.leads
  rw [start] at leads
  cases mode : writer.mode <;> rw [mode] at leads <;> cases leads

theorem AmidPayload.notClosed (amid : writer.AmidPayload) : writer.phase ≠ .closed :=
  fun closed => amid.live (.inr closed)

structure MakesRoom (before room : Writer) : Prop where
  amid : room.AmidPayload
  output : before.output.Extends
    (if before.phase = .element then before.draft.owedText ++ ">" else "") room.output
  carry : room.carry = before.carry
  names : room.draft.names = before.draft.names
  inValue : room.phase = .attribute ↔ before.phase = .attribute
  onTop : room.phase = .topAttribute ↔ before.phase = .topAttribute

theorem makesRoom_of_advance (sound : before.Sound)
    (went : Writer.advance .base64 before = .ok () room) : before.MakesRoom room := by
  rcases advance_ok went with ⟨next, middle, made, written, leads, finished, makes, same⟩
  obtain rfl : middle = before := by
    rcases finished with ⟨other, _⟩ | ⟨_, same⟩
    · exact absurd rfl other
    · exact same
  rw [nextPhase?_base64_eq] at leads
  have asText := leads
  rw [Mode.next?_base64] at asText
  rcases makeRoom_text_ok sound.lastToken (.inr (.inr (.inr rfl))) makes with
    ⟨inside, closes, rfl, reaches⟩
  have result : room = inside.reached .base64 (next = .content) next := by
    rw [← reaches]
    exact same
  have entered : room.draft = inside.draft.enterText next := by
    rw [result]
    by_cases content : next = .content <;> simp [reached, draft, Draft.enterText, content] <;> rfl
  have settled : middle.output.Extends
        (if middle.phase = .element then middle.draft.owedText ++ ">" else "") inside.output ∧
      inside.carry = middle.carry ∧ inside.draft.names = middle.draft.names ∧
      inside.mode = middle.mode := by
    rcases closes with ⟨inTag, _, closed⟩ | ⟨notInTag, rfl⟩
    · rcases closeStartTag_ok sound.bindings closed with ⟨extended, settled, _, keeps⟩
      refine ⟨?_, ?_, ?_, keeps.mode⟩
      · rw [if_pos inTag]
        simpa using extended
      · rw [← draft_carry, settled]
        rfl
      · rw [settled, middle.draft.frames_settle.names]
    · rw [if_neg notInTag]
      exact ⟨.refl _, rfl, rfl, rfl⟩
  rcases settled with ⟨extended, carry, names, mode⟩
  have phase : room.phase = next := by rw [result]; rfl
  have values := values_of_text asText
  refine ⟨⟨?_, ?_, ?_, ?_⟩, ?_, ?_, ?_, ?_, ?_⟩
  · have sameMode : room.mode = middle.mode := by
      rw [result]
      exact mode
    rw [phase, sameMode, Mode.next?_base64]
    exact next?_text_again asText
  · rw [phase]
    exact next?_ne_element (.inl rfl) asText
  · rw [result]
    rfl
  · intro content
    rw [← draft_top, entered]
    exact inside.draft.enterText_top_mixed (phase.symm.trans content)
  · rw [result]
    exact extended
  · rw [result]
    exact carry
  · rw [entered, Draft.names_enterText]
    exact names
  · rw [phase]
    exact values.1
  · rw [phase]
    exact values.2

theorem advance_base64_of_unfailing {next : Phase} (unfailing : before.output.sink.Unfailing)
    (leads : before.nextPhase? .base64 = some next) :
    ∃ room, Writer.advance .base64 before = .ok () room ∧ room.output.sink.Unfailing := by
  have sure : Sure (makeRoom .base64 next >>= fun written =>
      modify fun writer => { writer with phase := next, lastToken := some written }) :=
    .bind (sure_makeRoom_text (.inr rfl) next) fun _ => .change fun _ => rfl
  rcases sure unfailing with ⟨_, room, went, still⟩
  exact ⟨room, by rw [advance_eq leads, if_neg (by simp)]; exact went, still⟩

/-- A writer has written the complete groups of some bytes where there was room for them, and the other
bytes wait. -/
structure InPayload (room : Writer) (bytes : List UInt8) (writer : Writer) : Prop where
  same : writer =
    { room.captured (String.ofList (Base64.groups bytes).1) with
      output := writer.output
      settings := writer.settings
      carry := (Base64.groups bytes).2
      unflushed := true }
  output : room.output.Extends (String.ofList (Base64.groups bytes).1) writer.output

namespace InPayload

theorem amid (inPayload : room.InPayload bytes writer) (amid : room.AmidPayload) :
    writer.AmidPayload := by
  rw [inPayload.same]
  exact ⟨amid.leads, amid.notElement, amid.lastToken, amid.mixed⟩

theorem carry (inPayload : room.InPayload bytes writer) :
    writer.carry = (Base64.groups bytes).2 := by
  rw [inPayload.same]

theorem unflushed (inPayload : room.InPayload bytes writer) : writer.unflushed = true := by
  rw [inPayload.same]

theorem trans (first : room.InPayload bytes writer)
    (later : writer.InPayload ((Base64.groups bytes).2.bytes ++ chunk) after) :
    room.InPayload (bytes ++ chunk) after := by
  have joined := Base64.groups_append bytes chunk
  constructor
  · have captured : ∀ text : String, writer.captured text =
        { (room.captured (String.ofList (Base64.groups bytes).1)).captured text with
          output := writer.output
          settings := writer.settings
          carry := (Base64.groups bytes).2
          unflushed := true } := by
      intro text
      rw [first.same]
      rfl
    have same := later.same
    rw [captured, captured_captured, ← String.ofList_append] at same
    rw [joined]
    exact same
  · rw [joined, String.ofList_append]
    exact first.output.trans later.output

theorem keep {output : OutputBuffer} {settings : Settings}
    (inPayload : room.InPayload bytes writer) (extended : writer.output.Extends "" output) :
    room.InPayload bytes { writer with output, settings } := by
  constructor
  · rw [inPayload.same]
  · have later := inPayload.output.trans extended
    rwa [String.append_empty] at later

end InPayload

theorem step_base64 (chunk : List UInt8) (notClosed : before.phase ≠ .closed)
    (went : Writer.advance .base64 before = .ok () room) (unfailing : room.output.sink.Unfailing) :
    (before.step (.base64 chunk)).1 = .ok .done ∧
      room.InPayload (room.carry.bytes ++ chunk) (before.step (.base64 chunk)).2 := by
  let fed : Writer := { room with carry := (room.carry.feed chunk).2 }
  rcases sure_emitVerbatim (String.ofList (room.carry.feed chunk).1)
    (show fed.output.sink.Unfailing from unfailing) with ⟨_, middle, wrote, _⟩
  have puts : putBase64 chunk before = .ok () { middle with unflushed := true } := by
    simp only [putBase64, Bind.bind, EStateM.bind, went, get_run, modify_run]
    rw [show emitVerbatim (String.ofList (room.carry.feed chunk).1) { room with carry := _ } = _
      from wrote]
  have performs : perform (.base64 chunk) before = .ok () { middle with unflushed := true } := by
    rw [perform, guarded, if_neg notClosed, puts]
  rw [step_of_ok (by simp) performs]
  rcases emitVerbatim_ok wrote with ⟨output, rfl, extended⟩
  exact ⟨rfl, rfl, extended⟩

theorem InPayload.step {call : Call} (inPayload : room.InPayload bytes writer)
    (amid : room.AmidPayload) (unfailing : room.output.sink.Unfailing)
    (keeps : call.keepsPayload = true) :
    room.InPayload (bytes ++ call.chunk) (writer.step call).2 ∧
      (call.isWriting = true → (writer.step call).1 = .ok .done) := by
  have still := inPayload.output.unfailing unfailing
  have here := inPayload.amid amid
  by_cases isChunk : ∃ chunk, call = .base64 chunk
  · rcases isChunk with ⟨chunk, rfl⟩
    rcases step_base64 chunk here.notClosed here.advance still with ⟨accepted, later⟩
    rw [inPayload.carry] at later
    exact ⟨inPayload.trans later, fun _ => accepted⟩
  · have nothing : call.chunk = [] := by
      cases call with
      | base64 chunk => exact absurd ⟨chunk, rfl⟩ isChunk
      | _ => rfl
    rw [nothing, List.append_nil]
    by_cases flushes : call = .flush
    · subst flushes
      rcases OutputBuffer.flush_of_unfailing still with ⟨output, flushed, _⟩
      have performs : perform .flush writer = .ok () { writer with output } := by
        rw [perform, guarded, if_neg here.notClosed, onOutput, flushed]
      rw [step_of_ok (by simp) performs]
      exact ⟨inPayload.keep (OutputBuffer.extends_of_flush flushed).1, fun _ => rfl⟩
    · by_cases empty : call = .text ""
      · subst empty
        rw [step_emptyText here.notClosed]
        exact ⟨inPayload, fun _ => rfl⟩
      · have quiet : call.isWriting = false := by
          cases call with
          | base64 chunk => exact absurd ⟨chunk, rfl⟩ isChunk
          | text text =>
              have isEmpty : text = "" := by simpa [Call.keepsPayload] using keeps
              exact absurd (by rw [isEmpty]) empty
          | close => rfl
          | _ => simpa [Call.keepsPayload] using keeps
        have notClose : call ≠ .close := by
          rintro rfl
          cases keeps
        rw [step_of_quiet quiet flushes notClose]
        refine ⟨inPayload.keep (.refl _), fun writes => ?_⟩
        rw [quiet] at writes
        cases writes

theorem InPayload.run {calls : List Call} (inPayload : room.InPayload bytes writer)
    (amid : room.AmidPayload) (unfailing : room.output.sink.Unfailing)
    (keeps : ∀ call ∈ calls, call.keepsPayload = true) :
    room.InPayload (bytes ++ calls.flatMap Call.chunk) (writer.run calls).2 ∧
      ∀ entry ∈ calls.zip (writer.run calls).1,
        entry.1.isWriting = true → entry.2 = .ok .done := by
  induction calls generalizing writer bytes with
  | nil =>
      rw [List.flatMap_nil, List.append_nil]
      exact ⟨inPayload, by simp [Writer.run]⟩
  | cons call rest induction =>
      rw [List.forall_mem_cons] at keeps
      rcases inPayload.step amid unfailing keeps.1 with ⟨once, accepted⟩
      rcases induction once keeps.2 with ⟨inThere, accepts⟩
      rw [List.flatMap_cons, ← List.append_assoc]
      refine ⟨inThere, fun entry member => ?_⟩
      rcases List.mem_cons.mp member with rfl | later
      · exact accepted
      · exact accepts entry later

theorem InPayload.finish (inPayload : room.InPayload bytes writer) (amid : room.AmidPayload)
    (unfailing : room.output.sink.Unfailing) :
    ∃ ended, writer.Awaits ended ∧
      room.output.Extends (String.ofList (Base64.standard bytes)) ended.output ∧
      ended.carry = .empty ∧ ended.unflushed = false ∧ ended.phase = room.phase ∧ ended.draft.names = room.draft.names := by
  have still := inPayload.output.unfailing unfailing
  have here := inPayload.amid amid
  rcases OutputBuffer.write_of_unfailing still
    (String.ofList (Base64.groups bytes).2.lastGroup) with ⟨output, writes, _⟩
  have whole := inPayload.output.trans (OutputBuffer.extends_of_write writes)
  rw [← String.ofList_append, ← Base64.encode_eq_groups, Base64.encode_eq_standard] at whole
  have ends : finishPayload writer = .ok ()
      { writer.captured (String.ofList (Base64.groups bytes).2.lastGroup) with
        output, carry := .empty, unflushed := false } := by
    rw [finishPayload_eq, if_pos inPayload.unflushed, inPayload.carry]
    dsimp only
    rw [writes]
  refine ⟨_, ⟨ends, here.begun, here.notClosed⟩, whole, rfl, rfl, ?_, ?_⟩
  · rw [inPayload.same]
    rfl
  · rw [inPayload.same]
    rfl

end Writer

end XmlStream
