import XmlStream.Proofs.Payload.Chunks

namespace XmlStream

/-! Payloads in runs of calls: each is whole, stands where it has been written, and has nothing in common
with the next one. -/

namespace Draft

variable {draft after : Draft} {events : List Event} {text : String}

theorem payload_of_path (path : draft.Path events text after)
    (unfed : ∀ event ∈ events, ∀ chunk kind, event ≠ .feed chunk kind)
    (noPayload : draft.payload = none) : after.payload = none := by
  induction path with
  | nil => exact noPayload
  | @cons first second last event events text more step rest induction =>
      rw [List.forall_mem_cons] at unfed
      refine induction unfed.2 ?_
      cases step with
      | xmlDeclaration | doctype | line | comment | instruction | cdata | endStartTag | endEmptyTag
      | endTag | configure | finish => exact noPayload
      | startElement request nsPrefix named _ _ _ _ _ _ names =>
          exact (names.frames (depth_push_pos _ _)).payload.trans noPayload
      | startAttribute request nsPrefix kind next named _ _ _ _ names =>
          exact (named.frames_noteAttribute nsPrefix).payload.trans
            (names.frames.payload.trans noPayload)
      | endAttribute next named _ _ applies =>
          cases special : first.special with
          | none =>
              rw [special] at applies
              rw [applies]
              exact noPayload
          | some special =>
              rw [special] at applies
              exact applies.frames.payload.trans noPayload
      | write piece next => exact (first.enterText_payload next).trans noPayload
      | qualify uri nsPrefix next named _ _ _ _ _ finds =>
          exact (finds.frames_noted next).payload.trans ((first.enterText_payload next).trans noPayload)
      | feed chunk => exact absurd rfl (unfed.1 _ _)
      | endPayload => rfl

end Draft

namespace Writer

variable {before after writer : Writer}

theorem unfed_of_owns {call : Call} {own : List Event} (owns : before.Owns call own)
    (leaves : call.keepsPayload = false) : ∀ event ∈ own, ∀ chunk kind, event ≠ .feed chunk kind := by
  cases owns with
  | base64 => cases leaves
  | attributeString request value room pieces went adds =>
      rcases adds with rfl | ⟨kind, rfl⟩ <;> simp
  | elementString request value room opened pieces went opens adds =>
      rcases adds with rfl | ⟨text, _, rfl⟩ <;> simp
  | _ => simp

theorem payload_of_step {call : Call} (ready : before.Ready) (paid : before.unflushed = false)
    (leaves : call.keepsPayload = false) (notClose : call ≠ .close)
    (ok : (before.step call).1.isOk = true) :
    (before.step call).2.carry = .empty ∧ (before.step call).2.unflushed = false := by
  rcases perform_ok ready notClose (step_ok ok) with ⟨own, owns, events, text, runs, others⟩
  suffices noPayload : (before.step call).2.draft.payload = none from
    ⟨(ready.carried.path runs.path).carry_eq_empty noPayload, Draft.payload_eq_none.mp noPayload⟩
  refine Draft.payload_of_path runs.path (fun event member chunk kind feeds => ?_)
    (Draft.payload_eq_none.mpr paid)
  by_cases completes : event.completes = true
  · rw [feeds] at completes
    cases completes
  · have owned : event ∈ own := by
      rw [← others]
      exact List.mem_filter.mpr ⟨member, by simpa using completes⟩
    exact unfed_of_owns owns leaves event owned chunk kind feeds

theorem received_of_later (unfailing : writer.output.sink.Unfailing) (calls : List Call) :
    ∃ more, (writer.run calls).2.release.output.sink.received = writer.output.delivered ++ more := by
  have goesOn : ∀ calls : List Call, ∀ later : Writer,
      later.output.Reaches writer.output.delivered →
        (later.run calls).2.output.Reaches writer.output.delivered := by
    intro calls
    induction calls with
    | nil => exact fun _ reaches => reaches
    | cons call rest induction =>
        exact fun later reaches =>
          induction _ (step_of_endsIn ((cuts_call call).reaches reaches))
  have reaches := goesOn calls writer ⟨unfailing.limit, .empty, ByteArray.append_empty.symm⟩
  have closed := closed_of_endsIn (cuts_shut.reaches reaches)
  rcases OutputBuffer.release_of_endsIn (OutputBuffer.cuts_flush.reaches closed) with
    ⟨_, more, begins⟩
  refine ⟨more, ?_⟩
  rw [output_release]
  rwa [OutputBuffer.delivered, OutputBuffer.pending_of_release closed.endless,
    ByteArray.append_empty] at begins

theorem ready_of_awaits (ready : before.Ready) (awaits : before.Awaits after) : after.Ready := by
  rcases finishPayload_ok awaits.ends with ⟨events, text, completes, _⟩
  refine ⟨⟨completes.sound ready.sound.bindings, ?_⟩, ready.placed.path completes.path,
    ready.layered.path completes.path, ready.carried.path completes.path⟩
  rw [completes.keeps.phase, completes.keeps.lastToken]
  exact ready.sound.lastToken

theorem step_after_payload {call : Call} (ready : before.Ready) (awaits : before.Awaits after)
    (paid : after.unflushed = false) (leaves : call.keepsPayload = false) :
    (before.step call).1 = (after.step call).1 ∧
      ((after.step call).1.isOk = true → before.step call = after.step call ∧
        (call ≠ .close →
          (after.step call).2.carry = .empty ∧ (after.step call).2.unflushed = false)) ∧
      ((before.step call).2.step .close).2 = ((after.step call).2.step .close).2 ∧
      (before.step call).2.release = (after.step call).2.release := by
  rcases step_of_awaits leaves awaits with same | ⟨error, here, there, refused⟩
  · rw [same]
    exact ⟨rfl, fun ok => ⟨rfl, fun notClose =>
      payload_of_step (ready_of_awaits ready awaits) paid leaves notClose ok⟩, rfl, rfl⟩
  · refine ⟨here.trans there.symm, fun ok => ?_, ?_, release_of_awaits refused⟩
    · rw [there] at ok
      cases ok
    · rw [close_of_awaits refused]

/-- Payloads are whole and separate. Where bytes can be written in base64, all chunks are accepted unless
the sink fails, whatever else is called between them that leaves the payload as it is. Apart from the end
of a start tag before it, what they emit is the standard text of all their bytes in a row, with those of
an earlier chunk that still wait, and nothing of it depends on the chunks. It stands in the same value or
element, and reads back as the bytes. Whatever comes next does the same as if the payload had been ended
before it, so that all it emits comes after the payload. A call that is refused leaves the end to what
closes the writer, which is the same again. Nothing is left for the next payload. -/
theorem payload_of_run (output : OutputBuffer) (settings : Settings) (calls : List Call)
    (writer : Writer) (reached : writer = ((create output settings).run calls).2)
    (unfailing : output.sink.Unfailing) (permits : (writer.nextPhase? .base64).isSome = true)
    (chunk : List UInt8) (rest : List Call) (keeps : ∀ call ∈ rest, call.keepsPayload = true) :
    let bytes := writer.carry.bytes ++ chunk ++ rest.flatMap Call.chunk
    let (answers, written) := writer.run (.base64 chunk :: rest)
    Base64.decode? (Base64.standard bytes) = some bytes ∧
      (∀ entry ∈ (Call.base64 chunk :: rest).zip answers,
        entry.1.isWriting = true → entry.2 = .ok .done) ∧
      ∃ ended, finishPayload written = .ok () ended ∧
        ended.carry = .empty ∧ ended.unflushed = false ∧
        writer.output.Extends
          ((if writer.phase = .element then writer.draft.owedText ++ ">" else "") ++
            String.ofList (Base64.standard bytes)) ended.output ∧
        ended.draft.names = writer.draft.names ∧
        (ended.phase = .attribute ↔ writer.phase = .attribute) ∧
        (ended.phase = .topAttribute ↔ writer.phase = .topAttribute) ∧
        (∀ call : Call, call.keepsPayload = false →
          (written.step call).1 = (ended.step call).1 ∧
          ((ended.step call).1.isOk = true → written.step call = ended.step call ∧
            (call ≠ .close →
              (ended.step call).2.carry = .empty ∧ (ended.step call).2.unflushed = false)) ∧
          ((written.step call).2.step .close).2 = ((ended.step call).2.step .close).2 ∧
          (written.step call).2.release = (ended.step call).2.release) ∧
        written.release = ended.release ∧
        ∀ later, ∃ more,
          (ended.run later).2.release.output.sink.received = ended.output.delivered ++ more := by
  subst reached
  have kept := run_extends (ready_create output settings) calls
  generalize ((create output settings).run calls).2 = writer at *
  intro bytes
  rcases Option.isSome_iff_exists.mp permits with ⟨next, leads⟩
  have live : ¬writer.Spent := by
    intro spent
    rw [nextPhase?_base64_eq, next?_of_spent spent] at leads
    cases leads
  rcases kept.resolve_left live with ⟨ready, text, extended⟩
  have still := extended.unfailing unfailing
  rcases advance_base64_of_unfailing still leads with ⟨room, went, endless⟩
  have made := makesRoom_of_advance ready.sound went
  rcases step_base64 chunk (fun closed => live (.inr closed)) went endless with
    ⟨accepted, first⟩
  rw [made.carry] at first
  rcases first.run made.amid endless keeps with ⟨inPayload, accepts⟩
  have runs : writer.run (.base64 chunk :: rest) =
      ((writer.step (.base64 chunk)).1 :: ((writer.step (.base64 chunk)).2.run rest).1,
        ((writer.step (.base64 chunk)).2.run rest).2) := rfl
  have known := run_extends ready (.base64 chunk :: rest)
  rw [runs] at known ⊢
  dsimp only at known ⊢
  have writtenReady := (known.resolve_left (inPayload.amid made.amid).live).1
  rcases inPayload.finish made.amid endless with
    ⟨ended, awaits, whole, empty, paid, phase, names⟩
  refine ⟨?_, ?_, ended, awaits.ends, empty, paid, made.output.trans whole, names.trans made.names, ?_,
    ?_, ?_, release_of_awaits awaits, ?_⟩
  · rw [← Base64.encode_eq_standard]
    exact Base64.decode?_encode bytes
  · intro entry member
    rcases List.mem_cons.mp member with rfl | later
    · exact fun _ => accepted
    · exact accepts entry later
  · rw [phase]
    exact made.inValue
  · rw [phase]
    exact made.onTop
  · exact fun call => step_after_payload writtenReady awaits paid
  · exact received_of_later (whole.unfailing endless)

/-- Four bytes in three chunks, in the value of an attribute, which a comment cannot end. -/
theorem payload_of_run_in_value :
    let calls : List Call :=
      [.startElement { localName := "a" }, .startAttribute { localName := "b" }]
    let rest : List Call := [.flush, .base64 [2], .setIndentation 4, .text "", .base64 [3, 4]]
    let writer := ((create { sink := {} }).run calls).2
    let written := (writer.run (.base64 [1] :: rest)).2
    (writer.nextPhase? .base64).isSome = true ∧ (∀ call ∈ rest, call.keepsPayload = true) ∧
      ∃ ended, finishPayload written = .ok () ended ∧
        ended.carry = .empty ∧ ended.unflushed = false ∧
        writer.output.Extends "AQIDBA==" ended.output ∧
        (written.step .endAttribute).1 = (ended.step .endAttribute).1 ∧
        (written.step (.comment "--")).2.release = (ended.step (.comment "--")).2.release ∧
        written.release = ended.release ∧
        written.release.output.sink.received = "<a b=\"AQIDBA==\" />".toUTF8 := by
  intro calls rest writer written
  have permits : (writer.nextPhase? .base64).isSome = true := by decide +kernel
  have keeps : ∀ call ∈ rest, call.keepsPayload = true := by decide +kernel
  have holds := payload_of_run { sink := {} } {} calls writer rfl ⟨rfl, rfl⟩ permits [1] rest keeps
  rcases holds with ⟨_, _, ended, ends, empty, paid, whole, _, _, _, after, released, _⟩
  have text : (if writer.phase = .element then writer.draft.owedText ++ ">" else "") ++
      String.ofList (Base64.standard (writer.carry.bytes ++ [1] ++ rest.flatMap Call.chunk)) = "AQIDBA==" := by decide +kernel
  rw [text] at whole
  exact ⟨permits, keeps, ended, ends, empty, paid, whole, (after .endAttribute rfl).1,
    (after (.comment "--") rfl).2.2.2, released, by decide +kernel⟩

end Writer

end XmlStream
