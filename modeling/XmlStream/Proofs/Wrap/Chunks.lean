import XmlStream.Proofs.Wrap.Outcome

namespace XmlStream

/-! The document of some files does not depend on the chunks in which their contents arrive. -/

namespace Writer

variable {before room writer first second : Writer} {token : Token}

theorem advance_in_content (content : writer.phase = .content)
    (written : token = .base64 ∨ token = .text) (free : token = .text → writer.payload = none) :
    advance token writer = .ok () (writer.reached token true .content) := by
  have leads : writer.mode.next? token .content = some .content := by
    rcases written with rfl | rfl <;> cases writer.mode <;> rfl
  have next : writer.nextPhase? token = some .content := by
    rcases written with rfl | rfl <;> simp [nextPhase?, content, leads]
  rcases written with rfl | rfl
  · simp [advance, next, makeRoom, content, markMixed, modifyTop, reached, Bind.bind, EStateM.bind,
      get_run, modify_run, pure, EStateM.pure]
  · simp [advance, next, makeRoom, content, markMixed, modifyTop, reached, Bind.bind, EStateM.bind,
      get_run, modify_run, pure, EStateM.pure, finishPayload_of_none (free rfl)]

theorem reached_reached (writer : Writer) (token : Token) :
    (writer.reached token true .content).reached token true .content =
      writer.reached token true .content := by
  simp only [reached, if_true, ElementStack.modifyTop_modifyTop]
  rfl

theorem emitVerbatim_of_unfailing (noSpecial : writer.special = none)
    (unfailing : writer.output.sink.Unfailing) (text : String) :
    ∃ output, emitVerbatim text writer = .ok () { writer with output } ∧ output.sink.Unfailing := by
  rcases OutputBuffer.write_of_unfailing unfailing text with ⟨output, writes, still⟩
  refine ⟨output, ?_, still⟩
  have same : { writer with special := writer.special.map fun special =>
      { special with value := special.value ++ text } } = writer := by
    simp only [noSpecial, Option.map_none]
    rw [← noSpecial]
  simp only [emitVerbatim, Bind.bind, EStateM.bind, capture, modify_run, same, emit, onOutput, writes]

end Writer

namespace Wrap

open Writer (perform Beside)

variable {options : Options} {before room first second after : Writer}

def Options.payloadToken (options : Options) : Token :=
  if options.hexadecimal then .text else .base64

theorem payloadToken_cases (options : Options) :
    options.payloadToken = .base64 ∨ options.payloadToken = .text := by
  unfold Options.payloadToken
  split
  · exact .inr rfl
  · exact .inl rfl

structure Options.Filling (options : Options) (room : Writer) : Prop where
  content : room.phase = .content
  again : room.reached options.payloadToken true .content = room
  noSpecial : room.special = none
  paid : options.hexadecimal = true → room.payload = none
  unfailing : room.output.sink.Unfailing

def Options.filled (options : Options) (room : Writer) (bytes : List UInt8)
    (output : OutputBuffer) : Writer :=
  { room with
    output
    carry := if options.hexadecimal then room.carry else (room.carry.feed bytes).2
    unflushed := if options.hexadecimal then room.unflushed else true }

theorem Options.Filling.filled (filling : options.Filling room) (bytes : List UInt8)
    {output : OutputBuffer} (unfailing : output.sink.Unfailing) :
    options.Filling (options.filled room bytes output) where
  content := filling.content
  again := by
    have again := filling.again
    unfold Writer.reached at again ⊢
    have elements := congrArg Writer.elements again
    have token := congrArg Writer.lastToken again
    simp only [Options.filled] at elements token ⊢
    rw [elements, token, filling.content]
  noSpecial := filling.noSpecial
  paid := by
    intro hexadecimal
    rw [← filling.paid hexadecimal]
    exact Writer.payload_congr (if_pos hexadecimal) (if_pos hexadecimal)
  unfailing := unfailing

theorem filled_filled (options : Options) (room : Writer) (bytes more : List UInt8)
    (output last : OutputBuffer) :
    options.filled (options.filled room bytes output) more last =
      options.filled room (bytes ++ more) last := by
  unfold Options.filled
  cases options.hexadecimal <;> simp [Base64.feed_append]

theorem perform_payload (chunk : ByteArray) (notClosed : before.phase ≠ .closed)
    (goes : Writer.advance options.payloadToken before = .ok () room)
    (filling : options.Filling room) :
    ∃ output, perform (options.payload chunk) before =
        .ok () (options.filled room chunk.data.toList output) ∧ output.sink.Unfailing := by
  cases hexadecimal : options.hexadecimal with
  | true =>
      rcases Writer.emitVerbatim_of_unfailing filling.noSpecial filling.unfailing
        (String.ofList (Hexadecimal.encode chunk.data.toList)) with ⟨output, emits, still⟩
      refine ⟨output, ?_, still⟩
      simp only [Options.payloadToken, hexadecimal, if_true] at goes
      simp only [Options.payload, Options.filled, hexadecimal, if_true, perform, Writer.guarded,
        notClosed, if_false, Writer.putHexadecimal, Bind.bind, EStateM.bind, goes, emits]
  | false =>
      let fed : Writer := { room with carry := (room.carry.feed chunk.data.toList).2 }
      rcases Writer.emitVerbatim_of_unfailing (show fed.special = none from filling.noSpecial)
        filling.unfailing (String.ofList (room.carry.feed chunk.data.toList).1) with ⟨output, emits, still⟩
      refine ⟨output, ?_, still⟩
      simp only [Options.payloadToken, hexadecimal, Bool.false_eq_true, if_false] at goes
      simp only [Options.payload, Options.filled, hexadecimal, Bool.false_eq_true, if_false, perform,
        Writer.guarded, notClosed, Writer.putBase64, Bind.bind, EStateM.bind, goes, get_run, modify_run]
      rw [show Writer.emitVerbatim _ { room with carry := _ } = _ from emits]

theorem forM_payload {chunks : List ByteArray} (some_ : chunks ≠ [])
    (notClosed : before.phase ≠ .closed)
    (goes : Writer.advance options.payloadToken before = .ok () room)
    (filling : options.Filling room) :
    ∃ output, (chunks.map options.payload).forM perform before =
        .ok () (options.filled room (chunks.flatMap fun chunk => chunk.data.toList) output) ∧
      output.sink.Unfailing := by
  induction chunks generalizing before room with
  | nil => exact absurd rfl some_
  | cons chunk rest induction =>
      rcases perform_payload chunk notClosed goes filling with ⟨output, first, still⟩
      cases rest with
      | nil =>
          refine ⟨output, ?_, still⟩
          simp only [List.map_cons, List.map_nil, List.forM, bind_eq_ok, pure_eq_ok]
          exact ⟨_, _, first, trivial, by simp⟩
      | cons next rest =>
          have filledOnce := filling.filled chunk.data.toList still
          have goesOn := Writer.advance_in_content filledOnce.content (payloadToken_cases options)
            fun isText => filledOnce.paid (by
              unfold Options.payloadToken at isText
              split at isText
              · assumption
              · cases isText)
          rw [filledOnce.again] at goesOn
          rcases induction (by simp) (by simp [filledOnce.content]) goesOn filledOnce with
            ⟨last, more, stillToo⟩
          rw [filled_filled] at more
          refine ⟨last, ?_, stillToo⟩
          rw [List.map_cons, List.forM, bind_eq_ok]
          exact ⟨_, _, first, by simpa using more⟩

theorem advance_of_payload {chunk : ByteArray} {nothing : Unit}
    (ok : perform (options.payload chunk) before = .ok nothing after) :
    ∃ room, Writer.advance options.payloadToken before = .ok () room := by
  unfold Options.payload at ok
  unfold Options.payloadToken
  split at ok
  · rename_i hexadecimal
    have puts := (Writer.guarded_ok ok).2
    simp only [Writer.putHexadecimal, bind_eq_ok] at puts
    rcases puts with ⟨_, room, goes, _⟩
    exact ⟨room, by rw [if_pos hexadecimal]; exact goes⟩
  · rename_i base64
    have puts := (Writer.guarded_ok ok).2
    simp only [Writer.putBase64, bind_eq_ok] at puts
    rcases puts with ⟨_, room, goes, _⟩
    exact ⟨room, by rw [if_neg base64]; exact goes⟩

theorem filling_of_advance (sound : before.Sound) (inTag : before.phase = .element)
    (noPayload : before.payload = none) (noSpecial : before.special = none)
    (unfailing : before.output.sink.Unfailing)
    (goes : Writer.advance options.payloadToken before = .ok () room) : options.Filling room := by
  have written := payloadToken_cases options
  have comes := Writer.advance_content_comes sound (.inl inTag) written (fun _ => noPayload) goes
  rcases Writer.advance_content_ok sound (.inl inTag) written (fun _ => noPayload) goes with
    ⟨behind, _, reaches⟩
  have frames := before.draft.frames_behindTag
  refine ⟨by rw [reaches]; rfl, ?_, ?_, fun _ => ?_, comes.output.unfailing unfailing⟩
  · rw [reaches, Writer.reached_reached]
  · rw [← Writer.draft_special, comes.draft, Draft.enterText_special, frames.special]
    exact noSpecial
  · rw [← Writer.draft_payload, comes.draft, Draft.enterText_payload, frames.payload]
    exact noPayload

theorem Options.Filling.beside (filling : options.Filling first) (beside : first.Beside second) :
    options.Filling second := by
  rcases beside with ⟨same, _, unfailing⟩
  rw [same] at filling
  refine ⟨filling.content, ?_, filling.noSpecial, filling.paid, unfailing⟩
  have again := filling.again
  unfold Writer.reached at again ⊢
  have elements := congrArg Writer.elements again
  have token := congrArg Writer.lastToken again
  have phase := congrArg Writer.phase again
  simp only at elements token phase ⊢
  rw [elements, token, phase]

theorem beside_filled (beside : first.Beside second) (bytes : List UInt8) {output last : OutputBuffer}
    (unfailing : output.sink.Unfailing) (unfailingToo : last.sink.Unfailing) :
    (options.filled first bytes output).Beside (options.filled second bytes last) := by
  refine ⟨?_, unfailing, unfailingToo⟩
  rw [beside.same]
  rfl

theorem forM_beside {calls : List Call} {nothing : PUnit} (beside : first.Beside second)
    (notClose : ∀ call ∈ calls, call ≠ .close)
    (undeclared : ∀ call ∈ calls, ∀ standalone, call ≠ .startDocument standalone)
    (ok : calls.forM perform first = .ok nothing after) :
    ∃ afterToo, calls.forM perform second = .ok () afterToo ∧ after.Beside afterToo := by
  induction calls generalizing first second with
  | nil =>
      simp only [List.forM, pure_eq_ok, true_and] at ok
      subst ok
      exact ⟨second, rfl, beside⟩
  | cons call rest induction =>
      simp only [List.forM, bind_eq_ok] at ok
      rcases ok with ⟨_, middle, performs, ok⟩
      rw [List.forall_mem_cons] at notClose undeclared
      rcases beside.performs notClose.1 undeclared.1 performs with ⟨middleToo, performsToo, grown⟩
      rcases induction grown.1 notClose.2 undeclared.2 ok with ⟨afterToo, okToo, besideToo⟩
      refine ⟨afterToo, ?_, besideToo⟩
      rw [List.forM, bind_eq_ok]
      exact ⟨_, middleToo, performsToo, okToo⟩

variable {draft : Draft}

/-- A file is wrapped alike in whatever chunks it arrives. -/
theorem file_beside {arrival other : Arrival} {nothing : PUnit}
    (path : arrival.path = other.path) (content : arrival.content = other.content)
    (phases : first.phase = .element ∨ first.phase = .content)
    (here : first.draft.behindTag.enter .content = draft) (inside : options.Inside draft)
    (sound : first.Sound) (beside : first.Beside second)
    (ok : (options.fileCalls arrival).forM perform first = .ok nothing after) :
    ∃ afterToo, (options.fileCalls other).forM perform second = .ok () afterToo ∧
      after.Beside afterToo := by
  rw [Options.fileCalls, forM_perform_append] at ok
  rcases ok with ⟨filled, ok, last⟩
  rw [forM_perform_append] at ok
  rcases ok with ⟨tagged, tags, payload⟩
  rcases tag_comes phases here inside sound tags with ⟨start, tag⟩
  rcases forM_beside beside (by simp [Options.tagCalls]) (by simp [Options.tagCalls]) tags with
    ⟨taggedToo, tagsToo, besideTag⟩
  have fills : ∃ filledToo, (other.chunks.map options.payload).forM perform taggedToo =
      .ok () filledToo ∧ filled.Beside filledToo := by
    by_cases none : arrival.chunks = []
    · have noneToo : other.chunks = [] := by
        rw [Arrival.chunks_eq_nil, ← content, ← Arrival.chunks_eq_nil, none]
      rw [none] at payload
      simp only [List.map_nil, List.forM, pure_eq_ok, true_and] at payload
      subst payload
      rw [noneToo]
      exact ⟨taggedToo, rfl, besideTag⟩
    · have someToo : other.chunks ≠ [] := by
        rwa [Ne, Arrival.chunks_eq_nil, ← content, ← Arrival.chunks_eq_nil]
      have goes : ∃ room, Writer.advance options.payloadToken tagged = .ok () room := by
        rcases List.exists_cons_of_ne_nil none with ⟨chunk, rest, whole⟩
        rw [whole, List.map_cons, List.forM, bind_eq_ok] at payload
        rcases payload with ⟨_, _, first, _⟩
        exact advance_of_payload first
      rcases goes with ⟨room, goes⟩
      have filling := filling_of_advance start.sound tag.phase tag.noPayload tag.noSpecial
        besideTag.unfailing goes
      have agrees := besideTag.agree
        (Writer.scripted_advance options.payloadToken : Writer.Scripted True _) trivial
      rw [goes] at agrees
      generalize goesToo : Writer.advance options.payloadToken taggedToo = result at agrees
      cases agrees with
      | @ok _ _ roomToo grown =>
          have notClosed : tagged.phase ≠ .closed := by
            rw [← Writer.draft_phase, tag.phase]
            decide
          have notClosedToo : taggedToo.phase ≠ .closed := by
            rw [besideTag.same] at notClosed
            exact notClosed
          rcases forM_payload none notClosed goes filling with ⟨output, runs, still⟩
          rcases forM_payload someToo notClosedToo goesToo (filling.beside grown.1) with
            ⟨outputToo, runsToo, stillToo⟩
          rw [runs] at payload
          cases payload
          rw [arrival.whole, content]
          rw [other.whole] at runsToo
          exact ⟨_, runsToo, beside_filled grown.1 _ still stillToo⟩
  rcases fills with ⟨filledToo, fillsToo, besideFilled⟩
  rcases forM_beside besideFilled (by simp) (by simp) last with ⟨afterToo, lastToo, besideLast⟩
  refine ⟨afterToo, ?_, besideLast⟩
  rw [Options.fileCalls, forM_perform_append]
  refine ⟨filledToo, ?_, lastToo⟩
  rw [forM_perform_append, ← path, ← content]
  exact ⟨taggedToo, tagsToo, fillsToo⟩

theorem files_beside {arrivals others : List Arrival} {nothing : PUnit}
    (same : (arrivals.map fun arrival => (arrival.path, arrival.content)) =
      others.map fun arrival => (arrival.path, arrival.content))
    (phases : first.phase = .element ∨ first.phase = .content)
    (here : first.draft.behindTag.enter .content = draft) (inside : options.Inside draft)
    (sound : first.Sound) (beside : first.Beside second)
    (ok : (arrivals.flatMap options.fileCalls).forM perform first = .ok nothing after) :
    ∃ afterToo, (others.flatMap options.fileCalls).forM perform second = .ok () afterToo ∧
      after.Beside afterToo := by
  induction arrivals generalizing first second others with
  | nil =>
      simp only [List.flatMap_nil, List.forM, pure_eq_ok, true_and] at ok
      subst ok
      rw [List.map_eq_nil_iff.mp same.symm]
      exact ⟨second, rfl, beside⟩
  | cons arrival rest induction =>
      rcases List.map_eq_cons_iff.mp same.symm with ⟨other, more, rfl, alike, same⟩
      rw [Prod.mk.injEq] at alike
      rw [List.flatMap_cons, forM_perform_append] at ok
      rcases ok with ⟨middle, wraps, ok⟩
      have comes := file_comes phases here inside sound wraps
      rcases file_beside alike.1.symm alike.2.symm phases here inside sound beside wraps with
        ⟨middleToo, wrapsToo, besideMiddle⟩
      have content : middle.draft.phase = .content := by rw [comes.draft, inside.phase]
      have stays : middle.draft.behindTag.enter .content = draft := by
        rw [behindTag_of_phase content (by decide), comes.draft, ← inside.phase]
        rfl
      rcases induction same.symm (.inr content) stays comes.sound besideMiddle ok with
        ⟨afterToo, okToo, besideLast⟩
      refine ⟨afterToo, ?_, besideLast⟩
      rw [List.flatMap_cons, forM_perform_append]
      exact ⟨middleToo, wrapsToo, okToo⟩

/-- Whether the calls for a document succeed, and what is received then, depends on the files
only. -/
theorem received_of_chunks {encoder : Option Encoder} {arrivals others : List Arrival}
    (same : (arrivals.map fun arrival => (arrival.path, arrival.content)) =
      others.map fun arrival => (arrival.path, arrival.content))
    (accepts : (options.writer encoder).Accepts (options.documentCalls arrivals)) :
    (options.writer encoder).Accepts (options.documentCalls others) ∧
      ((options.writer encoder).run (options.documentCalls others)).2.release.output.sink.received =
        options.documentBytes encoder
          (others.map fun arrival => (arrival.path, arrival.content)) := by
  have ok : (options.documentCalls arrivals).forM perform (options.writer encoder) = .ok () _ :=
    Writer.forM_perform_eq_ok.mpr ⟨accepts, rfl⟩
  rw [Options.documentCalls, forM_perform_append] at ok
  rcases ok with ⟨filled, ok, closing⟩
  rw [forM_perform_append] at ok
  rcases ok with ⟨opened, opens, fills⟩
  simp only [List.forM, bind_eq_ok, pure_eq_ok] at closing
  rcases closing with ⟨_, ended, ends, _⟩
  rcases opening_comes opens with ⟨rooted, sound, extended⟩
  have unfailing := extended.unfailing ⟨rfl, rfl⟩
  rcases files_beside same (.inl rooted.phase) (by rw [Draft.behindTag, if_pos rooted.phase])
    rooted.inside sound ⟨rfl, unfailing, unfailing⟩ fills with ⟨filledToo, fillsToo, beside⟩
  rcases beside.performs (by simp) (by simp) ends with ⟨endedToo, endsToo, grown⟩
  have all : (options.openingCalls ++ others.flatMap options.fileCalls).forM perform
      (options.writer encoder) = .ok () filledToo :=
    forM_perform_append.mpr ⟨opened, opens, fillsToo⟩
  -- Nothing is open any more when the writer is closed.
  have start : endedToo.phase = .start :=
    (Writer.start_of_finishDocument (Writer.guarded_ok endsToo).2).2.1
  have live : ¬filledToo.Spent := Writer.not_spent_of_endDocument endsToo
  have ready : endedToo.Ready := by
    rcases (ready_of_calls all).resolve_left live with ⟨ready, _⟩
    exact (Writer.finishDocument_ok ready.sound ready.placed (Writer.guarded_ok endsToo).2).ready ready
  have closes : ∃ last, perform .close endedToo = .ok () last := by
    rcases Writer.shut_of_unfailing (show endedToo.phase ≠ .closed by simp [start])
      (by rw [Writer.completed_of_start ready start]; exact grown.1.unfailingToo) with
      ⟨output, shuts, _⟩
    exact ⟨_, shuts⟩
  rcases closes with ⟨last, closes⟩
  have whole : (options.documentCalls others).forM perform (options.writer encoder) =
      .ok () last := by
    rw [Options.documentCalls, forM_perform_append]
    refine ⟨filledToo, all, ?_⟩
    simp only [List.forM, bind_eq_ok, pure_eq_ok]
    exact ⟨_, endedToo, endsToo, _, last, closes, trivial, rfl⟩
  rcases Writer.forM_perform_eq_ok.mp whole with ⟨acceptsToo, leads⟩
  rw [leads]
  exact ⟨acceptsToo, received_of_document all endsToo closes⟩

end Wrap

end XmlStream
