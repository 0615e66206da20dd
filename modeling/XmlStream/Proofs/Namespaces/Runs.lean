import XmlStream.Proofs.Namespaces.Followed

namespace XmlStream

/-! Runs of calls that a reader follows, up to where the writer is closed. -/

open Reading

namespace Writer

variable {before after : Writer} {call : Call} {requests : Requests} {sight : Sight}
  {origin : OutputBuffer} {start : String} {Holds : Draft → Requests → Sight → Prop}

/-- A reader that has read a start has followed a writer from its origin, up to where that was closed,
if it is closed. -/
inductive Told (origin : OutputBuffer) (start : String) (Holds : Draft → Requests → Sight → Prop)
    (requests : Requests) (writer : Writer) : Prop
  | live (text : String) (sight : Sight) (extended : origin.Extends text writer.output)
      (steady : writer.output.Steady origin.sink.canFlush) (ready : writer.Ready)
      (followed : writer.draft.Followed (start ++ text) requests sight)
      (holds : Holds writer.draft requests sight)
  | closed (text : String) (sight : Sight) (draft : Draft) (gets : origin.Gets text writer.output)
      (closed : writer.phase = .closed) (followed : draft.Followed (start ++ text) requests sight)
      (holds : Holds draft requests sight)

theorem ask_of_idle (idle : call.Idle ∨ call = .close) (writer : Writer) (requests : Requests) :
    writer.ask requests call = requests := by
  rcases idle with idle | rfl
  · cases idle <;> rfl
  · rfl

theorem Told.perform {nothing : Unit} (kept : Draft.Kept Holds)
    (told : Told origin start Holds requests before) (reads : before.Reads call)
    (ok : perform call before = .ok nothing after) :
    Told origin start Holds (before.ask requests call) after := by
  cases told with
  | closed text sight draft gets closed followed holds =>
      rcases closed_of_perform closed ok with ⟨idle, closedToo, same, _⟩
      rw [ask_of_idle idle]
      exact .closed text sight draft (same ▸ gets) closedToo followed holds
  | live text sight extended steady ready followed holds =>
      by_cases isClose : call = .close
      · subst isClose
        have live : ¬before.Spent := not_or.mpr followed.live
        rcases concludes_shut ready live steady ok with ⟨events, more, last, concludes, finishes, _⟩
        rcases followed_completes kept followed holds concludes.path concludes.events with
          ⟨seen, followedLast, holdsLast⟩
        rw [String.append_assoc] at followedLast
        exact .closed _ seen last (OutputBuffer.gets_of_finish (extended.trans concludes.output) finishes)
          (shut_ok ok) followedLast holdsLast
      · rcases followed_perform kept ready followed holds isClose reads ok with
          ⟨more, seen, grown, readyAfter, followedAfter, holdsAfter⟩
        have performs := ((scripted_perform isClose).mono False.elim).endsIn
          OutputBuffer.Steady.order steady
        rw [ok] at performs
        rw [String.append_assoc] at followedAfter
        exact .live _ seen (extended.trans grown) performs readyAfter followedAfter holdsAfter

theorem Told.run {calls : List Call} (kept : Draft.Kept Holds)
    (told : Told origin start Holds requests before) (accepts : before.Accepts calls)
    (reads : before.ReadsAll calls) :
    Told origin start Holds (before.asks requests calls) (before.run calls).2 := by
  induction calls generalizing before requests with
  | nil => exact told
  | cons call rest induction =>
      rcases accepts_cons.mp accepts with ⟨ok, acceptsRest⟩
      exact induction (told.perform kept reads.1 (step_ok ok)) acceptsRest reads.2

theorem account_create (output : OutputBuffer) (settings : Settings) :
    (create output settings).draft.Account {} ⟨.between, {}⟩ :=
  .between _ (fun _ => rfl) .outside .nil

theorem readWith_create {settings : Settings} {indents : Char → Prop} (output : OutputBuffer)
    (enabled : settings.namespaces = true) (indent : indents settings.indentChar) :
    (create output settings).draft.ReadWith indents "" ⟨.between, {}⟩ := by
  have ready := ready_create output settings
  refine ⟨?_, ?_, ?_, ready.placed, ?_, ?_, ready.layered, enabled, ?_⟩
  · exact ⟨by simp [create], by simp [create]⟩
  · exact .between (by simp [create]) (by simp [create])
  · rfl
  · exact Draft.wholesome_of_start ready.layered ready.placed rfl indent
  · intro name member
    simp [Draft.names, create] at member
  · intro binding member
    have scope : (create output settings).draft.scope = [Draft.xmlBinding] := rfl
    rw [scope, List.mem_singleton] at member
    subst member
    constructor <;> decide

theorem followed_create {settings : Settings} (output : OutputBuffer)
    (enabled : settings.namespaces = true) (indent : Terms.plain.Indents settings.indentChar) :
    (create output settings).draft.Followed "" {} ⟨.between, {}⟩ :=
  ⟨⟨readWith_create output enabled indent⟩, account_create output settings⟩

theorem told_create {settings : Settings} (limit : Option Nat) (canFlush : Bool)
    (encoder : Option Encoder) (enabled : settings.namespaces = true)
    (indent : Terms.plain.Indents settings.indentChar) :
    Told { sink := { limit, canFlush }, encoder } "" (fun _ _ _ => True) {}
      (create { sink := { limit, canFlush }, encoder } settings) :=
  .live "" ⟨.between, {}⟩ (.refl _) (steady_create limit canFlush encoder) (ready_create _ _)
    (followed_create _ enabled indent) trivial

theorem Told.since {able : Bool}
    (steady : after.output.Steady able) (ready : after.Ready)
    (followed : after.draft.Followed start requests sight) (holds : Holds after.draft requests sight) :
    Told after.output start Holds requests after := by
  refine .live "" sight (.refl _) ⟨rfl, steady.room⟩ ready ?_ holds
  rwa [String.append_empty]

theorem Told.ends (told : Told origin start Holds requests after) :
    ∃ (back : String) (draft : Draft) (sight : Sight), origin.Gets back after.output ∧
      draft.Followed (start ++ back) requests sight ∧ Holds draft requests sight := by
  cases told with
  | live text sight extended _ _ followed holds =>
      exact ⟨text, _, sight, extended.gets, followed, holds⟩
  | closed text sight draft gets _ followed holds =>
      exact ⟨text, draft, sight, gets, followed, holds⟩

theorem told_of_run {limit : Option Nat} {canFlush : Bool} {encoder : Option Encoder}
    {settings : Settings} {calls : List Call} (enabled : settings.namespaces = true)
    (indent : Terms.plain.Indents settings.indentChar)
    (accepts : (create { sink := { limit, canFlush }, encoder } settings).Accepts calls)
    (reads : (create { sink := { limit, canFlush }, encoder } settings).ReadsAll calls) :
    let output : OutputBuffer := { sink := { limit, canFlush }, encoder }
    let writer := create output settings
    ∃ (text : String) (draft : Draft) (sight : Sight), output.Gets text (writer.run calls).2.output ∧
      draft.Followed text (writer.asks {} calls) sight := by
  intro output writer
  have told : Told output "" (fun _ _ _ => True) (writer.asks {} calls) (writer.run calls).2 :=
    (told_create limit canFlush encoder enabled indent).run (fun _ _ _ => id) accepts reads
  rcases told.ends with ⟨text, draft, sight, gets, followed, _⟩
  rw [String.empty_append] at followed
  exact ⟨text, draft, sight, gets, followed⟩

end Writer

end XmlStream
