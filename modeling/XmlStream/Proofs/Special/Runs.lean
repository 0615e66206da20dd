import XmlStream.Proofs.Namespaces.Runs
import XmlStream.Proofs.Nesting.Elements
import XmlStream.Proofs.Special.Outer

namespace XmlStream

/-! Through a run of calls, a writer gives the language and the white space as a reader finds them in
its output. -/

open Reading

/-- Attributes are written in one call each, and those that tell the language or the white space are
not asked for by their namespace with another prefix. -/
def Call.Outspoken (call : Call) : Prop :=
  call.Legible ∧ match call with
    | .startAttribute _ => False
    | .attributeString request _ => ¬request.Astray
    | _ => True

theorem Event.outspoken_of_completes {event : Event} (completes : event.completes = true) :
    event.Outspoken := by
  cases event <;> trivial

namespace Draft

variable {draft last : Draft} {outer : StartTag} {text more : String} {sight : Sight}
  {events : List Event}

/-- A draft heeds what a reader has read, and it says outside of elements what the attribute at the
beginning of a fragment says. -/
structure Minds (draft : Draft) (outer : StartTag) (text : String) (sight : Sight) : Prop where
  read : draft.ReadBy text sight
  heeds : draft.Heeds sight
  outside : draft.elements.outside.manner = outer.manner
  spaced : outer.Spaced

theorem Minds.all_spaced (minds : draft.Minds outer text sight) :
    ∀ tag ∈ (nesting text.toList).tags.flatten ++ (openTags text.toList ++ [outer]), tag.Spaced := by
  intro tag member
  rw [← List.append_assoc, List.mem_append, List.mem_singleton] at member
  rcases member with seen | rfl
  · rw [minds.read.openTags, ← minds.read.nesting] at seen
    exact minds.heeds.spaced tag seen
  · exact minds.spaced

theorem Minds.manners (minds : draft.Minds outer text sight) :
    draft.elements.manners = (openTags text.toList ++ [outer]).map StartTag.manner := by
  rw [ElementStack.manners_eq, minds.heeds.manners, minds.outside, minds.read.openTags, List.map_append,
    List.map_singleton]

theorem Minds.language (minds : draft.Minds outer text sight) :
    draft.elements.language = innermost? (openTags text.toList ++ [outer]) languageName := by
  rw [ElementStack.language_eq, minds.manners, List.findSome?_map]
  rfl

theorem Minds.space (minds : draft.Minds outer text sight) :
    draft.elements.space = spaceOf (innermost? (openTags text.toList ++ [outer]) spaceName) := by
  rw [ElementStack.space_eq, minds.manners, List.map_map, spaceOf_innermost? fun tag member =>
    minds.all_spaced tag (List.mem_append_right _ member)]
  rfl

theorem Minds.completes (minds : draft.Minds outer text sight) (noSpecial : draft.special = none)
    (path : draft.Path events more last) (completes : ∀ event ∈ events, event.completes) :
    ∃ seen, last.Minds outer (text ++ more) seen := by
  rcases minds.heeds.path minds.read path
    (fun event member => (event.readable_of_completes (completes event member)).legible)
    (fun event member => event.outspoken_of_completes (completes event member)) with
    ⟨seen, read_, heeds⟩
  have notStarted (asked : AskedName) (relied : Bool) : .startAttribute asked relied ∉ events :=
    fun member => by cases completes _ member
  have notFinish : .finish ∉ events := fun member => by cases completes _ member
  have same := (outside_path noSpecial notStarted notFinish path).2
  exact ⟨seen, read_, heeds, same.trans minds.outside, minds.spaced⟩

end Draft

namespace Writer

variable {before after : Writer} {call : Call} {own : List Event} {outer : StartTag} {text : String}
  {sight : Sight} {origin : OutputBuffer} {request : NameRequest} {value : String}

theorem Owns.outspoken (owns : Owns before call own) (outspoken : call.Outspoken)
    (noSpecial : before.special = none) : ∀ event ∈ own, event.Outspoken := by
  cases owns with
  | startAttribute => exact outspoken.2.elim
  | attributeString request value room pieces went adds =>
      refine List.forall_mem_cons.mpr ⟨outspoken.2, ?_⟩
      rcases adds with rfl | ⟨kind, rfl⟩
      · simp
      · exact List.forall_mem_singleton.mpr trivial
  | elementString request value room opened pieces went opens adds =>
      refine List.forall_mem_cons.mpr ⟨trivial, ?_⟩
      rcases adds with rfl | ⟨text, _, rfl⟩
      · simp
      · exact List.forall_mem_singleton.mpr trivial
  | piece call piece kind gives stands =>
      refine List.forall_mem_singleton.mpr ?_
      cases gives with
      | entity name =>
          have noKind : kind = none := by simpa [noSpecial] using stands
          exact noKind
      | _ => trivial
  | qualified localName uri kind =>
      exact List.forall_mem_cons.mpr ⟨trivial, List.forall_mem_singleton.mpr trivial⟩
  | query | flush | noText | endElement | fullEndElement | endAttribute => simp
  | _ => exact List.forall_mem_singleton.mpr trivial

theorem Owns.finishes (owns : Owns before call own) (member : .finish ∈ own) :
    call = .endDocument := by
  cases owns with
  | finish => rfl
  | attributeString _ _ _ _ _ adds => rcases adds with rfl | ⟨_, rfl⟩ <;> simp at member
  | elementString _ _ _ _ _ _ _ adds => rcases adds with rfl | ⟨_, _, rfl⟩ <;> simp at member
  | _ => simp at member

/-- The attribute at the beginning of a fragment, as that of a tag around all of its elements, after
one more call. It lasts to the end of the fragment. -/
def surround (writer : Writer) (outer : StartTag) : Call → StartTag
  | .attributeString request value =>
    if writer.phase = .start then
      ({ name := [] } : StartTag).add (writer.attributeName request) (value.toList.map .character)
    else outer
  | .endDocument => { name := [] }
  | _ => outer

def surroundings (writer : Writer) (outer : StartTag) : List Call → StartTag
  | [] => outer
  | call :: calls => (writer.step call).2.surroundings (writer.surround outer call) calls

theorem surround_of_other (outer : StartTag)
    (notAttribute : ∀ request value, call ≠ .attributeString request value)
    (notEnd : call ≠ .endDocument) : before.surround outer call = outer := by
  cases call with
  | attributeString request value => exact absurd rfl (notAttribute request value)
  | endDocument => exact absurd rfl notEnd
  | _ => rfl

theorem inside_of_attributeString {nothing : Unit} (ready : before.Ready)
    (notStart : before.phase ≠ .start)
    (ok : perform (.attributeString request value) before = .ok nothing after) : 0 < before.depth := by
  simp only [perform, bind_eq_ok] at ok
  rcases ok with ⟨_, opened, opens, _⟩
  rcases openAttribute_ok ready.sound (guarded_ok opens).2 with ⟨room, went, _⟩
  rcases advance_ok went with ⟨next, _, _, _, leads, _⟩
  refine ready.placed.inside ?_
  by_cases inValue : before.phase = .attribute
  · exact .inr inValue
  · rcases Draft.next?_startAttribute inValue (next?_of_nextPhase? (by simp) leads) with
      ⟨inTag, _⟩ | ⟨_, start, _⟩
    · exact .inl inTag
    · exact absurd start notStart

/-- No attribute is begun in a writer that heeds what a reader reads. -/
structure Attentive (writer : Writer) (outer : StartTag) (text : String) (sight : Sight) : Prop where
  ready : writer.Ready
  noSpecial : writer.special = none
  minds : writer.draft.Minds outer text sight

/-- What a call leaves for what is said outside of elements: it is said by an attribute that the call
writes there, it is over with the document, or it is as before. -/
theorem outer_perform {nothing : Unit} {events : List Event} {more : String}
    (attends : before.Attentive outer text sight) (outspoken : call.Outspoken)
    (readyAfter : after.Ready) (owns : Owns before call own)
    (path : before.draft.Path events more after.draft) (owned : events.filter (!·.completes) = own)
    (ok : perform call before = .ok nothing after) :
    after.special = none ∧
      after.elements.outside.manner = (before.surround outer call).manner ∧
      (before.surround outer call).Spaced := by
  by_cases isAttribute : ∃ request value, call = .attributeString request value
  · rcases isAttribute with ⟨request, value, rfl⟩
    rcases phase_of_attributeString attends.ready ok with ⟨notAttribute, notTop⟩
    refine ⟨readyAfter.placed.special_eq_none notAttribute notTop, ?_⟩
    rw [surround]
    split
    · rename_i start
      rcases outerAttribute_ok attends.ready start ok with ⟨_, _, writes⟩
      have read_ := attends.minds.read
      rcases writes.manner (attends.ready.layered.start start).1 read_.enabled read_.lawful
        read_.wholesome.fit outspoken.1 outspoken.2 with ⟨manner, space⟩
      refine ⟨manner, (StartTag.spaced_bare []).add fun named => ?_⟩
      rw [valueText_map_character, String.ofList_toList]
      exact space named
    · rename_i notStart
      have inside := inside_of_attributeString attends.ready notStart ok
      have spares := local_perform rfl (by simp) ok
      rw [spares.outside inside]
      exact ⟨attends.minds.outside, attends.minds.spaced⟩
  by_cases isEnd : call = .endDocument
  · subst isEnd
    have start : after.phase = .start := (start_of_finishDocument (guarded_ok ok).2).2.1
    have none : after.special = none :=
      readyAfter.placed.special_eq_none (by simp [start]) (by simp [start])
    have nothing : after.elements = {} := (readyAfter.layered.start start).1
    rw [nothing]
    exact ⟨none, rfl, StartTag.spaced_bare []⟩
  -- All other calls neither begin an attribute nor end a document.
  have mine {event : Event} (member : event ∈ events) (notCompletion : event.completes = false) :
      event ∈ own := by
    rw [← owned]
    exact List.mem_filter.mpr ⟨member, by simp [notCompletion]⟩
  rw [surround_of_other outer (fun request value same => isAttribute ⟨request, value, same⟩) isEnd]
  have notStarted (asked : AskedName) (relied : Bool) : .startAttribute asked relied ∉ events := by
    intro member
    rcases owns.asked (mine member rfl) with rfl | ⟨value, rfl⟩
    · exact outspoken.2
    · exact isAttribute ⟨_, _, rfl⟩
  have notFinish : .finish ∉ events := fun member => isEnd (owns.finishes (mine member rfl))
  rcases Draft.outside_path attends.noSpecial notStarted notFinish path with ⟨none, same⟩
  exact ⟨none, same.trans attends.minds.outside, attends.minds.spaced⟩

theorem Attentive.perform {nothing : Unit} (attends : before.Attentive outer text sight)
    (stays : call ≠ .close) (outspoken : call.Outspoken)
    (ok : perform call before = .ok nothing after) :
    ∃ more seen, before.output.Extends more after.output ∧
      after.Attentive (before.surround outer call) (text ++ more) seen := by
  rcases perform_ok attends.ready stays ok with ⟨own, owns, does⟩
  have readyAfter := does.ready attends.ready
  rcases does with ⟨events, more, runs, owned⟩
  have unresolved (name : String) (nsPrefix : Option String) (_ : call = .entity name)
      (declares : before.special.map (·.kind) = some (.declaration nsPrefix)) :
      predefined? name.toList = none := by
    simp [attends.noSpecial] at declares
  have legible := all_of_own owned (owns.legible outspoken.1 unresolved) fun event completes =>
    (event.readable_of_completes completes).legible
  have speaks := all_of_own owned (owns.outspoken outspoken attends.noSpecial) fun event =>
    event.outspoken_of_completes
  rcases attends.minds.heeds.path attends.minds.read runs.path legible speaks with
    ⟨seen, read_, heeds⟩
  rcases outer_perform attends outspoken readyAfter owns runs.path owned ok with
    ⟨none, outside, spaced⟩
  exact ⟨more, seen, runs.output, readyAfter, none, read_, heeds, outside, spaced⟩

/-- A writer has been attentive since its origin, up to where it was closed, if it is closed. -/
inductive Tracked (origin : OutputBuffer) (outer : StartTag) (writer : Writer) : Prop
  | live (text : String) (sight : Sight) (extended : origin.Extends text writer.output)
      (steady : writer.output.Steady origin.sink.canFlush)
      (attends : writer.Attentive outer text sight)
  | closed (text : String) (sight : Sight) (draft : Draft) (gets : origin.Gets text writer.output)
      (closed : writer.phase = .closed) (elements : writer.elements = draft.elements)
      (minds : draft.Minds outer text sight)

theorem Tracked.perform {nothing : Unit} (tracked : Tracked origin outer before)
    (outspoken : call.Outspoken) (ok : perform call before = .ok nothing after) :
    Tracked origin (before.surround outer call) after := by
  cases tracked with
  | closed text sight draft gets closed elements minds =>
      rcases closed_of_perform closed ok with ⟨idle, closedToo, same, still⟩
      have kept : before.surround outer call = outer := by
        rcases idle with idle | rfl
        · cases idle <;> rfl
        · rfl
      rw [kept]
      exact .closed text sight draft (same ▸ gets) closedToo (still.trans elements) minds
  | live text sight extended steady attends =>
      by_cases isClose : call = .close
      · subst isClose
        have live : ¬before.Spent := not_or.mpr attends.minds.read.live
        rcases concludes_shut attends.ready live steady ok with
          ⟨events, more, last, concludes, finishes, still⟩
        rcases attends.minds.completes attends.noSpecial concludes.path concludes.events with
          ⟨seen, minds⟩
        exact .closed _ seen last (OutputBuffer.gets_of_finish (extended.trans concludes.output) finishes)
          (shut_ok ok) (still.trans concludes.elements) minds
      · rcases attends.perform isClose outspoken ok with ⟨more, seen, grown, attendsAfter⟩
        have performs := ((scripted_perform isClose).mono False.elim).endsIn
          OutputBuffer.Steady.order steady
        rw [ok] at performs
        exact .live _ seen (extended.trans grown) performs attendsAfter

theorem Tracked.run {calls : List Call} (tracked : Tracked origin outer before)
    (accepts : before.Accepts calls) (outspoken : ∀ call ∈ calls, call.Outspoken) :
    Tracked origin (before.surroundings outer calls) (before.run calls).2 := by
  induction calls generalizing before outer with
  | nil => exact tracked
  | cons call rest induction =>
      rcases accepts_cons.mp accepts with ⟨ok, acceptsRest⟩
      have next := tracked.perform (outspoken call List.mem_cons_self) (step_ok ok)
      exact induction next acceptsRest fun other member =>
        outspoken other (List.mem_cons_of_mem _ member)

theorem tracked_create {settings : Settings} (limit : Option Nat) (canFlush : Bool)
    (encoder : Option Encoder) (enabled : settings.namespaces = true)
    (indent : Terms.plain.Indents settings.indentChar) :
    Tracked { sink := { limit, canFlush }, encoder } { name := [] }
      (create { sink := { limit, canFlush }, encoder } settings) := by
  have followed := followed_create { sink := { limit, canFlush }, encoder } enabled indent
  have heeds : (create { sink := { limit, canFlush }, encoder } settings).draft.Heeds
      ⟨.between, {}⟩ := by
    refine ⟨rfl, fun tag member => ?_, trivial⟩
    simp [Sight.tags] at member
  exact .live "" ⟨.between, {}⟩ (.refl _) (steady_create limit canFlush encoder)
    ⟨ready_create _ _, rfl, followed.toReadBy, heeds, rfl, StartTag.spaced_bare []⟩

theorem Tracked.adds {nothing : Unit} (tracked : Tracked origin outer before)
    (start : before.phase = .start) (outspoken : (Call.attributeString request value).Outspoken)
    (ok : Writer.perform (.attributeString request value) before = .ok nothing after) :
    before.AddsAttribute (before.attributeName request) value after ∧
      (before.attributeName request = spaceName → (spaceHandling? value).isSome = true) := by
  cases tracked with
  | closed _ _ _ _ closed =>
      rw [start] at closed
      cases closed
  | live text sight extended steady attends =>
      have read_ := attends.minds.read
      have fit := read_.wholesome.fit
      rcases outerAttribute_ok attends.ready start ok with ⟨_, _, writes⟩
      have manner := writes.manner (attends.ready.layered.start start).1 read_.enabled read_.lawful fit
        outspoken.1 outspoken.2
      exact ⟨writes.adds fit outspoken.1, manner.2⟩

/-- The language and the handling of white space that a writer gives are told by the innermost start
tag in its output that tells them, of those that are open, or else by an attribute at the beginning of
the fragment. All attributes that tell what white space is for ask for one of the two ways to handle
it. -/
theorem special_answers_of_run (limit : Option Nat) (canFlush : Bool) (encoder : Option Encoder)
    (settings : Settings) (calls : List Call) (enabled : settings.namespaces = true)
    (indent : Terms.plain.Indents settings.indentChar)
    (accepts : (create { sink := { limit, canFlush }, encoder } settings).Accepts calls)
    (outspoken : ∀ call ∈ calls, call.Outspoken) :
    let output : OutputBuffer := { sink := { limit, canFlush }, encoder }
    let writer := create output settings
    let after := (writer.run calls).2
    ∃ text : String,
      let tags := openTags text.toList ++ [writer.surroundings { name := [] } calls]
      output.Gets text after.output ∧
      after.answer .language = .language (innermost? tags languageName) ∧
      after.answer .space = .space (spaceOf (innermost? tags spaceName)) ∧
      (∀ tag ∈ (nesting text.toList).tags.flatten ++ tags, tag.Spaced) ∧
      ∀ (earlier : List Call) (request : NameRequest) (value : String) (later : List Call),
        calls = earlier ++ .attributeString request value :: later →
          let before := (writer.run earlier).2
          before.phase = .start →
            before.AddsAttribute (before.attributeName request) value
                (before.step (.attributeString request value)).2 ∧
              (before.attributeName request = spaceName →
                (spaceHandling? value).isSome = true) := by
  intro output writer after
  have created : Tracked output { name := [] } writer :=
    tracked_create limit canFlush encoder enabled indent
  have answers : ∃ (text : String) (draft : Draft) (sight : Sight), output.Gets text after.output ∧
      after.elements = draft.elements ∧
      draft.Minds (writer.surroundings { name := [] } calls) text sight := by
    cases created.run accepts outspoken with
    | live text sight extended steady attends =>
        exact ⟨text, _, sight, extended.gets, rfl, attends.minds⟩
    | closed text sight draft gets closed elements minds =>
        exact ⟨text, draft, sight, gets, elements, minds⟩
  rcases answers with ⟨text, draft, sight, gets, same, minds⟩
  refine ⟨text, gets, ?_, ?_, minds.all_spaced, ?_⟩
  · rw [answer, same, minds.language]
  · rw [answer, same, minds.space]
  · intro earlier request value later whole before start
    -- The calls before the attribute are a run of their own.
    rw [whole] at accepts outspoken
    rcases accepts_append.mp accepts with ⟨acceptsEarlier, acceptsLater⟩
    have ok := step_ok (accepts_cons.mp acceptsLater).1
    have trackedEarlier := created.run acceptsEarlier fun call member =>
      outspoken call (List.mem_append_left _ member)
    exact trackedEarlier.adds start (outspoken _ (List.mem_append_right _ List.mem_cons_self)) ok

theorem special_answers_of_run_restored :
    let calls : List Call :=
      [.attributeString { nsPrefix := some "xml", localName := "lang" } "de",
        .startElement { localName := "a" },
        .attributeString { localName := "space", uri := some Namespace.xml } " preserve ",
        .startElement { localName := "b" },
        .attributeString { nsPrefix := some "xml", localName := "lang", uri := some Namespace.xml } "en",
        .endElement]
    let output : OutputBuffer := { sink := {} }
    let writer := create output
    let after := (writer.run calls).2
    writer.Accepts calls ∧ after.output.delivered =
        "xml:lang=\"de\"<a xml:space=\" preserve \"><b xml:lang=\"en\" />".toUTF8 ∧
      after.answer .language = .language (some "de") ∧ after.answer .space = .space .preserve ∧
      ∃ text : String,
        let tags := openTags text.toList ++ [writer.surroundings { name := [] } calls]
        output.Gets text after.output ∧
        after.answer .language = .language (innermost? tags languageName) ∧
        after.answer .space = .space (spaceOf (innermost? tags spaceName)) ∧
        (∀ tag ∈ (nesting text.toList).tags.flatten ++ tags, tag.Spaced) ∧
        ∀ (earlier : List Call) (request : NameRequest) (value : String) (later : List Call),
          calls = earlier ++ .attributeString request value :: later →
            let before := (writer.run earlier).2
            before.phase = .start →
              before.AddsAttribute (before.attributeName request) value
                  (before.step (.attributeString request value)).2 ∧
                (before.attributeName request = spaceName →
                  (spaceHandling? value).isSome = true) := by
  intro calls output writer after
  have accepts : writer.Accepts calls := by
    unfold Accepts
    decide +kernel
  have outspoken : ∀ call ∈ calls, call.Outspoken := by
    simp only [calls, List.mem_cons, List.not_mem_nil, or_false, forall_eq_or_imp, forall_eq]
    refine ⟨⟨?_, ?_⟩, ⟨?_, trivial⟩, ⟨?_, ?_⟩, ⟨?_, trivial⟩, ⟨?_, ?_⟩, trivial, trivial⟩
    all_goals
      first
        | exact NameRequest.meets_plain (by decide +kernel) (by decide +kernel)
        | (show ¬NameRequest.Astray _; decide)
  have delivered : after.output.delivered =
      "xml:lang=\"de\"<a xml:space=\" preserve \"><b xml:lang=\"en\" />".toUTF8 := by
    decide +kernel
  have language : after.answer .language = .language (some "de") := by decide +kernel
  have space : after.answer .space = .space .preserve := by decide +kernel
  have indent : Terms.plain.Indents ({} : Settings).indentChar := ⟨by decide, by decide⟩
  refine ⟨accepts, delivered, language, space, ?_⟩
  clear_value calls
  exact special_answers_of_run none true none {} calls rfl indent accepts outspoken

/-- An attribute that is asked for by the namespace of XML and with the prefix of its element gets the
prefix `xml`, but it is not taken for what its name says. -/
theorem astray_language :
    let calls : List Call :=
      [.startElement { nsPrefix := some "p", localName := "root", uri := some "urn:p" },
        .attributeString { nsPrefix := some "p", localName := "lang", uri := some Namespace.xml } "en"]
    let writer := create { sink := {} }
    let after := (writer.run calls).2
    let text := "<p:root xml:lang=\"en\""
    writer.Accepts calls ∧ after.output.delivered = text.toUTF8 ∧
      innermost? (openTags text.toList) languageName = some "en" ∧
      after.answer .language = .language none := by
  intro calls writer after text
  refine ⟨?_, by decide +kernel, by decide +kernel, by decide +kernel⟩
  unfold Accepts
  decide +kernel

end Writer

end XmlStream
