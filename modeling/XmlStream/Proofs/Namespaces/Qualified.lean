import XmlStream.Proofs.Namespaces.Awaited
import XmlStream.Proofs.Namespaces.Courses

namespace XmlStream

/-! Qualified names in text and in the values of attributes. The prefix of such a name stands for its
namespace where the name is read: among the tags around it, or in the start tag that its attribute
belongs to. -/

open Reading

namespace Reading

/-- The start tags of the elements that contain a place in a text, the innermost one first. A place in a
start tag belongs to the element of that tag, if the tag is completed. -/
def enclosing? (front back : List Char) : Option (List StartTag) :=
  match (read (.text .content) front).1 with
  | .text .content => some (nesting front).opened
  | _ => (nesting (front ++ back)).tags[(nesting front).tags.length]?

/-- A value is read in its own tag, and text in the tags around it. -/
example :
    let text := "<a xmlns='u'>b<c d='e' xmlns='v'>".toList
    [13, 20].map (fun place => (enclosing? (text.take place) (text.drop place)).bind (uriOf? · none)) =
      [some "u", some "v"] := by
  decide +kernel

end Reading

namespace Draft

variable {draft middle after : Draft} {text more localName uri : String} {given : Option String}
  {requests : Requests} {sight seen : Sight} {kind : Option SpecialKind}

/-! ## Names in text -/

theorem escaped_of_isNCName (position : TextPosition) (named : Name.isNCName text = true) :
    position.escaped text = text :=
  String.toList_inj.mp (Name.toList_escaped_of_isNCName position named)

theorem escaped_colon (position : TextPosition) : position.escaped ":" = ":" := by
  rcases position with _ | ⟨_ | _⟩ <;> rfl

theorem text_of_write (named : Name.isNCName localName = true)
    (step : draft.Step (.write (.text localName) kind) text after) : text = localName := by
  cases step with
  | write _ next => exact escaped_of_isNCName (draft.position next) named

theorem Shows.of_qualify (shows_ : draft.Shows (.qualify uri kind) sight after seen) :
    seen.nesting = sight.nesting ∧ (seen.view = .between ↔ sight.view = .between) := by
  cases shows_ with
  | between | qualify => simp
  | fill => simp

theorem Undeclaring.leans (undeclaring : draft.Undeclaring) (same : draft.top.defaultUri = uri) :
    draft.Leans uri none := by
  by_cases settled : draft.settled
  · exact .pledged none ⟨settled, congrArg some same⟩
  · exact .inherited settled same (undeclaring none)

theorem Followed.inside (followed : draft.Followed text requests sight)
    (inTag : sight.view ≠ .between) : 0 < draft.depth := by
  cases followed.account with
  | between => exact absurd rfl inTag
  | tag _ _ _ _ tells => exact tells.inside
  | value _ _ _ _ _ _ _ tells => exact tells.inside

theorem Followed.qualify (followed : draft.Followed text requests sight)
    (step : draft.Step (.qualify uri kind) more after)
    (followedToo : after.Followed (text ++ more) requests seen) :
    ∃ nsPrefix, more = nsPrefix ++ ":" ∧ after.means? (some nsPrefix) = some uri ∧
      (seen.view ≠ .between → after.Leans uri (some nsPrefix)) := by
  cases step with
  | qualify _ nsPrefix next found closed enabled nonEmpty notDefault leads finds =>
      have lawful : Lawful (draft.enterText next).scope := by
        rw [enterText_scope]
        exact followed.lawful
      have bound := (finds.keeps lawful).2.2
      have named : Name.isNCName nsPrefix = true :=
        (finds.fit (followed.wholesome.fit.enterText next) trivial).2
      refine ⟨nsPrefix, by rw [escaped_of_isNCName _ named, escaped_colon], ?_, fun inTag => ?_⟩
      · refine means?_of_uri? ?_
        split <;> exact bound
      · have frames := finds.frames_noted next
        have phase := frames.phase.trans (draft.enterText_phase next)
        have inValue : next = .attribute := by
          by_contra other
          refine inTag (followedToo.sees.of_between (fun isElement => ?_) fun isValue => ?_).2
          · exact Writer.next?_ne_element (.inl rfl) leads (phase.symm.trans isElement)
          · exact other (phase.symm.trans isValue)
        have inside : 0 < found.depth := by
          have insideToo : 0 < draft.depth := by
            rw [← frames.depth.trans (draft.enterText_depth next)]
            exact followedToo.inside inTag
          rwa [finds.frames.depth, draft.enterText_depth next]
        rw [if_pos inValue]
        have keeps : (found.notePrefix nsPrefix).Keeps
            ((found.notePrefix nsPrefix).capture (nsPrefix ++ ":")) := .of_eq rfl rfl
        exact .pledged _ (keeps _ _ (pledges_notePrefix inside (means?_of_uri? bound)))

/-! ## Where names are read -/

theorem Followed.resolves (followed : draft.Followed text requests sight)
    (between : sight.view = .between) (means : draft.means? given = some uri) :
    Resolves sight.nesting.opened given uri := by
  cases followed.account with
  | between nesting start agree honoured =>
      rw [Resolves, means_between agree followed.layered.outside, means]
  | tag | value => cases between

theorem Followed.awaits (followed : draft.Followed text requests sight)
    (inTag : sight.view ≠ .between) (leans : draft.Leans uri given) :
    draft.Awaits requests given uri requests sight ∧
      sight.nesting.tags.length = requests.earlier.length := by
  cases followed.account with
  | between => exact absurd rfl inTag
  | tag asked _ _ latest _ _ honoured =>
      exact ⟨.within asked [] inTag latest rfl (by rw [latest, List.append_nil]) leans,
        honoured.length_eq.symm⟩
  | value asked name _ _ _ _ latest _ _ _ _ honoured =>
      exact ⟨.within (asked.add name) [] inTag latest rfl (by rw [latest, List.append_nil]) leans,
        honoured.length_eq.symm⟩

/-- At the end of a text a prefix, or its absence, stands for a namespace: among the tags around the
end, or, if this is in a value, in the start tag when that is complete. -/
inductive StandsAt (draft : Draft) (front : String) (before : Requests) (given : Option String)
    (uri : String) (requests : Requests) (sight : Sight) : Prop
  | content (place : (read (.text .content) front.toList).1 = .text .content)
      (resolves : Resolves (nesting front.toList).opened given uri)
  | value (place : (read (.text .content) front.toList).1 ≠ .text .content)
      (count : (nesting front.toList).tags.length = before.earlier.length)
      (awaits : draft.Awaits before given uri requests sight)

theorem kept_standsAt (front : String) (before : Requests) (given : Option String) (uri : String) :
    Kept fun draft => draft.StandsAt front before given uri := by
  intro draft after text requests sight seen event followed readable shows_ stands
  cases stands with
  | content place resolves => exact .content place resolves
  | value place count awaits =>
      exact .value place count (kept_awaits before given uri followed readable shows_ awaits)

theorem content_iff {quote : Quote} {phase : Phase} {place : Place} {view : View}
    (sees : Sees quote phase place view) : place = .text .content ↔ view = .between := by
  cases sees with
  | between | value => simp
  | tag inTag => cases inTag <;> simp

theorem Followed.standsAt {front : String} (followed : draft.Followed front requests sight)
    (followedToo : after.Followed text requests seen)
    (same : seen.nesting = sight.nesting ∧ (seen.view = .between ↔ sight.view = .between))
    (means : after.means? given = some uri)
    (leans : seen.view ≠ .between → after.Leans uri given) :
    after.StandsAt front requests given uri requests seen := by
  have place := content_iff followed.sees
  by_cases between : seen.view = .between
  · refine .content (place.mpr (same.2.mp between)) ?_
    rw [← followed.nesting, ← same.1]
    exact followedToo.resolves between means
  · rcases followedToo.awaits between (leans between) with ⟨awaits, count⟩
    refine .value (fun content => between (same.2.mpr (place.mp content))) ?_ awaits
    rw [← followed.nesting, ← same.1, count]

theorem Followed.write {front : String} {before : Requests} (named : Name.isNCName localName = true)
    (followed : draft.Followed text requests sight)
    (stands : draft.StandsAt front before given uri requests sight)
    (path : draft.Path [.write (.text localName) kind] more after) :
    more = localName ∧ ∃ seen, after.Followed (text ++ localName) requests seen ∧
      after.StandsAt front before given uri requests seen := by
  cases path with
  | cons step rest =>
      cases rest
      have readable : (Event.write (.text localName) kind).Readable := trivial
      have whole := text_of_write named step
      subst whole
      rcases followed.step readable step with ⟨seen, shows_, followedToo⟩
      refine ⟨String.append_empty, seen, followedToo, ?_⟩
      exact kept_standsAt front before given uri followed readable shows_ stands

theorem StandsAt.means {front back : String} {before : Requests} {tags : List StartTag}
    (stands : draft.StandsAt front before given uri requests sight)
    (followed : draft.Followed (front ++ back) requests sight)
    (found : enclosing? front.toList back.toList = some tags) :
    Resolves tags given uri ∨ given = none ∧ before.Redeclares requests := by
  cases stands with
  | content place resolves =>
      simp only [enclosing?, place, Option.some.injEq] at found
      exact .inl (found ▸ resolves)
  | value place count awaits =>
      have found : sight.nesting.tags[before.earlier.length]? = some tags := by
        rw [followed.nesting, ← count, String.toList_append]
        unfold enclosing? at found
        split at found
        · contradiction
        · exact found
      cases awaits with
      | redeclared noPrefix redeclares => exact .inr ⟨noPrefix, redeclares⟩
      | complete complete there resolves =>
          rw [found] at there
          cases there
          exact .inl resolves
      | within tag more inTag began earlier latest leans =>
          have count := (followed.awaits inTag leans).2
          rw [earlier] at count
          exact absurd (List.getElem?_eq_some_iff.mp found).1 (by omega)

end Draft

namespace Writer

variable {before after : Writer} {text localName uri : String} {requests : Requests} {sight : Sight}

theorem followed_qualifiedName {nothing : Unit} (ready : before.Ready)
    (undeclaring : before.draft.Undeclaring) (followed : before.draft.Followed text requests sight)
    (nonEmpty : uri ≠ "")
    (ok : perform (.qualifiedName localName (some uri)) before = .ok nothing after) :
    ∃ lead given seen, before.output.Extends lead (before.roomFor .text).output ∧
      (before.roomFor .text).output.Extends (writtenName given localName) after.output ∧
      after.draft.Followed (text ++ lead ++ writtenName given localName) requests seen ∧
      after.draft.StandsAt (text ++ lead) requests given uri requests seen := by
  rcases putQualifiedName_goes ready.sound (guarded_ok ok).2 with
    ⟨usable, room, draft, went, written⟩
  have enabled : before.settings.namespaces = true := followed.enabled
  rw [enabled] at usable
  have named := Name.isNCName_of_isUsable usable
  rw [roomFor_of_ok went]
  have arrives {own : Option SpecialKind → List Event} (goes : before.Goes room draft own after) :
      ∃ lead place, before.output.Extends lead room.output ∧ draft.Undeclaring ∧
        draft.Followed (text ++ lead) requests place := by
    rcases goes.makes with ⟨events, lead, path, completes, output⟩
    have idle : Draft.Kept fun _ _ _ => True := fun _ _ _ => id
    rcases followed_completes idle followed trivial path completes with ⟨place, followedThere, _⟩
    refine ⟨lead, place, output, ?_, followedThere⟩
    refine undeclaring.path followed.enabled path
      (fun event member => (event.readable_of_completes (completes event member)).legible.ne_namespaces)
      ?_
    intro asked relied member
    simpa [Event.completes] using completes _ member
  rcases written with ⟨goes, default⟩ | ⟨_, wanted, goes⟩
  · rcases arrives goes with ⟨lead, place, output, undeclaringThere, followedThere⟩
    rcases goes.does with ⟨more, path, outputToo⟩
    have leans := undeclaringThere.leans (default uri (nonEmpty?_some nonEmpty))
    have stands := followedThere.standsAt followedThere ⟨rfl, .rfl⟩ leans.means fun _ => leans
    rcases followedThere.write named stands path with ⟨rfl, seen, followedAfter, standsAfter⟩
    exact ⟨lead, none, seen, output, outputToo, followedAfter, standsAfter⟩
  · cases wanted
    rcases arrives goes with ⟨lead, place, output, _, followedThere⟩
    rcases goes.does with ⟨_, path, outputToo⟩
    cases path with
    | cons step rest =>
        have readable : (Event.qualify uri (draft.special.map (·.kind))).Readable := trivial
        rcases followedThere.step readable step with ⟨middle, shows_, followedMiddle⟩
        rcases followedThere.qualify step followedMiddle with ⟨nsPrefix, rfl, means, leans⟩
        have stands := followedThere.standsAt followedMiddle shows_.of_qualify means leans
        rcases followedMiddle.write named stands rest with
          ⟨rfl, seen, followedAfter, standsAfter⟩
        rw [String.append_assoc] at followedAfter
        exact ⟨lead, some nsPrefix, seen, output, outputToo, followedAfter, standsAfter⟩

theorem Told.qualifiedName {origin : OutputBuffer} {nothing : Unit}
    (told : Told origin "" (fun _ _ _ => True) requests before)
    (undeclaring : before.phase ≠ .closed → before.draft.Undeclaring) (nonEmpty : uri ≠ "")
    (reads : before.Reads (.qualifiedName localName (some uri)))
    (ok : Writer.perform (.qualifiedName localName (some uri)) before = .ok nothing after) :
    ∃ (nsPrefix : Option String) (front : String),
      origin.Extends front (before.roomFor .text).output ∧
      origin.Extends (front ++ writtenName nsPrefix localName) after.output ∧
      Told after.output (front ++ writtenName nsPrefix localName)
        (fun draft => draft.StandsAt front requests nsPrefix uri) requests after := by
  cases told with
  | closed _ _ _ _ closed =>
      rcases (closed_of_perform closed ok).1 with idle | isClose
      · cases idle
      · cases isClose
  | live start sight extended steady ready followed =>
      rw [String.empty_append] at followed
      rcases followed_qualifiedName ready (undeclaring followed.live.2) followed nonEmpty ok with
        ⟨lead, nsPrefix, seen, makes, names, followedAfter, stands⟩
      have stays : Call.qualifiedName localName (some uri) ≠ .close := by simp
      have idle : Draft.Kept fun _ _ _ => True := fun _ _ _ => id
      rcases followed_perform idle ready followed trivial stays reads ok with ⟨_, _, _, readyAfter, _⟩
      have steadyAfter := ((scripted_perform stays).mono False.elim).endsIn
        OutputBuffer.Steady.order steady
      rw [ok] at steadyAfter
      have extendedRoom := extended.trans makes
      exact ⟨nsPrefix, start ++ lead, extendedRoom, extendedRoom.trans names,
        .since steadyAfter readyAfter followedAfter stands⟩

/-- Qualified names mean what has been asked for. A name that is written with a namespace, in text or in
the value of an attribute, resolves to this namespace by the declarations in scope for the element that
contains it, those of the complete start tag included. The exception is a name without a prefix in a
value, if a later attribute of the same tag is asked for that declares the default namespace. -/
theorem qualified_names_mean_of_run (limit : Option Nat) (canFlush : Bool) (encoder : Option Encoder)
    (settings : Settings) (earlier later : List Call) (localName uri : String)
    (enabled : settings.namespaces = true) (indent : Terms.plain.Indents settings.indentChar)
    (nonEmpty : uri ≠ "")
    (accepts : (create { sink := { limit, canFlush }, encoder } settings).Accepts
      (earlier ++ .qualifiedName localName (some uri) :: later))
    (readable : ∀ call ∈ earlier ++ later, call.Readable) :
    let output : OutputBuffer := { sink := { limit, canFlush }, encoder }
    let writer := create output settings
    let calls := earlier ++ .qualifiedName localName (some uri) :: later
    let before := (writer.run earlier).2
    let after := (before.step (.qualifiedName localName (some uri))).2
    ∃ (nsPrefix : Option String) (front back : String),
      output.Extends front (before.roomFor .text).output ∧
      output.Extends (front ++ writtenName nsPrefix localName) after.output ∧
      output.Gets (front ++ writtenName nsPrefix localName ++ back) (writer.run calls).2.output ∧
      ∀ tags, enclosing? front.toList (writtenName nsPrefix localName ++ back).toList = some tags →
        Resolves tags nsPrefix uri ∨
          nsPrefix = none ∧ (writer.asks {} earlier).Redeclares (writer.asks {} calls) := by
  intro output writer calls before after
  rcases accepts_append.mp accepts with ⟨acceptsEarlier, acceptsCall⟩
  rcases accepts_cons.mp acceptsCall with ⟨succeeds, acceptsLater⟩
  have ok : perform (.qualifiedName localName (some uri)) before = .ok () after := step_ok succeeds
  rcases List.forall_mem_append.mp readable with ⟨readableEarlier, readableLater⟩
  have readableAll : ∀ call ∈ calls, call.Readable :=
    List.forall_mem_append.mpr ⟨readableEarlier, List.forall_mem_cons.mpr ⟨trivial, readableLater⟩⟩
  rcases readsAll_append.mp (readsAll_of_run enabled accepts readableAll) with
    ⟨readsEarlier, readsCall, readsLater⟩
  have told : Told output "" (fun _ _ _ => True) (writer.asks {} earlier) before :=
    (told_create limit canFlush encoder enabled indent).run (fun _ _ _ => id) acceptsEarlier
      readsEarlier
  have course := course_of_run enabled acceptsEarlier fun call member =>
    (readableEarlier call member).named
  rcases told.qualifiedName course.undeclaring nonEmpty readsCall ok with
    ⟨nsPrefix, front, extended, extendedAfter, toldAfter⟩
  have toldLast := toldAfter.run (Draft.kept_standsAt _ _ _ _) acceptsLater readsLater
  have last : (writer.run calls).2 = (after.run later).2 := by
    rw [run_append]
    rfl
  have asks : writer.asks {} calls = after.asks (writer.asks {} earlier) later :=
    asks_append writer {} earlier _
  rw [← last, ← asks] at toldLast
  rcases toldLast.ends with ⟨back, draft, place, gets, followedLast, standsLast⟩
  refine ⟨nsPrefix, front, back, extended, extendedAfter, extendedAfter.gets_trans gets,
    fun tags found => ?_⟩
  rw [String.append_assoc] at followedLast
  exact standsLast.means followedLast found

theorem qualified_names_mean_of_run_generated :
    let earlier : List Call :=
      [.startElement { localName := "root", uri := some "urn:a" }, .startElement { localName := "child" },
        .startAttribute { localName := "type" }]
    let later : List Call := [.attributeString { localName := "xmlns" } "urn:c", .close]
    let output : OutputBuffer := { sink := {} }
    let writer := create output
    let calls := earlier ++ .qualifiedName "int" (some "urn:b") :: later
    let before := (writer.run earlier).2
    let after := (before.step (.qualifiedName "int" (some "urn:b"))).2
    writer.Accepts calls ∧ (writer.run calls).2.output.delivered =
        ("<root xmlns=\"urn:a\"><child type=\"d2p1:int\" xmlns=\"urn:c\" " ++
          "xmlns:d2p1=\"urn:b\" /></root>").toUTF8 ∧
      ∃ (nsPrefix : Option String) (front back : String),
        output.Extends front (before.roomFor .text).output ∧
        output.Extends (front ++ writtenName nsPrefix "int") after.output ∧
        output.Gets (front ++ writtenName nsPrefix "int" ++ back) (writer.run calls).2.output ∧
        ∀ tags, enclosing? front.toList (writtenName nsPrefix "int" ++ back).toList = some tags →
          Resolves tags nsPrefix "urn:b" ∨
            nsPrefix = none ∧ (writer.asks {} earlier).Redeclares (writer.asks {} calls) := by
  intro earlier later output writer calls before after
  have accepts : writer.Accepts (earlier ++ .qualifiedName "int" (some "urn:b") :: later) := by
    unfold Accepts
    decide +kernel
  have readable : ∀ call ∈ earlier ++ later, call.Readable := by
    simp only [earlier, later, List.cons_append, List.nil_append, List.mem_cons, List.not_mem_nil,
      or_false, forall_eq_or_imp, forall_eq]
    refine ⟨?_, ?_, ⟨?_, ?_, ?_⟩, ⟨?_, ?_⟩, trivial⟩
    all_goals
      first
        | exact NameRequest.meets_plain (by decide +kernel) (by decide +kernel)
        | simp [NameRequest.Disguised]
        | decide +kernel
  have indent : Terms.plain.Indents ({} : Settings).indentChar := ⟨by decide, by decide⟩
  have delivered : (writer.run calls).2.output.delivered =
      ("<root xmlns=\"urn:a\"><child type=\"d2p1:int\" xmlns=\"urn:c\" " ++
        "xmlns:d2p1=\"urn:b\" /></root>").toUTF8 := by
    decide +kernel
  refine ⟨accepts, delivered, ?_⟩
  clear_value earlier later
  exact qualified_names_mean_of_run none true none {} earlier later "int" "urn:b" rfl indent
    (by decide) accepts readable

/-- A name without a prefix in a value does not keep a later attribute from declaring the default
namespace. -/
theorem redeclared_default :
    let calls : List Call :=
      [.startElement { localName := "root", uri := some "urn:a" }, .startElement { localName := "child" },
        .startAttribute { localName := "type" }, .qualifiedName "int" (some "urn:a"),
        .attributeString { localName := "xmlns" } "urn:b", .close]
    let writer := create { sink := {} }
    let front := "<root xmlns=\"urn:a\"><child type=\""
    let rest := "int\" xmlns=\"urn:b\" /></root>"
    writer.Accepts calls ∧ (writer.run calls).2.output.delivered = (front ++ rest).toUTF8 ∧
      (enclosing? front.toList rest.toList).bind (uriOf? · none) = some "urn:b" := by
  intro calls writer front rest
  refine ⟨?_, by decide +kernel⟩
  unfold Accepts
  decide +kernel

end Writer

end XmlStream
