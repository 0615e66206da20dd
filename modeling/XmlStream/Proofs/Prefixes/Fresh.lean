import XmlStream.Proofs.Grammar.Clean
import XmlStream.Proofs.Grammar.Names
import XmlStream.Proofs.Prefixes.Names

namespace XmlStream.Writer

/-! The prefixes that are made up. There is one at every point of a run, it is not taken, and so it can
be bound. -/

variable {before room after : Writer} {nsPrefix uri : String}

/-- A point in a run where a prefix may be made up: between two calls, or within one that has made room
for an attribute or for text. -/
inductive Offers (before : Writer) : Writer → Prop
  | between : Offers before before
  | within {token : Token} {room : Writer} (names : token = .startAttribute ∨ token = .text)
      (went : advance token before = .ok () room) : Offers before room

theorem Offers.grounded (offers : before.Offers room) (grounded : before.Grounded) :
    room.Grounded := by
  cases offers with
  | between => exact grounded
  | within _ went => exact grounded.advance went

theorem advance_spent {token : Token} (spent : before.Spent)
    (went : advance token before = .ok () room) : False := by
  obtain ⟨_, _, _, _, leads, _⟩ := advance_ok went
  simp [nextPhase?, next?_of_spent spent] at leads

theorem Offers.noted {tag : TagNames} (offers : before.Offers room)
    (state : before.Spent ∨ before.Ready) (noted : tag.Noted before.top)
    (atTag : room.draft.AtTag) : 0 < room.depth ∧ tag.Noted room.top := by
  cases offers with
  | between =>
      have ready := state.resolve_left fun spent => not_atTag_of_spent spent atTag
      exact ⟨ready.placed.inside atTag, noted⟩
  | within names went =>
      have ready := state.resolve_left fun spent => advance_spent spent went
      have same : before.draft.SameTag room.draft := by
        obtain rfl | rfl := names
        · exact (sameTag_of_startAttribute ready.sound.bindings went atTag).1
        · exact (sameTag_of_text ready.sound went atTag).1
      refine ⟨?_, noted.of_naming same.naming⟩
      rw [(local_advance _ went).depth]
      exact ready.placed.inside same.atTag

theorem bindPrefix_of_free (grounded : before.Grounded) (declared : Bool)
    (free : before.bindings.lookup? nsPrefix = none) (other : nsPrefix ≠ "xmlns")
    (nonEmpty : uri ≠ "") (notDeclarations : uri ≠ Namespace.declarations)
    (notXml : uri ≠ Namespace.xml) :
    ∃ after, bindPrefix nsPrefix uri declared before = .ok () after ∧
      after.bindings.scope = before.bindings.scope ++ [⟨nsPrefix, uri, declared, none⟩] := by
  obtain ⟨log, pushes⟩ := pushBinding_eq before nsPrefix uri declared
  have unbound : before.bindings.boundTo? nsPrefix uri = none := by
    rw [Bindings.boundTo?, free, Option.filter_none]
  have unused := grounded.prefixInUse_of_free free
  have allowed : checkReserved (some nsPrefix) uri before = .ok () before := by
    simp [checkReserved, other, notDeclarations, notXml]
  refine ⟨{ before with bindings := before.bindings.push nsPrefix uri declared, log }, ?_,
    Bindings.scope_push before.bindings nsPrefix uri declared⟩
  simp only [bindPrefix, bind_eq_ok, refuse_bind_eq_ok, get_eq_ok]
  refine ⟨(), before, allowed, nonEmpty, before, before, ⟨rfl, rfl⟩, ?_⟩
  simp only [unbound, unused, refuse_bind_eq_ok]
  exact ⟨by simp, pushes⟩

/-- A made-up prefix is a name, and nothing else that a writer knows is called so. -/
structure Fresh (writer : Writer) (tag : TagNames) (made : String) : Prop where
  isName : Grammar.NCName made.toList
  unbound : ∀ binding ∈ writer.bindings.entries, binding.nsPrefix ≠ made
  unused : writer.draft.AtTag → ∀ name ∈ tag.names, name.nsPrefix ≠ some made
  distinct : writer.draft.AtTag → (made :: tag.made).Nodup
  /-- No number that the element has counted makes it. -/
  uncounted : ∀ number ≤ writer.top.prefixCount,
    Bindings.generatedPrefix writer.depth number ≠ made

theorem fresh_of_searches {tag : TagNames} {rounds number : Nat} (grounded : room.Grounded)
    (noted : room.draft.AtTag → 0 < room.depth ∧ tag.Noted room.top)
    (searches : room.bindings.Searches room.depth room.top.prefixCount rounds number) :
    room.Fresh tag (Bindings.generatedPrefix room.depth number) where
  isName := Grammar.isNCName_iff.mp (isNCName_generatedPrefix room.depth number)
  unbound binding member same := by
    refine searches.notMem grounded.sound ?_
    rw [Bindings.scope, List.map_map, ← same]
    exact List.mem_map_of_mem (f := _) (Array.mem_toList_iff.mpr member)
  unused atTag name member named := by
    obtain ⟨inside, noted⟩ := noted atTag
    -- The reserved prefixes are spelled otherwise, and any other one in the tag is bound.
    have occurs := ((noted.names name member _ named).resolve_left
      (generatedPrefix_ne (by decide))).resolve_left (generatedPrefix_ne (by decide))
    exact searches.notMem grounded.sound (grounded.mem_of_top inside occurs)
  distinct atTag := by
    obtain ⟨inside, noted⟩ := noted atTag
    refine List.nodup_cons.mpr ⟨fun again => ?_, noted.distinct⟩
    exact searches.notMem grounded.sound (grounded.mem_of_top inside (noted.made _ again))
  uncounted counted few same := by
    have later := searches.number_eq
    have numbers := Bindings.generatedPrefix_inj same
    omega

/-- A prefix can be made up at every point of a run, and is a fresh one. The search for it takes one
more round than there are bindings at most, whichever prefixes these have, and what it finds is a name
that is not bound, does not occur in the open start tag and is not made up a second time. Binding it to
a namespace that is not reserved succeeds. -/
theorem fresh_prefix_of_run (output : OutputBuffer) (settings : Settings) (calls : List Call)
    (room : Writer) (offers : ((create output settings).run calls).2.Offers room) :
    ∃ rounds number made counted,
      room.bindings.Searches room.depth room.top.prefixCount rounds number ∧
      rounds ≤ room.bindings.size + 1 ∧
      made = Bindings.generatedPrefix room.depth number ∧
      makePrefix room = .ok made counted ∧ counted.top.prefixCount = number ∧
      room.Fresh ((create output settings).tagNames {} calls) made ∧
      ∀ uri declared, uri ≠ "" → uri ≠ Namespace.declarations → uri ≠ Namespace.xml →
        ∃ after, bindPrefix made uri declared counted = .ok () after ∧
          after.bindings.scope = room.bindings.scope ++ [⟨made, uri, declared, none⟩] := by
  have created := grounded_create output settings
  have grounded := offers.grounded (created.run calls)
  obtain ⟨state, noted⟩ := noted_run (.inr (ready_create output settings)) created
    (TagNames.noted_empty _) calls
  obtain ⟨rounds, few, searches⟩ :=
    grounded.sound.searches_nextNumber room.depth room.top.prefixCount
  obtain ⟨counted, makes, elements, bindings⟩ := makePrefix_eq room
  have number : counted.top.prefixCount =
      room.bindings.nextNumber room.depth room.top.prefixCount := by
    rw [top, elements, ElementStack.top_modifyTop]
  rw [← number] at searches
  refine ⟨rounds, counted.top.prefixCount, _, counted, searches, few, rfl, makes, rfl,
    fresh_of_searches grounded (offers.noted state noted) searches, ?_⟩
  intro uri declared nonEmpty notDeclarations notXml
  have groundedCounted := grounds_makePrefix.of_ok grounded makes
  have free : counted.bindings.lookup?
      (Bindings.generatedPrefix room.depth counted.top.prefixCount) = none := by
    rw [bindings]
    exact searches.free
  rw [← bindings]
  exact bindPrefix_of_free groundedCounted declared free (generatedPrefix_ne (by decide)) nonEmpty
    notDeclarations notXml

/-- Prefixes of the same form that the caller has chosen are passed over, be they bound for a name or
by a declaration. -/
theorem fresh_prefix_of_run_beside_given :
    let calls : List Call :=
      [.startElement { nsPrefix := some "d1p1", localName := "a", uri := some "urn:given" },
        .attributeString { localName := "x", uri := some "urn:b" } "1",
        .attributeString { nsPrefix := some "xmlns", localName := "d1p3" } "urn:c"]
    let tag : TagNames :=
      { names := [⟨some "xmlns", "d1p3"⟩, ⟨some "d1p2", "x"⟩, ⟨some "d1p1", "a"⟩]
        made := ["d1p2"] }
    let writer := ((create { sink := {} }).run calls).2
    let room := writer.roomFor .startAttribute
    writer.Offers room ∧ ∃ counted after, room.Fresh tag "d1p4" ∧
      makePrefix room = .ok "d1p4" counted ∧
      bindPrefix "d1p4" "urn:d" false counted = .ok () after := by
  intro calls tag writer room
  have went : advance .startAttribute writer = .ok () room := by
    have succeeds : (writer.result? (advance .startAttribute)).isSome = true := by decide +kernel
    cases went : advance .startAttribute writer with
    | ok _ _ => rw [← roomFor_of_ok went]
    | error _ _ => simp [result?, went] at succeeds
  have offers : writer.Offers room := .within (.inl rfl) went
  have depth : room.depth = 1 := by decide +kernel
  have count : room.top.prefixCount = 2 := by decide +kernel
  have taken : (room.bindings.lookup? (Bindings.generatedPrefix 1 3)).isSome = true := by
    decide +kernel
  have free : room.bindings.lookup? (Bindings.generatedPrefix 1 4) = none := by decide +kernel
  have told : (create { sink := {} }).tagNames {} calls = tag := by decide +kernel
  obtain ⟨rounds, number, made, counted, searches, _, named, makes, _, fresh, binds⟩ :=
    fresh_prefix_of_run { sink := {} } {} calls room offers
  rw [depth, count] at searches
  -- `d1p1` and `d1p2` are counted already, and the declaration has taken `d1p3`.
  obtain ⟨_, rfl⟩ := Bindings.Searches.unique (.again taken (.found free)) searches
  rw [depth] at named
  subst named
  rw [told] at fresh
  obtain ⟨after, bound, _⟩ := binds "urn:d" false (by decide) (by decide) (by decide)
  exact ⟨offers, counted, after, fresh, makes, bound⟩

end XmlStream.Writer
