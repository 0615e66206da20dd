import XmlStream.Proofs.Namespaces.Asked

namespace XmlStream

/-! Start tags beside what has been asked for. While a tag is open, what its names mean is pledged. When
it is complete, a reader finds that they mean it. -/

open Reading

/-- The start tags that have been asked for: those before, and the one to which attributes belong. -/
structure Requests where
  earlier : List AskedTag := []
  latest : Option AskedTag := none
deriving DecidableEq, Repr

namespace Requests

def all (requests : Requests) : List AskedTag := requests.earlier ++ requests.latest.toList

def element (requests : Requests) (asked : AskedName) : Requests :=
  { earlier := requests.all, latest := some { element := asked } }

def addAttribute (requests : Requests) (asked : AskedName) : Requests :=
  { requests with latest := requests.latest.map (·.add asked) }

def finish (requests : Requests) : Requests := { earlier := requests.all }

@[simp] theorem all_finish (requests : Requests) : requests.finish.all = requests.all := by
  simp [all, finish]

def see (requests : Requests) : Event → Requests
  | .startElement asked _ => requests.element asked
  | .startAttribute asked _ => requests.addAttribute asked
  | .finish => requests.finish
  | _ => requests

theorem see_of_quiet (requests : Requests) {event : Event} (quiet : event.Quiet) :
    requests.see event = requests := by
  cases event <;> first | rfl | exact quiet.elim

end Requests

/-- Some tags, the innermost one first, declare that a prefix or its absence stands for a namespace. -/
def Reading.Resolves (tags : List StartTag) (nsPrefix : Option String) (uri : String) : Prop :=
  uriOf? tags nsPrefix = some uri

/-- The names of a start tag are those that it has been asked for. -/
structure AskedTag.Written (asked : AskedTag) (Means : Option String → String → Prop)
    (tag : StartTag) : Prop where
  element : asked.element.InElement Means tag.name
  attributes : AskedNames Means asked.attributes tag.attributes

theorem AskedTag.Written.mono {asked : AskedTag} {Means MeansToo : Option String → String → Prop}
    {tag : StartTag} (written : asked.Written Means tag)
    (means : ∀ nsPrefix uri, Means nsPrefix uri → MeansToo nsPrefix uri) :
    asked.Written MeansToo tag :=
  ⟨written.element.mono means, written.attributes.mono means⟩

/-- Declarations that are added to a start tag. None of them stands there twice, and each one changes
what is declared around the tag. One that the tag has already is added only where that one repeats
what the tags around declare. -/
structure Reading.Adds (tag : StartTag) (added : List (List Char × List Part))
    (around : List StartTag) : Prop where
  nodup : (added.map Prod.fst).Nodup
  declares : ∀ entry ∈ added, ∃ nsPrefix, entry.1 = declarationName nsPrefix ∧
    uriOf? around nsPrefix ≠ some (valueText entry.2)
  repeats : ∀ entry ∈ added, ∀ explicit ∈ tag.attributes, explicit.1 = entry.1 →
    ∃ nsPrefix, entry.1 = declarationName (some nsPrefix) ∧
      uriOf? around (some nsPrefix) = some (valueText explicit.2)

/-- The first one of some tags is complete, and has the names that it has been asked for. -/
inductive AskedTag.Honoured (asked : AskedTag) : List StartTag → Prop
  | mk (tag : StartTag) (added : List (List Char × List Part)) (around : List StartTag)
      (written : asked.Written (Resolves (tag.addAll added :: around)) tag)
      (adds : Adds tag added around) : Honoured asked (tag.addAll added :: around)

namespace Draft

/-- The value of an attribute is what is known of it, if it is a declaration. -/
structure Fills (draft : Draft) (name : List Char) (parts : List Part) : Prop where
  declares : ∀ nsPrefix value, draft.special = some ⟨.declaration nsPrefix, value⟩ →
    name = declarationName nsPrefix ∧ valueText parts = value
  other : (∀ nsPrefix, draft.special.map (·.kind) ≠ some (.declaration nsPrefix)) →
    ∀ nsPrefix, name ≠ declarationName nsPrefix

/-- What a reader has seen is as it has been asked for. -/
inductive Account (draft : Draft) (requests : Requests) : Sight → Prop
  | between (nesting : Nesting) (start : draft.phase = .start → requests.latest = none)
      (agree : Agree draft.scope draft.layers nesting.opened)
      (honoured : List.Forall₂ AskedTag.Honoured requests.all nesting.tags) :
      Account draft requests ⟨.between, nesting⟩
  | tag (asked : AskedTag) (tag : StartTag) (nesting : Nesting)
      (latest : requests.latest = some asked) (tells : draft.Tells tag nesting.opened)
      (written : asked.Written draft.Pledges tag)
      (honoured : List.Forall₂ AskedTag.Honoured requests.earlier nesting.tags) :
      Account draft requests ⟨.tag tag, nesting⟩
  | value (asked : AskedTag) (name : AskedName) (tag : StartTag) (spelled : List Char)
      (parts : List Part) (nesting : Nesting) (latest : requests.latest = some (asked.add name))
      (tells : draft.Tells tag nesting.opened) (written : asked.Written draft.Pledges tag)
      (writes : name.InAttribute draft.Pledges spelled) (fills : draft.Fills spelled parts)
      (honoured : List.Forall₂ AskedTag.Honoured requests.earlier nesting.tags) :
      Account draft requests ⟨.value tag spelled parts, nesting⟩

variable {draft middle after : Draft} {requests : Requests} {sight seen : Sight} {event : Event}
  {tag : StartTag} {around : List StartTag} {asked : AskedTag} {name : List Char}
  {parts more : List Part} {nsPrefix : Option String} {kind : Option SpecialKind}

/-! ## Complete tags -/

theorem Layered.mem_take (layered : draft.Layered) (inside : 0 < draft.depth) :
    xmlBinding ∈ draft.scope.take draft.top.bindingMark := by
  have positive : 0 < draft.top.bindingMark := by
    cases found : draft.elements.opened with
    | nil => simp [depth, ElementStack.depth, found] at inside
    | cons innermost rest =>
        have opened := layered.positive innermost (by simp [found])
        simpa [top, ElementStack.top, found] using opened
  have first : (draft.scope.take draft.top.bindingMark).take 1 = [xmlBinding] := by
    rw [List.take_take, Nat.min_eq_left positive, layered.first]
  exact List.mem_of_mem_take (first ▸ List.mem_singleton.mpr rfl)

theorem Tells.uriOf?_around_ne (tells : draft.Tells tag around) (layered : draft.Layered)
    (lawful : Lawful draft.scope) {index : Nat} {binding : Binding}
    (within : draft.top.bindingMark ≤ index) (stands : draft.scope[index]? = some binding) :
    uriOf? around (some binding.nsPrefix) ≠ some binding.uri := by
  have differs := tells.changes index binding within stands
  have allowed := lawful binding (List.mem_of_getElem? stands)
  rw [tells.outer.means, Scope.meaning]
  cases bound : Scope.uri? (draft.scope.take draft.top.bindingMark) binding.nsPrefix with
  | some uri => rwa [bound] at differs
  | none =>
      have notXml : binding.nsPrefix ≠ "xml" := by
        intro isXml
        rw [isXml, Scope.uri?, Option.map_eq_none_iff, Scope.latest?_eq_none_iff] at bound
        exact bound xmlBinding (layered.mem_take tells.inside) rfl
      simp [predeclared?, notXml, allowed.notXmlns]

theorem Tells.adds (tells : draft.Tells tag around) (layered : draft.Layered)
    (lawful : Lawful draft.scope) : Adds tag draft.owedAttributes around where
  nodup := draft.nodup_owedAttributes
  declares := by
    intro entry member
    rcases name_of_mem_owedAttributes member with ⟨⟨binding, index⟩, owed, rfl⟩ | ⟨owes, rfl⟩
    · rcases Scope.mem_owed_iff.mp owed with ⟨latest, within, _⟩
      refine ⟨some binding.nsPrefix, rfl, ?_⟩
      rw [valueText_map_character, String.ofList_toList]
      exact tells.uriOf?_around_ne layered lawful within (Scope.latest?_eq_some latest).1
    · refine ⟨none, rfl, ?_⟩
      rw [valueText_map_character, String.ofList_toList, tells.outer.means,
        Scope.meaning, ← parent_defaultUri_eq layered.outside]
      simp only [owesDefault, Bool.and_eq_true, decide_eq_true_eq] at owes
      exact fun same => owes.1.2 (Option.some.inj same).symm
  repeats := by
    intro entry member explicit memberToo same
    rcases name_of_mem_owedAttributes member with ⟨owed, there, rfl⟩ | ⟨owes, rfl⟩
    · have notDeclared := not_declared_of_mem member rfl
      exact ⟨owed.1.nsPrefix, rfl,
        (tells.repeats explicit memberToo owed.1.nsPrefix same).resolve_left notDeclared⟩
    · have written := tells.settles explicit memberToo same
      simp [owesDefault, written] at owes

theorem Tells.honoured (tells : draft.Tells tag around) (layered : draft.Layered)
    (lawful : Lawful draft.scope) (written : asked.Written draft.Pledges tag) :
    asked.Honoured (tag.addAll draft.owedAttributes :: around) := by
  refine .mk tag _ around (written.mono fun nsPrefix uri pledges => ?_) (tells.adds layered lawful)
  rw [Resolves, tells.means layered.outside]
  exact pledges.means

/-! ## Values -/

theorem Fills.capture (fills : draft.Fills name parts) {text : String}
    (special : after.special = (draft.capture text).special)
    (spells : ∀ nsPrefix, draft.special.map (·.kind) = some (.declaration nsPrefix) →
      valueText more = text) : after.Fills name (parts ++ more) where
  declares := by
    intro nsPrefix value declares
    rw [special, Draft.capture, Option.map_eq_some_iff] at declares
    rcases declares with ⟨⟨kind, earlier⟩, was, same⟩
    cases same
    rcases fills.declares nsPrefix earlier was with ⟨named, valued⟩
    rw [valueText_append, valued, spells nsPrefix (by rw [was, Option.map_some])]
    exact ⟨named, rfl⟩
  other := by
    intro notDeclaration
    refine fills.other fun nsPrefix => ?_
    have kinds : after.special.map (·.kind) = draft.special.map (·.kind) := by
      rw [special, Draft.capture, Option.map_map]
      rfl
    rw [← kinds]
    exact notDeclaration nsPrefix

theorem NamesAttribute.fills {request : NameRequest} {Means : Option String → String → Prop}
    (names : (draft.enter .attribute).NamesAttribute request nsPrefix kind middle)
    (enabled : draft.settings.namespaces = true)
    (writes : (draft.asked request).InAttribute Means name)
    (special : after.special = kind.map fun kind => { kind }) : after.Fills name [] := by
  refine ⟨fun declared value isSpecial => ?_, fun notDeclaration => ?_⟩
  · rw [special, Option.map_eq_some_iff] at isSpecial
    rcases isSpecial with ⟨_, isKind, same⟩
    cases same
    refine ⟨?_, rfl⟩
    rcases names.kind_eq enabled with whole | ⟨_, not⟩
    · rw [isKind, eq_comm, Option.map_eq_some_iff] at whole
      rcases whole with ⟨_, declares, same⟩
      cases same
      exact writes.of_declares declares
    · exact absurd isKind (not declared)
  · refine writes.ne_declarationName ?_
    rcases names.kind_eq enabled with whole | ⟨declares, _⟩
    · cases declares : request.declares? with
      | none => exact declares
      | some declared =>
          have isKind : kind = some (.declaration declared) := by rw [whole, declares]; rfl
          exact absurd (by rw [special, isKind]; rfl) (notDeclaration declared)
    · exact declares

/-! ## Steps -/

theorem Tells.of_eq (tells : draft.Tells tag around) (scope : after.scope = draft.scope)
    (elements : after.elements = draft.elements) : after.Tells tag around := by
  rcases draft with ⟨_, _, _, _, _, _, _⟩
  rcases after with ⟨_, _, _, _, _, _, _⟩
  cases scope
  cases elements
  exact ⟨tells.inside, tells.fits, tells.outer, tells.changes, tells.noted, tells.repeats,
    tells.written, tells.settles, tells.inherits⟩

theorem Account.startElement {request : NameRequest} {nesting : Nesting}
    (account : draft.Account requests ⟨.between, nesting⟩)
    (enabled : draft.settings.namespaces = true) (fit : draft.Fit .plain)
    (plain : request.Meets .plain)
    (names : (draft.push.enter .element).NamesElement request nsPrefix middle) :
    (middle.modifyTop fun element => { element with name := request.localName, nsPrefix }).Account
      (requests.element (draft.asked request))
      ⟨.tag { name := (writtenName nsPrefix request.localName).toList }, nesting⟩ := by
  cases account with
  | between _ _ agree honoured =>
      refine .tag _ _ _ rfl ?_ ?_ honoured
      · exact (names.tells (tells_push agree .element)).modifyTop rfl rfl rfl
      · exact ⟨names.inElement enabled fit plain, .nil⟩

theorem Account.startAttribute {request : NameRequest} {nesting : Nesting}
    (account : draft.Account requests ⟨.tag tag, nesting⟩) (lawful : Lawful draft.scope)
    (enabled : draft.settings.namespaces = true) (fit : draft.Fit .plain) (layered : draft.Layered)
    (plain : request.Meets .plain) (notDisguised : ¬request.Disguised)
    (names : (draft.enter .attribute).NamesAttribute request nsPrefix kind middle) :
    ({ middle.noteAttribute nsPrefix with special := kind.map fun kind => { kind } } : Draft).Account
      (requests.addAttribute (draft.asked request))
      ⟨.value tag (writtenName nsPrefix request.localName).toList [], nesting⟩ := by
  cases account with
  | tag asked _ _ latest tells written honoured =>
      have keeps := (names.keeps lawful).1
      have entered : draft.Keeps (draft.enter .attribute) := .of_eq rfl rfl
      have special : ({ middle.noteAttribute nsPrefix with
          special := kind.map fun kind => { kind } } : Draft).special =
          kind.map fun kind => { kind } := rfl
      have kept : draft.Keeps ({ middle.noteAttribute nsPrefix with
          special := kind.map fun kind => { kind } } : Draft) :=
        ((entered.trans keeps).trans (middle.keeps_noteAttribute nsPrefix)).trans (.of_eq rfl rfl)
      have writes := names.inAttribute tells.inside enabled fit layered lawful plain notDisguised
      refine .value asked (draft.asked request) _ _ _ _ ?_ ?_ (written.mono kept) ?_
        (names.fills enabled writes special) honoured
      · rw [Requests.addAttribute, latest]
        rfl
      · have tellsEntered : (draft.enter .attribute).Tells tag nesting.opened := tells.of_eq rfl rfl
        exact ((names.tells tellsEntered).noteAttribute nsPrefix).of_eq rfl rfl
      · exact writes.mono (Keeps.of_eq rfl rfl)

theorem Account.endAttribute {nesting : Nesting}
    (account : draft.Account requests ⟨.value tag name parts, nesting⟩) (lawful : Lawful draft.scope)
    (applies : match draft.special with
      | some special => Applies { draft with special := none } special middle
      | none => middle = draft) :
    (middle.enter .element).Account requests ⟨.tag (tag.add name parts), nesting⟩ := by
  cases account with
  | value asked last _ _ _ _ latest tells written writes fills honoured =>
      have settled (tellsToo : middle.Tells (tag.add name parts) nesting.opened)
          (keeps : draft.Keeps middle) :
          (middle.enter .element).Account requests ⟨.tag (tag.add name parts), nesting⟩ := by
        have keepsToo : draft.Keeps (middle.enter .element) := keeps.trans (.of_eq rfl rfl)
        refine .tag (asked.add last) _ _ latest (tellsToo.of_eq rfl rfl) ⟨?_, ?_⟩ honoured
        · exact written.element.mono keepsToo
        · exact List.rel_append (written.attributes.mono keepsToo)
            (.cons (writes.mono keepsToo) .nil)
      cases isSpecial : draft.special with
      | none =>
          simp only [isSpecial] at applies
          subst applies
          refine settled (tells.addOther ?_) (.refl middle)
          exact fills.other (by simp [isSpecial])
      | some special =>
          simp only [isSpecial] at applies
          have tellsToo : ({ draft with special := none } : Draft).Tells tag nesting.opened :=
            tells.of_eq rfl rfl
          have idle : draft.Keeps ({ draft with special := none } : Draft) := .of_eq rfl rfl
          have kept : ({ draft with special := none } : Draft).Keeps middle :=
            (applies.keeps lawful).1
          refine settled ?_ (idle.trans kept)
          cases applies with
          | language | space =>
              refine Tells.modifyTop (tellsToo.addOther ?_) rfl rfl rfl
              exact fills.other (by simp [isSpecial])
          | outside _ _ outside => exact absurd outside (Nat.ne_of_gt tells.inside)
          | prefixed nsPrefix value _ _ _ binds =>
              rcases fills.declares _ _ isSpecial with ⟨rfl, valued⟩
              exact tellsToo.declaresPrefix binds valued
          | default value _ _ binds =>
              rcases fills.declares _ _ isSpecial with ⟨rfl, valued⟩
              exact tellsToo.declaresDefault binds valued

theorem Account.fill {text : String} {nesting : Nesting}
    (account : draft.Account requests ⟨.value tag name parts, nesting⟩)
    (scope : after.scope = draft.scope) (elements : after.elements = draft.elements)
    (special : after.special = (draft.capture text).special)
    (spells : ∀ nsPrefix, draft.special.map (·.kind) = some (.declaration nsPrefix) →
      valueText more = text) :
    after.Account requests ⟨.value tag name (parts ++ more), nesting⟩ := by
  cases account with
  | value asked last _ _ _ _ latest tells written writes fills honoured =>
      have keeps : draft.Keeps after := .of_eq scope elements
      exact .value asked last _ _ _ _ latest (tells.of_eq scope elements) (written.mono keeps)
        (writes.mono keeps) (fills.capture special spells) honoured

theorem Account.qualify {uri found : String} {nesting : Nesting}
    (account : draft.Account requests ⟨.value tag name parts, nesting⟩) (lawful : Lawful draft.scope)
    (finds : draft.QualifiesText uri found middle) :
    ((middle.notePrefix found).capture (found ++ ":")).Account requests
      ⟨.value tag name (parts ++ (found ++ ":").toList.map .character), nesting⟩ := by
  have keeps := (finds.keeps lawful).1
  cases account with
  | value asked last _ _ _ _ latest tells written writes fills honoured =>
      have keepsToo : draft.Keeps ((middle.notePrefix found).capture (found ++ ":")) :=
        (keeps.trans (middle.keeps_notePrefix found)).trans (.of_eq rfl rfl)
      have special : ((middle.notePrefix found).capture (found ++ ":")).special =
          (draft.capture (found ++ ":")).special := by
        show middle.special.map _ = draft.special.map _
        rw [finds.frames.special]
      refine .value asked last _ _ _ _ latest ?_ (written.mono keepsToo) (writes.mono keepsToo)
        (fills.capture special fun _ _ => ?_) honoured
      · exact ((finds.tells tells).notePrefix found).of_eq rfl rfl
      · rw [valueText_map_character, String.ofList_toList]

theorem Account.endStartTag {nesting : Nesting}
    (account : draft.Account requests ⟨.tag tag, nesting⟩) (layered : draft.Layered)
    (lawful : Lawful draft.scope) :
    Agree draft.settle.scope draft.settle.layers (tag.addAll draft.owedAttributes :: nesting.opened) ∧
      List.Forall₂ AskedTag.Honoured requests.all
        (nesting.tags ++ [tag.addAll draft.owedAttributes :: nesting.opened]) := by
  cases account with
  | tag asked _ _ latest tells written honoured =>
      refine ⟨tells.agree layered.outside, ?_⟩
      rw [Requests.all, latest]
      exact List.rel_append honoured (.cons (tells.honoured layered lawful written) .nil)

theorem Account.still {nesting : Nesting} (account : draft.Account requests ⟨.between, nesting⟩)
    (still : draft.Still after) : after.Account requests ⟨.between, nesting⟩ := by
  cases account with
  | between _ start agree honoured =>
      refine .between _ (fun begins => start (still.start begins)) ?_ honoured
      rw [still.scope, still.layers]
      exact agree

theorem Account.step (account : draft.Account requests sight) (lawful : Lawful draft.scope)
    (enabled : draft.settings.namespaces = true) (fit : draft.Fit .plain) (layered : draft.Layered)
    (named : event.Named) (shows_ : draft.Shows event sight after seen) :
    after.Account (requests.see event) seen := by
  cases shows_ with
  | between event nesting after quiet still =>
      rw [requests.see_of_quiet quiet]
      exact account.still still
  | topAttribute asked relied nesting after start still =>
      -- At the start no tag has been asked for that the attribute could be one of.
      have none : requests.latest = none := by
        cases account with
        | between _ first => exact first start
      have same : requests.addAttribute asked = requests := by
        rw [Requests.addAttribute, none, Option.map_none, ← none]
      show after.Account (requests.addAttribute asked) _
      rw [same]
      exact account.still still
  | configure setting sight notBetween =>
      have keeps : draft.Keeps { draft with settings := setting.apply draft.settings } :=
        .of_eq rfl rfl
      cases account with
      | between => exact absurd rfl notBetween
      | tag asked _ _ latest tells written honoured =>
          exact .tag asked _ _ latest (tells.of_eq rfl rfl) (written.mono keeps) honoured
      | value asked last _ _ _ _ latest tells written writes fills honoured =>
          exact .value asked last _ _ _ _ latest (tells.of_eq rfl rfl) (written.mono keeps)
            (writes.mono keeps) ⟨fills.declares, fills.other⟩ honoured
  | startElement request nsPrefix found owes nesting notXmlns names =>
      exact account.startElement enabled fit named names
  | startAttribute request nsPrefix kind found relied tag nesting names =>
      exact account.startAttribute lawful enabled fit layered named.1 named.2 names
  | endAttribute found tag name parts nesting applies =>
      exact account.endAttribute lawful applies
  | fill event text more after tag name parts nesting quiet scope elements special spells =>
      rw [requests.see_of_quiet quiet]
      exact account.fill scope elements special spells
  | qualify uri found kind middle tag name parts nesting finds => exact account.qualify lawful finds
  | endStartTag tag nesting =>
      rcases account.endStartTag layered lawful with ⟨agree, honoured⟩
      exact .between _ (by simp) agree honoured
  | endEmptyTag tag nesting =>
      have inside : 0 < draft.settle.depth := by
        cases account with
        | tag _ _ _ _ tells => rw [draft.depth_settle]; exact tells.inside
      rcases account.endStartTag layered lawful with ⟨agree, honoured⟩
      refine .between _ (fun start => ?_) (agree.pop inside) honoured
      exact absurd start draft.phaseAfterElement_ne_start
  | endTag name nesting inside =>
      cases account with
      | between _ _ agree honoured =>
          refine .between _ (fun start => ?_) (agree.pop inside) honoured
          exact absurd start draft.phaseAfterElement_ne_start
  | finish nesting outside =>
      cases account with
      | between _ _ agree honoured =>
          rw [layers_eq_nil outside] at agree
          rcases agree.of_nil with ⟨scope, opened⟩
          refine .between _ (fun _ => rfl) ?_ ?_
          · have reset : draft.reset.scope = [xmlBinding] := by rw [reset, scope]; rfl
            rw [reset, opened]
            exact .outside
          · rwa [Requests.see, requests.all_finish]

end Draft

end XmlStream
