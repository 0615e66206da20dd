import XmlStream.Proofs.Namespaces.Followed

namespace XmlStream

/-! What a prefix that occurs in the value of an attribute stands for when the start tag is complete. The
tag relies on a prefix from then on. A default namespace that it has inherited is not settled by that,
and a later attribute may declare another one. -/

open Reading

namespace Requests

/-- After some more requests, the tag to which attributes belonged before has been asked for with another
attribute, which declares the default namespace. -/
def Redeclares (before after : Requests) : Prop :=
  ∃ tag asked, before.latest = some tag ∧ after.all[before.earlier.length]? = some asked ∧
    ∃ name ∈ asked.attributes.drop tag.attributes.length, name.request.declares? = some none

variable {before requests : Requests} {asked : AskedTag} {index : Nat}

theorem all_see (found : requests.all[index]? = some asked) (event : Event) :
    ∃ more, (requests.see event).all[index]? =
      some { asked with attributes := asked.attributes ++ more } := by
  have unchanged (same : (requests.see event).all = requests.all) :
      ∃ more, (requests.see event).all[index]? =
        some { asked with attributes := asked.attributes ++ more } :=
    ⟨[], by rw [same, found, List.append_nil]⟩
  cases event with
  | startElement name relied =>
      refine ⟨[], ?_⟩
      have grown : (requests.element name).all = requests.all ++ [{ element := name }] := by
        simp [all, element]
      rw [see, grown, List.getElem?_append_left (List.getElem?_eq_some_iff.mp found).1, found,
        List.append_nil]
  | startAttribute name relied =>
      cases latest : requests.latest with
      | none => exact unchanged (by simp [see, addAttribute, all, latest])
      | some last =>
          have grown : (requests.addAttribute name).all = requests.earlier ++ [last.add name] := by
            simp [all, addAttribute, latest]
          rw [all, latest, Option.toList_some, List.getElem?_append] at found
          rw [see, grown, List.getElem?_append]
          split at found
          · rename_i inside
            exact ⟨[], by rw [if_pos inside, found, List.append_nil]⟩
          · rename_i outside
            rw [if_neg outside]
            rw [List.getElem?_singleton] at found ⊢
            split at found
            · rename_i last
              cases found
              exact ⟨[name], by rw [if_pos last]; rfl⟩
            · cases found
  | finish => exact unchanged requests.all_finish
  | _ => exact unchanged rfl

theorem Redeclares.see (redeclares : before.Redeclares requests) (event : Event) :
    before.Redeclares (requests.see event) := by
  rcases redeclares with ⟨tag, asked, began, found, name, member, declares⟩
  rcases all_see found event with ⟨more, grown⟩
  refine ⟨tag, _, began, grown, name, ?_, declares⟩
  rw [List.drop_append]
  exact List.mem_append_left _ member

end Requests

namespace Draft

variable {draft middle after : Draft} {nsPrefix uri : String} {declared : Bool}

structure SameDefault (before after : Draft) : Prop where
  uri : after.top.defaultUri = before.top.defaultUri
  origin : after.top.defaultNamespace = before.top.defaultNamespace

theorem SameDefault.refl (draft : Draft) : draft.SameDefault draft := ⟨rfl, rfl⟩

theorem SameDefault.trans (earlier : draft.SameDefault middle) (later : middle.SameDefault after) :
    draft.SameDefault after :=
  ⟨later.uri.trans earlier.uri, later.origin.trans earlier.origin⟩

theorem SameDefault.of_eq (elements : after.elements = draft.elements) : draft.SameDefault after := by
  have top : after.top = draft.top := congrArg ElementStack.top elements
  exact ⟨by rw [top], by rw [top]⟩

theorem sameDefault_modifyTop (draft : Draft) {change : OpenElement → OpenElement}
    (uri : (change draft.top).defaultUri = draft.top.defaultUri)
    (origin : (change draft.top).defaultNamespace = draft.top.defaultNamespace) :
    draft.SameDefault (draft.modifyTop change) :=
  ⟨by rw [top_modifyTop, uri], by rw [top_modifyTop, origin]⟩

theorem BindsPrefix.sameDefault (binds : draft.BindsPrefix nsPrefix uri declared after) :
    draft.SameDefault after := by
  cases binds with
  | known | fresh => exact .of_eq rfl

theorem MakesPrefix.sameDefault (makes : draft.MakesPrefix nsPrefix after) :
    draft.SameDefault after := by
  rcases makes.named with ⟨number, _, rfl⟩
  exact draft.sameDefault_modifyTop rfl rfl

theorem FindsPrefix.sameDefault {asked : Option String}
    (finds : draft.FindsPrefix asked uri nsPrefix after) : draft.SameDefault after := by
  cases finds with
  | found | kept => exact .refl draft
  | made _ _ _ _ makes _ binds => exact makes.sameDefault.trans binds.sameDefault
  | bound _ _ _ _ binds => exact binds.sameDefault

theorem QualifiesText.sameDefault (finds : draft.QualifiesText uri nsPrefix after) :
    draft.SameDefault after := by
  cases finds with
  | found => exact .refl draft
  | made _ _ _ _ makes _ binds => exact makes.sameDefault.trans binds.sameDefault

theorem NamesAttribute.sameDefault {request : NameRequest} {written : Option String}
    {kind : Option SpecialKind} (names : draft.NamesAttribute request written kind after) :
    draft.SameDefault after := by
  cases names with
  | namespaced _ _ _ _ _ _ _ _ _ _ finds => exact finds.sameDefault
  | _ => exact .refl _

theorem sameDefault_notePrefix (draft : Draft) (nsPrefix : String) :
    draft.SameDefault (draft.notePrefix nsPrefix) :=
  draft.sameDefault_modifyTop rfl rfl

theorem sameDefault_noteAttribute (draft : Draft) (written : Option String) :
    draft.SameDefault (draft.noteAttribute written) := by
  cases written with
  | none => exact .refl draft
  | some nsPrefix =>
      simp only [noteAttribute]
      split
      · exact draft.sameDefault_notePrefix nsPrefix
      · exact .refl draft

theorem Applies.sameDefault {special : SpecialAttribute} (applies : draft.Applies special after)
    (other : special.kind ≠ .declaration none) : draft.SameDefault after := by
  cases applies with
  | language | space => exact draft.sameDefault_modifyTop rfl rfl
  | outside => exact .refl draft
  | prefixed _ _ _ _ _ binds => exact binds.sameDefault
  | default => exact absurd rfl other

/-! ## Leaning on what is in scope -/

/-- In the open start tag a prefix, or its absence, stands for a namespace: for good, or as long as no
attribute declares the default namespace. -/
inductive Leans (draft : Draft) (uri : String) : Option String → Prop
  | pledged (nsPrefix : Option String) (pledges : draft.Pledges nsPrefix uri) :
      Leans draft uri nsPrefix
  | inherited (unsettled : ¬draft.settled) (same : draft.top.defaultUri = uri)
      (undeclaring : draft.special.map (·.kind) ≠ some (.declaration none)) : Leans draft uri none

variable {given : Option String} {requests before : Requests} {sight seen : Sight} {event : Event}
  {text : String}

theorem Leans.means (leans : draft.Leans uri given) : draft.means? given = some uri := by
  cases leans with
  | pledged _ pledges => exact pledges.means
  | inherited _ same => exact congrArg some same

theorem Leans.keep (leans : draft.Leans uri given) (keeps : draft.Keeps after)
    (same : draft.SameDefault after)
    (special : draft.special.map (·.kind) ≠ some (.declaration none) →
      after.special.map (·.kind) ≠ some (.declaration none)) : after.Leans uri given := by
  cases leans with
  | pledged _ pledges => exact .pledged _ (keeps _ _ pledges)
  | inherited unsettled isUri undeclaring =>
      refine .inherited ?_ (same.uri.trans isUri) (special undeclaring)
      rw [settled, same.origin]
      exact unsettled

/-- What has been asked for before is awaited: that a prefix, or its absence, stands for a namespace in
the complete start tag. -/
inductive Awaits (draft : Draft) (before : Requests) (given : Option String) (uri : String)
    (requests : Requests) (sight : Sight) : Prop
  | redeclared (noPrefix : given = none) (redeclares : before.Redeclares requests)
  | within (tag : AskedTag) (more : List AskedName) (inTag : sight.view ≠ .between)
      (began : before.latest = some tag) (earlier : requests.earlier = before.earlier)
      (latest : requests.latest = some { tag with attributes := tag.attributes ++ more })
      (leans : draft.Leans uri given)
  | complete (tags : List StartTag)
      (found : sight.nesting.tags[before.earlier.length]? = some tags)
      (resolves : Resolves tags given uri)

theorem Shows.tags (shows_ : draft.Shows event sight after seen) :
    sight.nesting.tags <+: seen.nesting.tags := by
  cases shows_ <;> simp [Nesting.add]

theorem awaits_of_complete {tag : StartTag} {nesting : Nesting} (item : Item)
    (followed : draft.Followed text requests ⟨.tag tag, nesting⟩)
    (earlier : requests.earlier = before.earlier) (leans : draft.Leans uri given)
    (completes : (nesting.add item).tags =
      nesting.tags ++ [tag.addAll draft.owedAttributes :: nesting.opened]) :
    after.Awaits before given uri requests ⟨.between, nesting.add item⟩ := by
  cases followed.account with
  | tag asked _ _ latest tells written honoured =>
      refine .complete (tag.addAll draft.owedAttributes :: nesting.opened) ?_ ?_
      · rw [completes, ← earlier, honoured.length_eq, List.getElem?_concat_length]
      · rw [Resolves, tells.means followed.layered.outside]
        exact leans.means

theorem Shows.awaits {tag : AskedTag} {more : List AskedName}
    (shows_ : draft.Shows event sight after seen) (followed : draft.Followed text requests sight)
    (inTag : sight.view ≠ .between) (began : before.latest = some tag)
    (earlier : requests.earlier = before.earlier)
    (latest : requests.latest = some { tag with attributes := tag.attributes ++ more })
    (leans : draft.Leans uri given) : after.Awaits before given uri (requests.see event) seen := by
  cases shows_ with
  | between | topAttribute | startElement | endTag | finish => exact absurd rfl inTag
  | configure =>
      exact .within tag more inTag began earlier latest (leans.keep (.of_eq rfl rfl) (.of_eq rfl) id)
  | startAttribute request written kind found relied _ nesting names =>
      have latestToo : (requests.addAttribute (draft.asked request)).latest =
          some { tag with attributes := tag.attributes ++ (more ++ [draft.asked request]) } := by
        rw [Requests.addAttribute, latest, ← List.append_assoc]
        rfl
      have entered : draft.Keeps (draft.enter .attribute) := .of_eq rfl rfl
      have keeps : draft.Keeps ({ found.noteAttribute written with
          special := kind.map fun kind => { kind } } : Draft) :=
        ((entered.trans (names.keeps followed.lawful).1).trans
          (found.keeps_noteAttribute written)).trans (.of_eq rfl rfl)
      -- Only a declaration of the default namespace can take away what a name leans on.
      cases leans with
      | pledged _ pledges =>
          exact .within tag _ (by simp) began earlier latestToo (.pledged _ (keeps _ _ pledges))
      | inherited unsettled isUri undeclaring =>
          by_cases declares : request.declares? = some none
          · have there : (requests.addAttribute (draft.asked request)).all[before.earlier.length]? =
                some { tag with attributes := tag.attributes ++ (more ++ [draft.asked request]) } := by
              rw [Requests.all, latestToo, ← earlier]
              exact List.getElem?_concat_length
            exact .redeclared rfl ⟨tag, _, began, there, draft.asked request, by simp, declares⟩
          · have enteredToo : draft.SameDefault (draft.enter .attribute) := .of_eq rfl
            have same : draft.SameDefault (found.noteAttribute written) :=
              (enteredToo.trans names.sameDefault).trans (found.sameDefault_noteAttribute written)
            refine .within tag _ (by simp) began earlier latestToo
              ((Leans.inherited unsettled isUri undeclaring).keep keeps ⟨same.uri, same.origin⟩ ?_)
            intro _ isKind
            have isKind : kind = some (.declaration none) := by
              simpa [Option.map_map, Function.comp_def] using isKind
            rcases names.kind_eq followed.enabled with whole | ⟨_, not⟩
            · rw [isKind, eq_comm, Option.map_eq_some_iff] at whole
              rcases whole with ⟨_, isDeclared, same⟩
              cases same
              exact declares isDeclared
            · exact not none isKind
  | endAttribute found _ name parts nesting applies =>
      cases isSpecial : draft.special with
      | none =>
          simp only [isSpecial] at applies
          subst applies
          exact .within tag more (by simp) began earlier latest
            (leans.keep (.of_eq rfl rfl) (.of_eq rfl) id)
      | some special =>
          simp only [isSpecial] at applies
          have idle : draft.Keeps ({ draft with special := none } : Draft) := .of_eq rfl rfl
          have keeps : draft.Keeps (found.enter .element) :=
            (idle.trans (applies.keeps followed.lawful).1).trans (.of_eq rfl rfl)
          refine .within tag more (by simp) began earlier latest ?_
          cases leans with
          | pledged _ pledges => exact .pledged _ (keeps _ _ pledges)
          | inherited unsettled isUri undeclaring =>
              have other : special.kind ≠ .declaration none := fun isKind =>
                undeclaring (by rw [isSpecial, Option.map_some, isKind])
              have same : draft.SameDefault (found.enter .element) :=
                ⟨(applies.sameDefault other).uri, (applies.sameDefault other).origin⟩
              have cleared : found.special = none := applies.frames.special
              refine (Leans.inherited unsettled isUri undeclaring).keep keeps same fun _ => ?_
              simp [cleared]
  | fill event text parts after _ name _ nesting quiet scope elements special spells =>
      rw [requests.see_of_quiet quiet]
      refine .within tag more (by simp) began earlier latest
        (leans.keep (.of_eq scope elements) (.of_eq elements) ?_)
      rw [special, kind_capture]
      exact id
  | qualify uri nsPrefix kind found _ name parts nesting finds =>
      have keeps := (finds.keeps followed.lawful).1.trans (found.keeps_notePrefix nsPrefix)
      have same := finds.sameDefault.trans (found.sameDefault_notePrefix nsPrefix)
      have special : (found.notePrefix nsPrefix).special = draft.special := finds.frames.special
      refine .within tag more (by simp) began earlier latest
        (leans.keep (keeps.trans (.of_eq rfl rfl)) (same.trans (.of_eq rfl)) ?_)
      rw [kind_capture, special]
      exact id
  | endStartTag _ nesting => exact awaits_of_complete _ followed earlier leans rfl
  | endEmptyTag _ nesting => exact awaits_of_complete _ followed earlier leans rfl

theorem kept_awaits (before : Requests) (given : Option String) (uri : String) :
    Kept fun draft => draft.Awaits before given uri := by
  intro draft after text requests sight seen event followed readable shows_ awaits
  cases awaits with
  | redeclared noPrefix redeclares => exact .redeclared noPrefix (redeclares.see event)
  | within tag more inTag began earlier latest leans =>
      exact shows_.awaits followed inTag began earlier latest leans
  | complete tags found resolves =>
      rcases shows_.tags with ⟨more, grown⟩
      refine .complete tags ?_ resolves
      rw [← grown, List.getElem?_append_left (List.getElem?_eq_some_iff.mp found).1, found]

end Draft

end XmlStream
