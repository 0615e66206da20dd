import XmlStream.Proofs.Draft.Layered
import XmlStream.Proofs.Simulation.Naming
import XmlStream.Wrap.Document

namespace XmlStream

/-! How the elements of a document of files are named: all in the same way, and only the root
element declares anything. -/

namespace Scope

def bare : Scope := [Draft.xmlBinding]

theorem position?_bare {nsPrefix : String} (bound : (bare.position? nsPrefix).isSome) :
    nsPrefix = "xml" := by
  by_contra other
  have none : bare.position? nsPrefix = none := by
    simp [position?, bare, latest?, Draft.xmlBinding, Ne.symm other]
  simp [none] at bound

theorem uri?_bare_xml : bare.uri? "xml" = some Namespace.xml := by decide +kernel

theorem prefixOf?_bare {uri nsPrefix : String} (found : bare.prefixOf? uri = some nsPrefix) :
    uri = Namespace.xml ∧ nsPrefix = "xml" := by
  rw [prefixOf?, Option.map_eq_some_iff] at found
  rcases found with ⟨entry, finds, rfl⟩
  have member := List.mem_of_find?_eq_some finds
  have stands := List.find?_some finds
  have same : entry = (Draft.xmlBinding, 0) := by simpa [bare] using member
  subst same
  simp only [Draft.xmlBinding, Bool.and_eq_true, beq_iff_eq] at stands
  exact ⟨stands.1.symm, rfl⟩

theorem owed_length (scope : Scope) : scope.owed scope.length = [] := by
  have all : scope.zipIdx.drop scope.length = [] := by simp
  simp [owed, all]

end Scope

namespace Draft

variable {draft : Draft}

def addBinding (draft : Draft) (binding : Binding) : Draft :=
  { draft with scope := draft.scope ++ [binding] }

theorem settle_eq_self (nothing : draft.scope.owed draft.top.bindingMark = [])
    (noDefault : draft.owesDefault = false) : draft.settle = draft := by
  simp [settle, nothing, noDefault]

theorem owedText_eq_empty (nothing : draft.scope.owed draft.top.bindingMark = [])
    (noDefault : draft.owesDefault = false) : draft.owedText = "" := by
  simp [owedText, nothing, noDefault]

theorem top_push_defaultNamespace (draft : Draft) :
    draft.push.top.defaultNamespace = .unset ∨ draft.push.top.defaultNamespace = .inherited := by
  rw [show draft.push.top.defaultNamespace =
    if draft.top.defaultNamespace = .unset then .unset else .inherited from rfl]
  split <;> simp

theorem owesDefault_push (draft : Draft) : draft.push.owesDefault = false := by
  rcases draft.top_push_defaultNamespace with origin | origin <;> simp [owesDefault, origin]

theorem owesDefault_setDefault_push (draft : Draft) (uri : String) :
    (draft.push.setDefault uri false).owesDefault = decide (uri ≠ draft.top.defaultUri) := by
  have inside : 0 < draft.push.depth := draft.depth_push_pos .element
  have top : (draft.push.setDefault uri false).top.defaultUri = uri ∧
      (draft.push.setDefault uri false).top.defaultNamespace = .owed := by
    rcases draft.top_push_defaultNamespace with origin | origin <;> simp [setDefault, origin]
  have depth : (draft.push.setDefault uri false).depth = draft.push.depth := depth_modifyTop _ _
  rw [owesDefault, depth, top.1, top.2]
  simp only [inside, decide_true, Bool.true_and, Bool.and_true]
  rfl

theorem settle_scope (draft : Draft) :
    draft.settle.scope = (draft.scope.owed draft.top.bindingMark).foldl
      (fun scope entry => scope.declare entry.2) draft.scope := rfl

theorem settle_top_defaultUri (draft : Draft) :
    draft.settle.top.defaultUri = draft.top.defaultUri := by
  cases owes : draft.owesDefault <;> simp [settle, top, owes]

theorem pop_modifyTop_push (draft : Draft) (next : Phase) {change : OpenElement → OpenElement}
    (kept : ∀ element, (change element).bindingMark = element.bindingMark) :
    ((draft.push.enter next).modifyTop change).pop = draft.enter next := by
  have mark : ((draft.push.enter next).modifyTop change).top.bindingMark = draft.scope.length := by
    rw [top_modifyTop, kept]
    rfl
  unfold pop
  rw [mark]
  simp [modifyTop, push, enter, ElementStack.modifyTop, ElementStack.push, ElementStack.pop]

end Draft

namespace Wrap

def Options.elementPrefix (options : Options) : Option String :=
  match options.uri, options.nsPrefix with
  | some uri, none => if uri = Namespace.xml then some "xml" else none
  | _, nsPrefix => nonEmpty? nsPrefix

def Options.tagName (options : Options) (name : String) : String :=
  writtenName options.elementPrefix name

def Options.declarations (options : Options) : String :=
  match options.uri, options.elementPrefix with
  | none, _ => ""
  | some uri, none =>
    if uri = "" then "" else Draft.defaultText options.settings.quote uri
  | some uri, some nsPrefix =>
    if nsPrefix = "xml" then ""
    else Draft.declarationText options.settings.quote ⟨nsPrefix, uri, false, none⟩

variable {options : Options} {draft : Draft} {name : String} {nsPrefix : Option String}
  {found : Draft}

/-- What the elements of a document have in common, for the way in which the root element is
named. -/
inductive Options.Roots (options : Options) (draft : Draft) : Draft → Prop
  | known (asked : ∀ uri, options.uri = some uri →
        uri = Namespace.xml ∧ options.elementPrefix = some "xml") : Roots options draft draft
  | default (uri : String) (asked : options.uri = some uri) (notXml : uri ≠ Namespace.xml)
      (noPrefix : nonEmpty? options.nsPrefix = none) : Roots options draft (draft.setDefault uri false)
  | binding (uri nsPrefix : String) (asked : options.uri = some uri) (notXml : nsPrefix ≠ "xml")
      (given : nonEmpty? options.nsPrefix = some nsPrefix) :
      Roots options draft (draft.addBinding ⟨nsPrefix, uri, false, none⟩)

theorem elementPrefix_of_noUri (noUri : options.uri = none) :
    options.elementPrefix = nonEmpty? options.nsPrefix := by
  rw [Options.elementPrefix, noUri]

theorem elementPrefix_of_given {given : String}
    (found : nonEmpty? options.nsPrefix = some given) : options.elementPrefix = some given := by
  cases nsPrefix : options.nsPrefix with
  | none => simp [nsPrefix] at found
  | some other =>
      rw [nsPrefix] at found
      cases uri : options.uri <;> simp [Options.elementPrefix, nsPrefix, uri, found]

theorem elementPrefix_of_notXml {uri : String} (asked : options.uri = some uri)
    (notXml : uri ≠ Namespace.xml) (noPrefix : nonEmpty? options.nsPrefix = none) :
    options.elementPrefix = none := by
  cases nsPrefix : options.nsPrefix with
  | none => simp [Options.elementPrefix, nsPrefix, asked, notXml]
  | some other =>
      rw [nsPrefix] at noPrefix
      simp [Options.elementPrefix, nsPrefix, asked, noPrefix]

theorem elementPrefix_of_xml (asked : options.uri = some Namespace.xml)
    (noPrefix : options.nsPrefix = none) : options.elementPrefix = some "xml" := by
  simp [Options.elementPrefix, asked, noPrefix]

theorem roots_of_names (enabled : draft.settings.namespaces = true)
    (bare : draft.scope = Scope.bare)
    (names : draft.NamesElement (options.elementNamed name) nsPrefix found) :
    nsPrefix = options.elementPrefix ∧ options.Roots draft found := by
  cases names with
  | withoutNamespaces disabled => simp [enabled] at disabled
  | bare _ noUri noPrefix =>
      have noUri : options.uri = none := noUri
      exact ⟨(elementPrefix_of_noUri noUri).trans noPrefix |>.symm, .known (by simp [noUri])⟩
  | bound given _ noUri isGiven isBound =>
      have noUri : options.uri = none := noUri
      exact ⟨(elementPrefix_of_given isGiven).symm, .known (by simp [noUri])⟩
  | found uri given _ wanted noPrefix stands =>
      rw [bare] at stands
      rcases Scope.prefixOf?_bare stands with ⟨rfl, rfl⟩
      have isXml := elementPrefix_of_xml wanted noPrefix
      refine ⟨isXml.symm, .known ?_⟩
      rintro uri asked
      exact ⟨Option.some.inj (asked.symm.trans wanted), isXml⟩
  | default uri _ _ wanted noPrefix binds =>
      refine ⟨(elementPrefix_of_notXml wanted binds.notXml noPrefix).symm, ?_⟩
      rw [binds.result]
      exact .default uri wanted binds.notXml noPrefix
  | binding uri given _ _ wanted isGiven allowed binds =>
      refine ⟨(elementPrefix_of_given isGiven).symm, ?_⟩
      cases binds with
      | known position latest same =>
          rw [bare] at latest same
          have isBound : (Scope.bare.position? given).isSome = true := by rw [latest]; rfl
          have isXml := Scope.position?_bare isBound
          subst isXml
          rw [Scope.uri?_bare_xml] at same
          cases same
          refine .known ?_
          rintro uri asked
          exact ⟨Option.some.inj (asked.symm.trans wanted), elementPrefix_of_given isGiven⟩
      | fresh different unused =>
          refine .binding uri given wanted ?_ isGiven
          rintro rfl
          rw [allowed.xmlKept rfl, bare] at different
          exact different Scope.uri?_bare_xml

/-! ## The root element -/

theorem owed_binding {binding : Binding} (owed : binding.declared = false) :
    Scope.owed (Scope.bare ++ [binding]) Scope.bare.length = [(binding, 1)] := by
  have latest := Scope.position?_concat Scope.bare binding binding.nsPrefix
  rw [if_pos rfl] at latest
  have entries : ((Scope.bare ++ [binding]).zipIdx.drop Scope.bare.length) = [(binding, 1)] := rfl
  rw [Scope.owed, entries]
  have last : List.length Scope.bare = 1 := rfl
  simp only [List.reverse_singleton, List.filter_cons, latest, owed, last]
  rfl

theorem Options.Roots.owedText (roots : options.Roots draft.push found)
    (settings : draft.settings = options.settings) (bare : draft.scope = Scope.bare)
    (outside : draft.top.defaultUri = "") : found.owedText = options.declarations := by
  have nothing : draft.push.scope.owed draft.push.top.bindingMark = [] := draft.scope.owed_length
  have quote : draft.push.settings.quote = options.settings.quote := congrArg Settings.quote settings
  cases roots with
  | known asked =>
      rw [Draft.owedText_eq_empty nothing draft.owesDefault_push, Options.declarations]
      cases given : options.uri with
      | none => rfl
      | some uri =>
          rw [(asked uri given).2]
          rfl
  | default uri asked notXml noPrefix =>
      have owes := draft.owesDefault_setDefault_push uri
      have noBinding : (draft.push.setDefault uri false).scope.owed
          (draft.push.setDefault uri false).top.bindingMark = [] := by
        rw [Draft.setDefault, Draft.top_modifyTop]
        exact nothing
      have top : (draft.push.setDefault uri false).top.defaultUri = uri := by
        simp [Draft.setDefault]
      rw [outside] at owes
      rw [Options.declarations, asked, elementPrefix_of_notXml asked notXml noPrefix, Draft.owedText,
        noBinding, owes, top]
      by_cases empty : uri = ""
      · simp [empty]
      · simp [empty, ← quote, Draft.setDefault, Draft.modifyTop]
  | binding uri nsPrefix asked notXml given =>
      let binding : Binding := ⟨nsPrefix, uri, false, none⟩
      have owed : (draft.push.addBinding binding).scope.owed
          (draft.push.addBinding binding).top.bindingMark = [(binding, 1)] := by
        rw [show (draft.push.addBinding binding).scope = draft.scope ++ [binding] from rfl,
          show (draft.push.addBinding binding).top.bindingMark = draft.scope.length from rfl, bare]
        exact owed_binding rfl
      have owes : (draft.push.addBinding binding).owesDefault = false := draft.owesDefault_push
      have quoteToo : (draft.push.addBinding binding).settings.quote = options.settings.quote := quote
      rw [Options.declarations, asked, elementPrefix_of_given given, Draft.owedText, owed, owes,
        quoteToo]
      simp [notXml, binding]

/-! ## The elements in it -/

/-- What the declarations of the root element leave behind for the elements in it. -/
inductive Options.Settled (options : Options) (draft : Draft) : Prop
  | known (asked : ∀ uri, options.uri = some uri →
        uri = Namespace.xml ∧ options.elementPrefix = some "xml")
      (bare : draft.scope = Scope.bare)
  | default (asked : options.uri = some draft.top.defaultUri)
      (notXml : draft.top.defaultUri ≠ Namespace.xml) (noPrefix : nonEmpty? options.nsPrefix = none)
      (bare : draft.scope = Scope.bare)
  | binding (uri nsPrefix : String) (asked : options.uri = some uri)
      (given : nonEmpty? options.nsPrefix = some nsPrefix)
      (bound : draft.scope.uri? nsPrefix = some uri)

theorem Options.Roots.settled (roots : options.Roots draft.push found)
    (bare : draft.scope = Scope.bare) {change : OpenElement → OpenElement}
    (uri : ∀ element, (change element).defaultUri = element.defaultUri)
    (mark : ∀ element, (change element).bindingMark = element.bindingMark) (next : Phase) :
    options.Settled ((found.modifyTop change).settle.enter next) := by
  have topUri : ((found.modifyTop change).settle.enter next).top.defaultUri = found.top.defaultUri := by
    rw [Draft.enter_top, Draft.settle_top_defaultUri, Draft.top_modifyTop, uri]
  have scope : ((found.modifyTop change).settle.enter next).scope =
      (found.scope.owed found.top.bindingMark).foldl (fun scope entry => scope.declare entry.2)
        found.scope := by
    rw [Draft.enter_scope, Draft.settle_scope, Draft.top_modifyTop, mark]
    rfl
  have nothing : draft.push.scope.owed draft.push.top.bindingMark = [] := draft.scope.owed_length
  cases roots with
  | known asked =>
      refine .known asked ?_
      rw [scope, nothing]
      exact bare
  | default given asked notXml noPrefix =>
      have top : (draft.push.setDefault given false).top.defaultUri = given := by
        simp [Draft.setDefault]
      rw [top] at topUri
      refine .default (by rw [topUri, asked]) (by rwa [topUri]) noPrefix ?_
      have sameMark : (draft.push.setDefault given false).top.bindingMark =
          draft.push.top.bindingMark := by
        rw [Draft.setDefault, Draft.top_modifyTop]
      have sameScope : (draft.push.setDefault given false).scope = draft.push.scope := rfl
      rw [scope, sameMark, sameScope, nothing]
      exact bare
  | binding given nsPrefix asked notXml isGiven =>
      refine .binding given nsPrefix asked isGiven ?_
      rw [scope, show (draft.push.addBinding ⟨nsPrefix, given, false, none⟩).scope =
          draft.scope ++ [⟨nsPrefix, given, false, none⟩] from rfl,
        show (draft.push.addBinding ⟨nsPrefix, given, false, none⟩).top.bindingMark =
          draft.scope.length from rfl, bare, owed_binding rfl]
      exact (Scope.uri?_concat Scope.bare ⟨nsPrefix, given, true, none⟩ nsPrefix).trans (if_pos rfl)

theorem names_of_settled (enabled : draft.settings.namespaces = true)
    (settled : options.Settled draft)
    (names : (draft.push.enter .element).NamesElement (options.elementNamed name) nsPrefix found) :
    nsPrefix = options.elementPrefix ∧ (found = draft.push.enter .element ∨
      found = (draft.push.enter .element).setDefault draft.top.defaultUri false) := by
  have enabled : (draft.push.enter .element).settings.namespaces = true := enabled
  cases settled with
  | known asked bare =>
      have bare : (draft.push.enter .element).scope = Scope.bare := bare
      rcases roots_of_names enabled bare names with ⟨rfl, roots⟩
      refine ⟨rfl, ?_⟩
      cases roots with
      | known => exact .inl rfl
      | default uri askedToo notXml => exact absurd (asked uri askedToo).1 notXml
      | binding uri nsPrefix askedToo notXml given =>
          have isXml := (asked uri askedToo).2
          rw [elementPrefix_of_given given] at isXml
          exact absurd (Option.some.inj isXml) notXml
  | default asked notXml noPrefix bare =>
      have bare : (draft.push.enter .element).scope = Scope.bare := bare
      rcases roots_of_names enabled bare names with ⟨rfl, roots⟩
      refine ⟨rfl, ?_⟩
      cases roots with
      | known => exact .inl rfl
      | default uri askedToo =>
          rw [asked] at askedToo
          cases askedToo
          exact .inr rfl
      | binding uri nsPrefix _ _ given =>
          rw [noPrefix] at given
          cases given
  | binding uri nsPrefix asked given bound =>
      cases names with
      | withoutNamespaces disabled => exact absurd (enabled.symm.trans disabled) (by simp)
      | bare _ noUri => exact absurd (asked.symm.trans noUri) (by simp)
      | bound _ _ noUri => exact absurd (asked.symm.trans noUri) (by simp)
      | found _ _ _ _ noPrefix =>
          have noPrefix : options.nsPrefix = none := noPrefix
          simp [noPrefix] at given
      | default _ _ _ _ noPrefix =>
          have noPrefix : nonEmpty? options.nsPrefix = none := noPrefix
          simp [noPrefix] at given
      | binding uriToo nsPrefixToo _ _ askedToo givenToo _ binds =>
          have sameUri : uri = uriToo := Option.some.inj (asked.symm.trans askedToo)
          have samePrefix : nsPrefix = nsPrefixToo := Option.some.inj (given.symm.trans givenToo)
          subst sameUri samePrefix
          refine ⟨(elementPrefix_of_given given).symm, .inl ?_⟩
          cases binds with
          | known => rfl
          | fresh different => exact absurd bound different

theorem owes_nothing_of_settled (enabled : draft.settings.namespaces = true)
    (settled : options.Settled draft)
    (names : (draft.push.enter .element).NamesElement (options.elementNamed name) nsPrefix found) :
    nsPrefix = options.elementPrefix ∧ found.owesDefault = false ∧
      ∃ change, (∀ element, Draft.SameElement element (change element)) ∧
        found = (draft.push.enter .element).modifyTop change := by
  rcases names_of_settled enabled settled names with ⟨rfl, rfl | rfl⟩
  · refine ⟨rfl, draft.owesDefault_push, id, fun _ => ⟨rfl, rfl, rfl, rfl⟩, ?_⟩
    have same : (draft.push.enter .element).elements =
        (draft.push.enter .element).elements.modifyTop id :=
      (ElementStack.modifyTop_eq_self rfl).symm
    rw [Draft.modifyTop, ← same]
  · have owes := draft.owesDefault_setDefault_push draft.top.defaultUri
    rw [show decide (draft.top.defaultUri ≠ draft.top.defaultUri) = false by simp] at owes
    refine ⟨rfl, owes, _, ?_, rfl⟩
    exact fun _ => ⟨rfl, rfl, rfl, rfl⟩

end Wrap

end XmlStream
