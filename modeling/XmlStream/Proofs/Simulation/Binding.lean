import XmlStream.Proofs.Simulation.Writing

namespace XmlStream

/-! Binding prefixes and the default namespace, as steps of the draft. Nothing is
written here. -/

namespace Writer

/-- One writer comes from another one without writing, and knows its bindings as well
as that did. -/
structure Silent (before after : Writer) : Prop where
  output : after.output = before.output
  lastToken : after.lastToken = before.lastToken
  sound : before.bindings.Sound → after.bindings.Sound

theorem Silent.refl (writer : Writer) : writer.Silent writer := ⟨rfl, rfl, id⟩

theorem Silent.trans {first second third : Writer} (earlier : first.Silent second)
    (later : second.Silent third) : first.Silent third where
  output := later.output.trans earlier.output
  lastToken := later.lastToken.trans earlier.lastToken
  sound := later.sound ∘ earlier.sound

theorem prefixInUse_eq {writer : Writer} (sound : writer.bindings.Sound) (nsPrefix : String) :
    writer.prefixInUse nsPrefix = writer.draft.prefixInUse nsPrefix := by
  simp only [prefixInUse, Draft.prefixInUse, sound.lookupFrom?_eq]
  rfl

theorem modifyTop_ok {change : OpenElement → OpenElement} {before after : Writer}
    {nothing : Unit} (ok : modifyTop change before = .ok nothing after) :
    before.Silent after ∧ after.draft = before.draft.modifyTop change := by
  simp only [modifyTop, modify_eq_ok] at ok
  subst ok
  exact ⟨⟨rfl, rfl, id⟩, rfl⟩

theorem checkSpelling_ok {nsPrefix uri : String} {before after : Writer} {nothing : Unit}
    (ok : checkSpelling nsPrefix uri before = .ok nothing after) :
    before = after ∧ (nsPrefix = "xml" → uri = Namespace.xml) := by
  simp only [checkSpelling, refuse_eq_ok, pure_eq_ok, true_and] at ok
  obtain ⟨allowed, rfl⟩ := ok
  refine ⟨rfl, fun spelled => ?_⟩
  subst spelled
  by_contra other
  exact allowed (by simp [equalIgnoringCase, other])

theorem checkReserved_ok {nsPrefix : Option String} {uri : String} {before after : Writer}
    {nothing : Unit} (ok : checkReserved nsPrefix uri before = .ok nothing after) :
    before = after ∧ uri ≠ Namespace.declarations ∧
      (uri = Namespace.xml → nsPrefix = some "xml") ∧ nsPrefix ≠ some "xmlns" := by
  simp only [checkReserved, refuse_eq_ok, pure_eq_ok, true_and, Bool.or_eq_true, Bool.and_eq_true, decide_eq_true_eq, not_or, not_and,
    Decidable.not_not] at ok
  obtain ⟨⟨⟨notDeclarations, xmlOnly⟩, notXmlns⟩, rfl⟩ := ok
  exact ⟨rfl, notDeclarations, xmlOnly, notXmlns⟩

theorem pushBinding_ok {nsPrefix uri : String} {declared : Bool} {before after : Writer}
    {nothing : Unit} (ok : pushBinding nsPrefix uri declared before = .ok nothing after) :
    before.Silent after ∧ after.draft =
      { before.draft with scope := before.draft.scope ++ [⟨nsPrefix, uri, declared, none⟩] } := by
  simp only [pushBinding, bind_eq_ok, get_eq_ok, modify_eq_ok, ite_eq_ok, report,
    pure_eq_ok] at ok
  obtain ⟨_, _, ⟨rfl, rfl⟩, _, _, rfl, ⟨_, rfl⟩ | ⟨_, _, rfl⟩⟩ := ok
  all_goals
    refine ⟨⟨rfl, rfl, fun sound => sound.push _ _ _⟩, ?_⟩
    simp only [draft, Bindings.scope_push]

theorem bindDefault_ok {uri : String} {declared : Bool} {before after : Writer}
    {nothing : Unit} (ok : bindDefault uri declared before = .ok nothing after) :
    before.Silent after ∧ before.draft.BindsDefault uri declared after.draft := by
  simp only [bindDefault, bind_eq_ok, get_eq_ok, refuse_bind_eq_ok] at ok
  obtain ⟨_, _, allowed, _, _, ⟨rfl, rfl⟩, consistent, ok⟩ := ok
  obtain ⟨rfl, notDeclarations, xmlOnly, _⟩ := checkReserved_ok allowed
  obtain ⟨silent, result⟩ := modifyTop_ok ok
  refine ⟨silent, notDeclarations, fun isXml => by simpa using xmlOnly isXml, ?_, result⟩
  intro settled
  by_contra other
  apply consistent
  simp only [Bool.and_eq_true, Bool.or_eq_true, decide_eq_true_eq, ne_eq]
  exact ⟨settled, other⟩

theorem bindPrefix_ok {nsPrefix uri : String} {declared : Bool} {before after : Writer}
    {nothing : Unit} (sound : before.bindings.Sound)
    (spelling : nsPrefix = "xml" → uri = Namespace.xml)
    (ok : bindPrefix nsPrefix uri declared before = .ok nothing after) :
    before.Silent after ∧ Draft.Bindable nsPrefix uri ∧
      before.draft.BindsPrefix nsPrefix uri declared after.draft := by
  simp only [bindPrefix, bind_eq_ok, get_eq_ok, refuse_bind_eq_ok] at ok
  obtain ⟨_, _, allowed, nonEmpty, _, _, ⟨rfl, rfl⟩, ok⟩ := ok
  obtain ⟨rfl, notDeclarations, xmlOnly, notXmlns⟩ := checkReserved_ok allowed
  have bindable : Draft.Bindable nsPrefix uri :=
    ⟨nonEmpty, notDeclarations, fun isXml => by simpa using xmlOnly isXml, spelling,
      by simpa using notXmlns⟩
  rw [sound.boundTo?_eq] at ok
  by_cases same : before.bindings.scope.uri? nsPrefix = some uri
  · obtain ⟨entry, latest, _⟩ := Option.map_eq_some_iff.mp same
    have position : before.bindings.scope.position? nsPrefix = some entry.2 := by
      simp [Scope.position?, latest]
    simp only [same, if_true, position, ite_eq_ok, set_eq_ok, pure_eq_ok, true_and] at ok
    have binds : before.draft.BindsPrefix nsPrefix uri declared _ :=
      .known entry.2 position same
    obtain ⟨yes, rfl⟩ | ⟨no, rfl⟩ := ok
    · refine ⟨⟨rfl, rfl, fun sound => sound.setDeclared _⟩, bindable, ?_⟩
      simpa [yes, draft, Bindings.scope_setDeclared] using binds
    · refine ⟨.refl _, bindable, ?_⟩
      simpa [no, draft] using binds
  · simp only [same, if_false, refuse_bind_eq_ok] at ok
    obtain ⟨unused, ok⟩ := ok
    obtain ⟨silent, result⟩ := pushBinding_ok ok
    rw [prefixInUse_eq sound, Bool.not_eq_true] at unused
    rw [result]
    exact ⟨silent, bindable, .fresh same unused⟩

end Writer

end XmlStream
