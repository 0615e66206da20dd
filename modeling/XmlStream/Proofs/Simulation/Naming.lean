import XmlStream.Proofs.Bindings.Fresh
import XmlStream.Proofs.Simulation.Binding

namespace XmlStream

/-! The prefixes that elements, attributes and names in text get, as steps of the
draft. -/

@[simp] theorem nonEmpty?_none : nonEmpty? none = none := rfl

@[simp] theorem nonEmpty?_empty : nonEmpty? (some "") = none := rfl

theorem nonEmpty?_some {text : String} (named : text ≠ "") : nonEmpty? (some text) = some text := by
  simp [nonEmpty?, named]

theorem nonEmpty?_eq_some {text : Option String} {found : String}
    (isSome : nonEmpty? text = some found) : text = some found ∧ found ≠ "" := by
  simpa [nonEmpty?, Option.filter_eq_some_iff] using isSome

theorem generatedPrefix_ne {depth number : Nat} {other : String}
    (spelled : other.toList.head? ≠ some 'd') :
    Bindings.generatedPrefix depth number ≠ other := by
  intro same
  rw [← same, Bindings.generatedPrefix_toList] at spelled
  exact spelled rfl

namespace Writer

variable {before after : Writer}

theorem checkBound_ok {nsPrefix : String} {nothing : Unit} (sound : before.bindings.Sound)
    (ok : checkBound nsPrefix before = .ok nothing after) :
    before = after ∧ (before.draft.scope.position? nsPrefix).isSome := by
  simp only [checkBound, bind_eq_ok, get_eq_ok, refuse_eq_ok, pure_eq_ok, true_and] at ok
  obtain ⟨_, _, ⟨rfl, rfl⟩, bound, rfl⟩ := ok
  rw [sound.lookup?_eq] at bound
  exact ⟨rfl, by simpa [Option.isSome_iff_ne_none] using bound⟩

theorem makePrefix_ok {made : String} (sound : before.bindings.Sound)
    (ok : makePrefix before = .ok made after) :
    before.Silent after ∧ before.draft.MakesPrefix made after.draft := by
  simp only [makePrefix, bind_eq_ok, get_eq_ok, pure_eq_ok] at ok
  obtain ⟨_, _, ⟨rfl, rfl⟩, _, _, changed, rfl, rfl⟩ := ok
  obtain ⟨silent, result⟩ := modifyTop_ok changed
  refine ⟨silent, ⟨_, rfl, result⟩, ?_⟩
  have unbound := sound.lookup?_nextNumber before.depth before.top.prefixCount
  rwa [sound.lookup?_eq] at unbound

theorem bindMade_ok {middle : Writer} {made uri : String} {nothing : Unit}
    (sound : before.bindings.Sound) (makes : makePrefix before = .ok made middle)
    (binds : bindPrefix made uri false middle = .ok nothing after) :
    before.Silent after ∧ before.draft.MakesPrefix made middle.draft ∧
      Draft.Bindable made uri ∧ middle.draft.BindsPrefix made uri false after.draft := by
  obtain ⟨silent, made'⟩ := makePrefix_ok sound makes
  have spelling : made = "xml" → uri = Namespace.xml := by
    obtain ⟨number, rfl, _⟩ := made'.named
    intro same
    exact absurd same (generatedPrefix_ne (by decide))
  obtain ⟨silentToo, bindable, bound⟩ := bindPrefix_ok (silent.sound sound) spelling binds
  exact ⟨silent.trans silentToo, made', bindable, bound⟩

/-! ## Elements -/

theorem elementPrefixFor_ok {request : NameRequest} {uri : String} {result : Option String}
    (sound : before.bindings.Sound) (enabled : before.settings.namespaces = true)
    (wanted : request.uri = some uri)
    (ok : elementPrefixFor request.nsPrefix uri before = .ok result after) :
    before.Silent after ∧
      before.draft.NamesElement request (nonEmpty? result) after.draft := by
  cases given : request.nsPrefix with
  | none =>
      simp only [given, elementPrefixFor, bind_eq_ok, get_eq_ok] at ok
      obtain ⟨_, _, ⟨rfl, rfl⟩, ok⟩ := ok
      rw [sound.findPrefix?_eq] at ok
      cases found : before.bindings.scope.prefixOf? uri with
      | some nsPrefix =>
          simp only [found, pure_eq_ok] at ok
          obtain ⟨rfl, rfl⟩ := ok
          exact ⟨.refl _, .found uri nsPrefix enabled wanted given found⟩
      | none =>
          simp only [found, bind_eq_ok, pure_eq_ok] at ok
          obtain ⟨_, _, binds, rfl, rfl⟩ := ok
          obtain ⟨silent, bound⟩ := bindDefault_ok binds
          exact ⟨silent, .default uri _ enabled wanted (by simp [given]) bound⟩
  | some nsPrefix =>
      by_cases named : nsPrefix = ""
      · simp only [given, named, elementPrefixFor, bind_eq_ok, pure_eq_ok] at ok
        obtain ⟨_, _, binds, rfl, rfl⟩ := ok
        obtain ⟨silent, bound⟩ := bindDefault_ok binds
        exact ⟨silent, .default uri _ enabled wanted (by simp [given, named]) bound⟩
      · rw [given, elementPrefixFor.eq_3 _ _ named] at ok
        simp only [refuse_bind_eq_ok, bind_eq_ok, pure_eq_ok] at ok
        obtain ⟨_, _, _, spelled, _, _, binds, rfl, rfl⟩ := ok
        obtain ⟨rfl, spelling⟩ := checkSpelling_ok spelled
        obtain ⟨silent, bindable, bound⟩ := bindPrefix_ok sound spelling binds
        have wantedPrefix : nonEmpty? request.nsPrefix = some nsPrefix := by
          rw [given, nonEmpty?_some named]
        rw [nonEmpty?_some named]
        exact ⟨silent, .binding uri nsPrefix _ enabled wanted wantedPrefix bindable bound⟩

theorem elementPrefix_ok {request : NameRequest} {result : Option String}
    (sound : before.bindings.Sound) (ok : elementPrefix request before = .ok result after) :
    before.Silent after ∧
      before.draft.NamesElement request (nonEmpty? result) after.draft := by
  simp only [elementPrefix, bind_eq_ok, get_eq_ok] at ok
  obtain ⟨_, _, ⟨rfl, rfl⟩, ok⟩ := ok
  cases enabled : before.settings.namespaces with
  | false =>
      simp only [enabled, Bool.not_false, if_true, pure_eq_ok] at ok
      obtain ⟨rfl, rfl⟩ := ok
      exact ⟨.refl _, .withoutNamespaces enabled⟩
  | true =>
      simp only [enabled, Bool.not_true, Bool.false_eq_true, if_false] at ok
      cases wanted : request.uri with
      | some uri =>
          simp only [wanted] at ok
          exact elementPrefixFor_ok sound enabled wanted ok
      | none =>
          simp only [wanted] at ok
          cases given : nonEmpty? request.nsPrefix with
          | none =>
              simp only [given, pure_eq_ok] at ok
              obtain ⟨rfl, rfl⟩ := ok
              rw [given]
              exact ⟨.refl _, .bare enabled wanted given⟩
          | some nsPrefix =>
              simp only [given, bind_eq_ok, pure_eq_ok] at ok
              obtain ⟨_, _, checked, rfl, rfl⟩ := ok
              obtain ⟨rfl, bound⟩ := checkBound_ok sound checked
              rw [given]
              exact ⟨.refl _, .bound nsPrefix enabled wanted given bound⟩

/-! ## Attributes -/

theorem checkOwnNamespace_ok {nsPrefix own : String} {uri : Option String} {nothing : Unit}
    (ok : checkOwnNamespace nsPrefix own uri before = .ok nothing after) :
    before = after ∧ ∀ asked, nonEmpty? uri = some asked → asked = own := by
  unfold checkOwnNamespace at ok
  cases given : nonEmpty? uri with
  | none =>
      simp only [given, pure_eq_ok, true_and] at ok
      exact ⟨ok, by simp⟩
  | some asked =>
      simp only [given, refuse_eq_ok, pure_eq_ok, true_and, Decidable.not_not] at ok
      obtain ⟨same, rfl⟩ := ok
      exact ⟨rfl, by simpa using same⟩

theorem attributePrefixFor_ok {nsPrefix : Option String} {uri result : String}
    (sound : before.bindings.Sound)
    (ok : attributePrefixFor nsPrefix uri before = .ok result after) :
    before.Silent after ∧ 0 < before.draft.depth ∧
      before.draft.FindsPrefix nsPrefix uri result after.draft := by
  cases nsPrefix with
  | none =>
      simp only [attributePrefixFor, bind_eq_ok, get_eq_ok, refuse_bind_eq_ok] at ok
      obtain ⟨_, _, ⟨rfl, rfl⟩, inside, ok⟩ := ok
      rw [sound.findPrefix?_eq] at ok
      cases found : before.bindings.scope.prefixOf? uri with
      | some nsPrefix =>
          simp only [found, Option.filter_none, pure_eq_ok] at ok
          obtain ⟨rfl, rfl⟩ := ok
          exact ⟨.refl _, Nat.pos_of_ne_zero inside, .found nsPrefix (by simp) found⟩
      | none =>
          simp only [found, Option.filter_none, bind_eq_ok, pure_eq_ok] at ok
          obtain ⟨_, _, makes, _, _, binds, rfl, rfl⟩ := ok
          obtain ⟨silent, made, bindable, bound⟩ := bindMade_ok sound makes binds
          exact ⟨silent, Nat.pos_of_ne_zero inside,
            .made _ _ _ (by simp) found made bindable bound⟩
  | some nsPrefix =>
      simp only [attributePrefixFor, bind_eq_ok, get_eq_ok, refuse_bind_eq_ok] at ok
      obtain ⟨_, _, spelled, _, _, ⟨rfl, rfl⟩, inside, ok⟩ := ok
      obtain ⟨rfl, spelling⟩ := checkSpelling_ok spelled
      have inUse := prefixInUse_eq sound nsPrefix
      rw [sound.findPrefix?_eq] at ok
      cases used : before.prefixInUse nsPrefix with
      | true =>
          have givesWay : ∀ wanted, some nsPrefix = some wanted →
              before.draft.prefixInUse wanted = true := by
            rintro _ ⟨⟩
            rw [← inUse, used]
          cases found : before.bindings.scope.prefixOf? uri with
          | some nsPrefix =>
              simp only [used, found, Option.filter_some, Bool.not_true, Bool.false_eq_true,
                if_false, pure_eq_ok] at ok
              obtain ⟨rfl, rfl⟩ := ok
              exact ⟨.refl _, Nat.pos_of_ne_zero inside, .found _ givesWay found⟩
          | none =>
              simp only [used, found, Option.filter_some, Bool.not_true, Bool.false_eq_true,
                if_false, bind_eq_ok, pure_eq_ok] at ok
              obtain ⟨_, _, makes, _, _, binds, rfl, rfl⟩ := ok
              obtain ⟨silent, made, bindable, bound⟩ := bindMade_ok sound makes binds
              exact ⟨silent, Nat.pos_of_ne_zero inside,
                .made _ _ _ givesWay found made bindable bound⟩
      | false =>
          rw [used] at inUse
          simp only [used, Option.filter_some, Bool.not_false, if_true, ite_eq_ok, bind_eq_ok,
            pure_eq_ok] at ok
          obtain ⟨_, _, _, binds, rfl, rfl⟩ | ⟨stands, rfl, rfl⟩ := ok
          · obtain ⟨silent, bindable, bound⟩ := bindPrefix_ok sound spelling binds
            exact ⟨silent, Nat.pos_of_ne_zero inside,
              .bound _ _ rfl inUse.symm bindable bound⟩
          · exact ⟨.refl _, Nat.pos_of_ne_zero inside,
              .kept _ rfl inUse.symm (Decidable.not_not.mp stands)⟩

theorem ordinaryPrefix_ok {request : NameRequest} {result : Option String}
    (sound : before.bindings.Sound) (enabled : before.settings.namespaces = true)
    (notXml : request.wantedPrefix ≠ some "xml") (notXmlns : request.wantedPrefix ≠ some "xmlns")
    (named : request.wantedPrefix = none → request.localName ≠ "xmlns")
    (ok : ordinaryPrefix request.wantedPrefix request.uri before = .ok result after) :
    before.Silent after ∧ before.draft.NamesAttribute request result none after.draft := by
  cases wanted : request.uri with
  | none =>
      cases given : request.wantedPrefix with
      | none =>
          simp only [wanted, given, ordinaryPrefix, pure_eq_ok] at ok
          obtain ⟨rfl, rfl⟩ := ok
          exact ⟨.refl _, .bare enabled given (named given) wanted⟩
      | some nsPrefix =>
          simp only [wanted, given, ordinaryPrefix, bind_eq_ok, pure_eq_ok] at ok
          obtain ⟨_, _, checked, rfl, rfl⟩ := ok
          obtain ⟨rfl, bound⟩ := checkBound_ok sound checked
          refine ⟨.refl _, .bound nsPrefix enabled given ?_ ?_ wanted bound⟩
          · rintro rfl
            exact notXml given
          · rintro rfl
            exact notXmlns given
  | some uri =>
      by_cases empty : uri = ""
      · subst empty
        simp only [wanted, ordinaryPrefix, pure_eq_ok] at ok
        obtain ⟨rfl, rfl⟩ := ok
        exact ⟨.refl _, .unprefixed enabled notXml notXmlns named wanted⟩
      · rw [wanted, ordinaryPrefix.eq_4 _ _ empty] at ok
        simp only [bind_eq_ok, pure_eq_ok] at ok
        obtain ⟨_, _, found, rfl, rfl⟩ := ok
        obtain ⟨silent, inside, finds⟩ := attributePrefixFor_ok sound found
        exact ⟨silent, .namespaced uri _ _ enabled notXml notXmlns named wanted empty inside finds⟩

theorem attributeRole_ok {request : NameRequest} {result : Option String × Option SpecialKind}
    (sound : before.bindings.Sound) (ok : attributeRole request before = .ok result after) :
    before.Silent after ∧
      before.draft.NamesAttribute request result.1 result.2 after.draft := by
  simp only [attributeRole, bind_eq_ok, get_eq_ok] at ok
  obtain ⟨_, _, ⟨rfl, rfl⟩, ok⟩ := ok
  cases enabled : before.settings.namespaces with
  | false =>
      simp only [enabled, Bool.not_false, if_true, pure_eq_ok] at ok
      obtain ⟨rfl, rfl⟩ := ok
      exact ⟨.refl _, .withoutNamespaces enabled⟩
  | true =>
      simp only [enabled, Bool.not_true, Bool.false_eq_true, if_false] at ok
      rw [← NameRequest.wantedPrefix] at ok
      by_cases isXml : request.wantedPrefix = some "xml"
      · simp only [isXml, bind_eq_ok, pure_eq_ok] at ok
        obtain ⟨_, _, checked, rfl, rfl⟩ := ok
        obtain ⟨rfl, own⟩ := checkOwnNamespace_ok checked
        exact ⟨.refl _, .xml enabled isXml own⟩
      by_cases isXmlns : request.wantedPrefix = some "xmlns"
      · simp only [isXmlns, bind_eq_ok, pure_eq_ok] at ok
        obtain ⟨_, _, checked, rfl, rfl⟩ := ok
        obtain ⟨rfl, own⟩ := checkOwnNamespace_ok checked
        exact ⟨.refl _, .declaration enabled isXmlns own⟩
      · simp only [ite_eq_ok, bind_eq_ok, pure_eq_ok, Bool.and_eq_true, decide_eq_true_eq] at ok
        obtain ⟨⟨noPrefix, named⟩, _, _, checked, rfl, rfl⟩ | ⟨other, _, _, finds, rfl, rfl⟩ := ok
        · obtain ⟨rfl, own⟩ := checkOwnNamespace_ok checked
          exact ⟨.refl _, .defaultDeclaration enabled noPrefix named own⟩
        · exact ordinaryPrefix_ok sound enabled isXml isXmlns
            (fun noPrefix named => other ⟨noPrefix, named⟩) finds

/-! ## Text, and the consequences of special attributes -/

theorem textPrefixFor_ok {uri result : String} (sound : before.bindings.Sound)
    (ok : textPrefixFor uri before = .ok result after) :
    before.Silent after ∧ before.draft.QualifiesText uri result after.draft := by
  simp only [textPrefixFor, bind_eq_ok, get_eq_ok] at ok
  obtain ⟨_, _, ⟨rfl, rfl⟩, ok⟩ := ok
  rw [sound.findPrefix?_eq] at ok
  cases found : before.bindings.scope.prefixOf? uri with
  | some nsPrefix =>
      simp only [found, pure_eq_ok] at ok
      obtain ⟨rfl, rfl⟩ := ok
      exact ⟨.refl _, .found _ found⟩
  | none =>
      simp only [found, refuse_bind_eq_ok, Decidable.not_not, bind_eq_ok, pure_eq_ok] at ok
      obtain ⟨inside, _, _, makes, _, _, binds, rfl, rfl⟩ := ok
      obtain ⟨silent, made, bindable, bound⟩ := bindMade_ok sound makes binds
      exact ⟨silent, .made _ _ _ inside found made bindable bound⟩

theorem applySpecial_ok {special : SpecialAttribute} {nothing : Unit}
    (sound : before.bindings.Sound) (ok : applySpecial special before = .ok nothing after) :
    before.Silent after ∧ before.draft.Applies special after.draft := by
  obtain ⟨kind, value⟩ := special
  cases kind with
  | language =>
      obtain ⟨silent, result⟩ := modifyTop_ok ok
      rw [result]
      exact ⟨silent, .language value⟩
  | space =>
      cases asked : spaceHandling? value with
      | none => simp [applySpecial, asked] at ok
      | some space =>
          simp only [applySpecial, asked] at ok
          obtain ⟨silent, result⟩ := modifyTop_ok ok
          rw [result]
          exact ⟨silent, .space value space asked⟩
  | declaration nsPrefix =>
      cases nsPrefix with
      | none =>
          simp only [applySpecial, bind_eq_ok, get_eq_ok, ite_eq_ok, pure_eq_ok, true_and] at ok
          obtain ⟨_, _, ⟨rfl, rfl⟩, ⟨inside, binds⟩ | ⟨outside, rfl⟩⟩ := ok
          · obtain ⟨silent, bound⟩ := bindDefault_ok binds
            exact ⟨silent, .default value _ inside bound⟩
          · exact ⟨.refl _, .outside none value (Nat.eq_zero_of_not_pos outside)⟩
      | some nsPrefix =>
          simp only [applySpecial, bind_eq_ok, get_eq_ok, ite_eq_ok, pure_eq_ok, true_and] at ok
          obtain ⟨_, _, spelled, _, _, ⟨rfl, rfl⟩, ⟨inside, binds⟩ | ⟨outside, rfl⟩⟩ := ok
          · obtain ⟨rfl, spelling⟩ := checkSpelling_ok spelled
            obtain ⟨silent, bindable, bound⟩ := bindPrefix_ok sound spelling binds
            exact ⟨silent, .prefixed nsPrefix value _ inside bindable bound⟩
          · obtain ⟨rfl, spelling⟩ := checkSpelling_ok spelled
            exact ⟨.refl _, .outside _ value (Nat.eq_zero_of_not_pos outside)⟩

end Writer

end XmlStream
