import XmlStream.Proofs.Namespaces.Asked
import XmlStream.Proofs.Special.Manners

namespace XmlStream

/-! The attributes `xml:lang` and `xml:space` as a reader finds them in start tags, and what a writer
takes an attribute for that will get one of these names. -/

open Reading

namespace Reading

def languageName : List Char := "xml:lang".toList

def spaceName : List Char := "xml:space".toList

def spaceOf (value : Option String) : SpaceHandling :=
  (value.bind Writer.spaceHandling?).getD .unspecified

def Place.tag? : Place → Option StartTag
  | .tagName name => some { name }
  | .tag seen _ | .attributeName seen _ _ | .equals seen _ | .slash seen => some seen
  | .text (.value seen _ _ _) | .reference (.value seen _ _ _) _ => some seen
  | _ => none

/-- The start tags of the elements that are open where a text ends, the innermost one first. That
one may be incomplete. -/
def openTags (text : List Char) : List StartTag :=
  (read (.text .content) text).1.tag?.toList ++ (nesting text).opened

/-- The value of an attribute in the first of some tags that has it, each of which stands within the
next. -/
def innermost? (tags : List StartTag) (name : List Char) : Option String :=
  tags.findSome? (·.value? name)

namespace StartTag

def manner (tag : StartTag) : Option String × SpaceHandling :=
  (tag.value? languageName, spaceOf (tag.value? spaceName))

/-- What white space is for is told by one of the two values, blanks around it aside. -/
def Spaced (tag : StartTag) : Prop :=
  ∀ entry ∈ tag.attributes, entry.1 = spaceName →
    (Writer.spaceHandling? (valueText entry.2)).isSome = true

variable {tag : StartTag} {name : List Char} {parts : List Part}

theorem spaced_bare (name : List Char) : ({ name } : StartTag).Spaced := by
  intro entry member
  cases member

theorem Spaced.add (spaced : tag.Spaced)
    (space : name = spaceName → (Writer.spaceHandling? (valueText parts)).isSome = true) :
    (tag.add name parts).Spaced := by
  intro entry member named
  rw [StartTag.add, List.mem_append, List.mem_singleton] at member
  rcases member with member | rfl
  · exact spaced entry member named
  · exact space named

theorem Spaced.value (spaced : tag.Spaced) {value : String}
    (found : tag.value? spaceName = some value) : (Writer.spaceHandling? value).isSome = true := by
  rcases Option.map_eq_some_iff.mp found with ⟨entry, last, rfl⟩
  have member := List.mem_reverse.mp (List.mem_of_find?_eq_some last)
  exact spaced entry member (by simpa using List.find?_some last)

end StartTag

theorem spaceOf_innermost? {tags : List StartTag} (spaced : ∀ tag ∈ tags, tag.Spaced) :
    spaceOf (innermost? tags spaceName) =
      ((tags.map (·.manner.2)).find? (· ≠ .unspecified)).getD .unspecified := by
  induction tags with
  | nil => rfl
  | cons tag rest induction =>
      have inner := induction fun other member => spaced other (List.mem_cons_of_mem _ member)
      rw [innermost?, List.findSome?_cons, List.map_cons, List.find?_cons, StartTag.manner]
      cases found : tag.value? spaceName with
      | none => exact inner
      | some value =>
          have legal := (spaced tag List.mem_cons_self).value found
          have asks : spaceOf (some value) ≠ .unspecified := by
            simp only [spaceOf, Option.bind_some, Writer.spaceHandling?] at legal ⊢
            split at legal <;> simp_all
          simp [asks]

end Reading

theorem declarationName_ne_special (nsPrefix : Option String) :
    declarationName nsPrefix ≠ languageName ∧ declarationName nsPrefix ≠ spaceName := by
  have other {name : List Char} (isXml : prefix? name = some "xml") :
      declarationName nsPrefix ≠ name := by
    rintro rfl
    cases nsPrefix with
    | none => cases isXml
    | some nsPrefix =>
        rw [prefix?_declarationName] at isXml
        exact absurd isXml (by decide)
  exact ⟨other (by decide), other (by decide)⟩

theorem Draft.name_of_owed {draft : Draft} {entry : List Char × List Part}
    (member : entry ∈ draft.owedAttributes) : entry.1 ≠ languageName ∧ entry.1 ≠ spaceName := by
  rcases Draft.name_of_mem_owedAttributes member with ⟨owed, _, rfl⟩ | ⟨_, rfl⟩
  · exact declarationName_ne_special (some _)
  · exact declarationName_ne_special none

namespace Reading

theorem StartTag.manner_addAll {draft : Draft} (tag : StartTag) :
    (tag.addAll draft.owedAttributes).manner = tag.manner := by
  rw [manner, value?_addAll_of_notMem fun _ member => (Draft.name_of_owed member).1,
    value?_addAll_of_notMem fun _ member => (Draft.name_of_owed member).2, manner]

theorem StartTag.Spaced.addAll {draft : Draft} {tag : StartTag} (spaced : tag.Spaced) :
    (tag.addAll draft.owedAttributes).Spaced := by
  intro entry member named
  rw [StartTag.addAll, List.mem_append] at member
  rcases member with member | owed
  · exact spaced entry member named
  · exact absurd named (Draft.name_of_owed owed).2

/-- A special attribute is taken for what its name says, with the value that is read so far. -/
inductive Heard (special : Option SpecialAttribute) (name : List Char) (parts : List Part) : Prop
  | language (named : name = languageName) (taken : special = some ⟨.language, valueText parts⟩)
  | space (named : name = spaceName) (taken : special = some ⟨.space, valueText parts⟩)
  | other (notLanguage : name ≠ languageName) (notSpace : name ≠ spaceName)
      (taken : ∀ found, special = some found → ∃ nsPrefix, found.kind = .declaration nsPrefix)

end Reading

/-- An attribute of XML that tells the language or the white space is asked for by its namespace, but
with another prefix. -/
def NameRequest.Astray (request : NameRequest) : Prop :=
  request.uri = some Namespace.xml ∧ request.wantedPrefix ≠ some "xml" ∧
    (request.localName = "lang" ∨ request.localName = "space")

instance (request : NameRequest) : Decidable request.Astray :=
  inferInstanceAs (Decidable (_ ∧ _ ∧ (_ ∨ _)))

namespace Draft

variable {draft found : Draft} {request : NameRequest} {nsPrefix : Option String}
  {kind : Option SpecialKind}

theorem eq_of_writtenName {localName : String} {name : List Char}
    (prefixed : ∀ given, nsPrefix = some given → Name.isNCName given = true)
    (named : Name.isNCName localName = true) (isXml : prefix? name = some "xml")
    (same : (writtenName nsPrefix localName).toList = name) :
    nsPrefix = some "xml" ∧ localName = String.ofList (localPart name) := by
  subst same
  rw [prefix?_writtenName prefixed named] at isXml
  rw [localPart_writtenName prefixed named, String.ofList_toList]
  exact ⟨isXml, rfl⟩

theorem NamesAttribute.heard (names : draft.NamesAttribute request nsPrefix kind found)
    (enabled : draft.settings.namespaces = true) (lawful : Lawful draft.scope)
    (fit : draft.Fit .plain) (meets : request.Meets .plain) (notAstray : ¬request.Astray) :
    Heard (kind.map fun kind => { kind }) (writtenName nsPrefix request.localName).toList [] := by
  rcases names.fit fit meets with ⟨_, prefixed, _⟩
  have isXml {name : List Char} (xml : prefix? name = some "xml")
      (same : (writtenName nsPrefix request.localName).toList = name) :=
    eq_of_writtenName prefixed meets.localName xml same
  have unheard (notXml : nsPrefix = some "xml" →
        request.localName ≠ "lang" ∧ request.localName ≠ "space")
      (taken : ∀ special, kind = some special → ∃ nsPrefix, special = .declaration nsPrefix) :
      Heard (kind.map fun kind => { kind }) (writtenName nsPrefix request.localName).toList [] := by
    refine .other (fun same => ?_) (fun same => ?_) fun special found => ?_
    · rcases isXml (by decide) same with ⟨xml, isLang⟩
      exact (notXml xml).1 isLang
    · rcases isXml (by decide) same with ⟨xml, isSpace⟩
      exact (notXml xml).2 isSpace
    · rcases Option.map_eq_some_iff.mp found with ⟨special, isKind, rfl⟩
      exact taken special isKind
  cases names with
  | withoutNamespaces disabled =>
      rw [enabled] at disabled
      cases disabled
  | xml _ wanted =>
      unfold Writer.xmlKind?
      split
      · rename_i isLang
        exact .language (by rw [isLang]; rfl) rfl
      · rename_i isSpace
        exact .space (by rw [isSpace]; rfl) rfl
      · rename_i notLang notSpace
        have other : Heard none (writtenName (some "xml") request.localName).toList [] :=
          .other (fun same => notLang (isXml (by decide) same).2)
            (fun same => notSpace (isXml (by decide) same).2) (by simp)
        exact other
  | declaration | defaultDeclaration => exact unheard (by simp) (by simp)
  | bare | unprefixed => exact unheard (by simp) (by simp)
  | bound given _ _ notXml => exact unheard (fun xml => absurd (Option.some.inj xml) notXml) (by simp)
  | namespaced uri given _ _ notXml _ _ wanted _ _ finds =>
      refine unheard (fun xml => ?_) (by simp)
      cases xml
      rcases finds.keeps lawful with ⟨_, lawfulToo, bound⟩
      rcases mem_of_uri? bound with ⟨binding, member, named, rfl⟩
      have isXml : binding.uri = Namespace.xml := (lawfulToo binding member).xmlKept named
      rw [isXml] at wanted
      exact not_or.mp fun named => notAstray ⟨wanted, notXml, named⟩

end Draft

end XmlStream
