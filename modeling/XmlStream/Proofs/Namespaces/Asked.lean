import XmlStream.Proofs.Namespaces.Pledges
import XmlStream.Proofs.Reading.Watching

namespace XmlStream

/-! What start tags are asked for, and how the names in them are written. -/

open Reading

/-- The prefix that an attribute declares, if it is a declaration, or none for the default namespace. -/
def NameRequest.declares? (request : NameRequest) : Option (Option String) :=
  match request.wantedPrefix with
  | some nsPrefix => if nsPrefix = "xmlns" then some (some request.localName) else none
  | none => if request.localName = "xmlns" then some none else none

/-- The namespace that an attribute is asked for in. The prefix of XML always means its own. -/
def AskedName.attributeUri (asked : AskedName) : String :=
  if asked.request.wantedPrefix = some "xml" then Namespace.xml
  else (asked.request.uri.or asked.bound).getD ""

structure AskedTag where
  element : AskedName
  attributes : List AskedName := []
deriving DecidableEq, Repr

def AskedTag.add (tag : AskedTag) (wanted : AskedName) : AskedTag :=
  { tag with attributes := tag.attributes ++ [wanted] }

/-- An element has the name that it is asked for. A prefix or its absence means the namespace that is
asked for. Without one the prefix is the one that is given, with the meaning it had. -/
structure AskedName.InElement (asked : AskedName) (Means : Option String → String → Prop)
    (name : List Char) : Prop where
  localName : localPart name = asked.request.localName.toList
  kept : ∀ given, asked.request.uri = none → nonEmpty? asked.request.nsPrefix = some given →
    prefix? name = some given ∧ asked.bound.isSome
  means : ∀ uri, asked.request.uri.or asked.bound = some uri → Means (prefix? name) uri

/-- An attribute has the name that it is asked for. It is a declaration, or it is in no namespace and
has no prefix, or its prefix means the namespace that it is in. -/
inductive AskedName.InAttribute (asked : AskedName) (Means : Option String → String → Prop)
    (name : List Char) : Prop
  | declaration (nsPrefix : Option String) (declares : asked.request.declares? = some nsPrefix)
      (named : name = declarationName nsPrefix)
  | bare (ordinary : asked.request.declares? = none) (other : name ≠ declarationName none)
      (localName : localPart name = asked.request.localName.toList) (noPrefix : prefix? name = none)
      (uri : asked.attributeUri = "")
      (kept : asked.request.uri = none → nonEmpty? asked.request.nsPrefix = none)
  | prefixed (nsPrefix : String) (ordinary : asked.request.declares? = none)
      (notXmlns : nsPrefix ≠ "xmlns") (localName : localPart name = asked.request.localName.toList)
      (named : prefix? name = some nsPrefix) (means : Means (some nsPrefix) asked.attributeUri)
      (own : ∀ uri, asked.request.uri = some uri → uri ≠ "" → asked.attributeUri = uri)
      (kept : ∀ given, asked.request.uri = none →
        nonEmpty? asked.request.nsPrefix = some given →
          nsPrefix = given ∧ asked.bound = some asked.attributeUri)

variable {asked : AskedName} {name : List Char} {Means MeansToo : Option String → String → Prop}

theorem AskedName.InElement.mono (named : asked.InElement Means name)
    (means : ∀ nsPrefix uri, Means nsPrefix uri → MeansToo nsPrefix uri) :
    asked.InElement MeansToo name :=
  { named with means := fun uri wanted => means _ _ (named.means uri wanted) }

theorem AskedName.InAttribute.mono (named : asked.InAttribute Means name)
    (means : ∀ nsPrefix uri, Means nsPrefix uri → MeansToo nsPrefix uri) :
    asked.InAttribute MeansToo name := by
  cases named with
  | declaration nsPrefix declares named => exact .declaration nsPrefix declares named
  | bare ordinary other localName noPrefix uri kept =>
      exact .bare ordinary other localName noPrefix uri kept
  | prefixed nsPrefix ordinary notXmlns localName named stands own kept =>
      exact .prefixed nsPrefix ordinary notXmlns localName named (means _ _ stands) own kept

theorem AskedName.InAttribute.of_declares (named : asked.InAttribute Means name)
    {nsPrefix : Option String} (declares : asked.request.declares? = some nsPrefix) :
    name = declarationName nsPrefix := by
  cases named with
  | declaration other declaresToo named =>
      rw [declares] at declaresToo
      cases declaresToo
      exact named
  | bare ordinary | prefixed _ ordinary =>
      rw [declares] at ordinary
      cases ordinary

theorem AskedName.InAttribute.ne_declarationName (named : asked.InAttribute Means name)
    (ordinary : asked.request.declares? = none) (nsPrefix : Option String) :
    name ≠ declarationName nsPrefix := by
  rintro rfl
  cases named with
  | declaration _ declares =>
      rw [ordinary] at declares
      cases declares
  | bare _ other _ noPrefix =>
      cases nsPrefix with
      | none => exact other rfl
      | some nsPrefix =>
          rw [prefix?_declarationName] at noPrefix
          cases noPrefix
  | prefixed given _ notXmlns _ isPrefix =>
      cases nsPrefix with
      | none => cases isPrefix
      | some nsPrefix =>
          rw [prefix?_declarationName] at isPrefix
          exact notXmlns (Option.some.inj isPrefix).symm

theorem AskedName.InAttribute.of_ordinary (named : asked.InAttribute Means name)
    (ordinary : asked.request.declares? = none) :
    localPart name = asked.request.localName.toList ∧
      (prefix? name = none ∧ asked.attributeUri = "" ∨
        ∃ nsPrefix, prefix? name = some nsPrefix ∧ Means (some nsPrefix) asked.attributeUri) := by
  cases named with
  | declaration _ declares =>
      rw [ordinary] at declares
      cases declares
  | bare _ _ localName noPrefix uri => exact ⟨localName, .inl ⟨noPrefix, uri⟩⟩
  | prefixed nsPrefix _ _ localName isPrefix means =>
      exact ⟨localName, .inr ⟨nsPrefix, isPrefix, means⟩⟩

abbrev AskedNames (Means : Option String → String → Prop) (asked : List AskedName)
    (attributes : List (List Char × List Part)) : Prop :=
  List.Forall₂ (fun (name : AskedName) entry => name.InAttribute Means entry.1) asked attributes

theorem AskedNames.mono {names : List AskedName} {attributes : List (List Char × List Part)}
    (written : AskedNames Means names attributes)
    (means : ∀ nsPrefix uri, Means nsPrefix uri → MeansToo nsPrefix uri) :
    AskedNames MeansToo names attributes :=
  written.imp fun _ _ named => named.mono means

/-! ## Written names -/

theorem notMem_colon {name : String} (named : Name.isNCName name = true) : ':' ∉ name.toList :=
  fun member => absurd rfl
    (CharacterClass.ne_of_ncNamePart (Name.ncNamePart_of_isNCName named ':' member) (by decide))

section Written

variable {nsPrefix : Option String} {localName : String}

theorem prefix?_writtenName (prefixed : ∀ given, nsPrefix = some given → Name.isNCName given = true)
    (named : Name.isNCName localName = true) :
    prefix? (writtenName nsPrefix localName).toList = nsPrefix := by
  cases nsPrefix with
  | none => exact prefix?_of_notMem (notMem_colon named)
  | some given =>
      have noColon := notMem_colon (prefixed given rfl)
      have whole : (writtenName (some given) localName).toList =
          given.toList ++ ':' :: localName.toList := by
        simp [writtenName]
      rw [whole, prefix?_append noColon, String.ofList_toList]

theorem localPart_writtenName
    (prefixed : ∀ given, nsPrefix = some given → Name.isNCName given = true)
    (named : Name.isNCName localName = true) :
    localPart (writtenName nsPrefix localName).toList = localName.toList := by
  cases nsPrefix with
  | none => exact localPart_of_notMem (notMem_colon named)
  | some given =>
      have noColon := notMem_colon (prefixed given rfl)
      have whole : (writtenName (some given) localName).toList =
          given.toList ++ ':' :: localName.toList := by
        simp [writtenName]
      rw [whole, localPart_append noColon]

end Written

/-! ## Requests -/

namespace NameRequest

variable {request : NameRequest}

theorem meets_plain (named : Name.isNCName request.localName = true)
    (prefixed : (nonEmpty? request.nsPrefix).all Name.isNCName = true) : request.Meets .plain where
  localName := named
  nsPrefix := by
    intro given wanted
    rw [wanted] at prefixed
    exact prefixed
  uri := fun _ _ => trivial

/-- Reserved namespaces stand for their prefixes only where they are asked for. -/
theorem given_of_wantedPrefix {given : String} (wanted : request.wantedPrefix = some given)
    (ordinary : request.uri = none ∨ request.uri = some "") :
    nonEmpty? request.nsPrefix = some given := by
  rw [wantedPrefix, Option.or_eq_some_iff] at wanted
  rcases wanted with wanted | ⟨_, reserved⟩
  · exact wanted
  · rcases ordinary with uri | uri <;>
      simp [Writer.reservedPrefix?, uri, Namespace.declarations, Namespace.xml] at reserved

theorem nonEmpty?_of_wantedPrefix (unwanted : request.wantedPrefix = none) :
    nonEmpty? request.nsPrefix = none :=
  (Option.or_eq_none_iff.mp unwanted).1

theorem wantedPrefix_of_given {given : String} (wanted : nonEmpty? request.nsPrefix = some given) :
    request.wantedPrefix = some given := by
  rw [wantedPrefix, wanted, Option.some_or]

theorem declares?_of_ordinary (notXmlns : request.wantedPrefix ≠ some "xmlns")
    (named : request.wantedPrefix = none → request.localName ≠ "xmlns") :
    request.declares? = none := by
  cases wanted : request.wantedPrefix with
  | none => simp [declares?, wanted, named wanted]
  | some given =>
      have different : given ≠ "xmlns" := by
        rintro rfl
        exact notXmlns wanted
      simp [declares?, wanted, different]

end NameRequest

namespace Draft

variable {draft found : Draft} {request : NameRequest} {nsPrefix : Option String}
  {kind : Option SpecialKind}

theorem isSome_uri? {scope : Scope} {nsPrefix : String} (bound : (scope.position? nsPrefix).isSome) :
    ∃ uri, scope.uri? nsPrefix = some uri := by
  rw [Scope.position?, Option.isSome_map] at bound
  rcases Option.isSome_iff_exists.mp bound with ⟨entry, latest⟩
  exact ⟨entry.1.uri, by rw [Scope.uri?, latest, Option.map_some]⟩

theorem Layered.uri?_xml (layered : draft.Layered) (lawful : Lawful draft.scope) :
    draft.scope.uri? "xml" = some Namespace.xml := by
  have member : xmlBinding ∈ draft.scope := by
    have there : xmlBinding ∈ draft.scope.take 1 := by
      rw [layered.first]
      exact List.mem_singleton.mpr rfl
    exact List.mem_of_mem_take there
  cases latest : draft.scope.latest? "xml" with
  | none => exact absurd rfl (Scope.latest?_eq_none_iff.mp latest xmlBinding member)
  | some entry =>
      have bound : draft.scope.uri? "xml" = some entry.1.uri := by
        rw [Scope.uri?, latest, Option.map_some]
      have means := meaning_xml lawful ""
      rw [Scope.meaning, bound, Option.some_or] at means
      rw [bound, means]

theorem asked_bound_of_given {given : String} (wanted : nonEmpty? request.nsPrefix = some given) :
    (draft.asked request).bound = draft.scope.uri? given := by
  simp [asked, wanted]

theorem asked_bound_of_none (unwanted : nonEmpty? request.nsPrefix = none) :
    (draft.asked request).bound = none := by
  simp [asked, unwanted]

/-- What an element's name means is pledged. -/
theorem NamesElement.inElement
    (names : (draft.push.enter .element).NamesElement request nsPrefix found)
    (enabled : draft.settings.namespaces = true) (fit : draft.Fit .plain)
    (plain : request.Meets .plain) :
    (draft.asked request).InElement
      (found.modifyTop fun element => { element with name := request.localName, nsPrefix }).Pledges
      (writtenName nsPrefix request.localName).toList := by
  have inside := names.frames (draft.depth_push_pos .element)
  have inFound : 0 < found.depth := by
    rw [inside.depth]
    exact draft.depth_push_pos .element
  rcases names.fit (fit.push.congr rfl rfl) plain with ⟨_, prefixed⟩
  have isPrefix := prefix?_writtenName prefixed plain.localName
  have localName := localPart_writtenName prefixed plain.localName
  cases names with
  | withoutNamespaces disabled =>
      have disabled : draft.settings.namespaces = false := disabled
      rw [enabled] at disabled
      cases disabled
  | bare _ noUri noPrefix =>
      refine ⟨localName, fun given _ wanted => ?_, fun uri wanted => ?_⟩
      · have wanted : nonEmpty? request.nsPrefix = some given := wanted
        rw [noPrefix] at wanted
        cases wanted
      · rw [asked_bound_of_none noPrefix] at wanted
        simp [asked, noUri] at wanted
  | bound given _ noUri wanted isBound =>
      rcases isSome_uri? isBound with ⟨uri, bound⟩
      have bound : draft.scope.uri? given = some uri := bound
      have askedBound : (draft.asked request).bound = some uri :=
        (asked_bound_of_given wanted).trans bound
      refine ⟨localName, fun other _ wantedToo => ?_, fun other wantedToo => ?_⟩
      · have wantedToo : nonEmpty? request.nsPrefix = some other := wantedToo
        rw [wanted] at wantedToo
        exact ⟨isPrefix.trans wantedToo, by rw [askedBound]; rfl⟩
      · have noUri : (draft.asked request).request.uri = none := noUri
        rw [noUri, askedBound, Option.none_or] at wantedToo
        cases wantedToo
        rw [isPrefix]
        exact pledges_element inFound (means?_of_uri? bound)
  | found uri given _ wanted noPrefix stands =>
      have wanted : (draft.asked request).request.uri = some uri := wanted
      have isNamed : given ≠ "" := Name.ne_empty_of_isNCName
        ((fit.push.congr rfl rfl : (draft.push.enter .element).Fit .plain).named_of_prefixOf? stands)
      have written : nonEmpty? (some given) = some given := nonEmpty?_some isNamed
      refine ⟨localName, fun other noUri => ?_, fun other wantedToo => ?_⟩
      · rw [wanted] at noUri
        cases noUri
      · rw [wanted, Option.some_or] at wantedToo
        cases wantedToo
        rw [isPrefix, written]
        exact pledges_element inFound (means?_of_uri? (Scope.uri?_of_prefixOf? stands))
  | default uri _ _ wanted _ binds =>
      have wanted : (draft.asked request).request.uri = some uri := wanted
      refine ⟨localName, fun other noUri => ?_, fun other wantedToo => ?_⟩
      · rw [wanted] at noUri
        cases noUri
      · rw [wanted, Option.some_or] at wantedToo
        cases wantedToo
        rw [isPrefix]
        exact pledges_default binds
  | binding uri given _ _ wanted _ _ binds =>
      have wanted : (draft.asked request).request.uri = some uri := wanted
      refine ⟨localName, fun other noUri => ?_, fun other wantedToo => ?_⟩
      · rw [wanted] at noUri
        cases noUri
      · rw [wanted, Option.some_or] at wantedToo
        cases wantedToo
        rw [isPrefix]
        exact pledges_element inFound (means?_of_uri? binds.uri?)

theorem attributeUri_of_ne_xml (notXml : request.wantedPrefix ≠ some "xml") :
    (draft.asked request).attributeUri = (request.uri.or (draft.asked request).bound).getD "" :=
  if_neg notXml

section InAttribute

variable (localName : localPart name = request.localName.toList)

include localName

theorem inAttribute_xml (wanted : request.wantedPrefix = some "xml")
    (own : ∀ uri, nonEmpty? request.uri = some uri → uri = Namespace.xml)
    (isBound : draft.scope.uri? "xml" = some Namespace.xml) (isPrefix : prefix? name = some "xml")
    (means : Means (some "xml") Namespace.xml) : (draft.asked request).InAttribute Means name := by
  have uri : (draft.asked request).attributeUri = Namespace.xml := if_pos wanted
  have ordinary : request.declares? = none :=
    NameRequest.declares?_of_ordinary (by simp [wanted]) (by simp [wanted])
  refine .prefixed "xml" ordinary (by simp) localName isPrefix (by rwa [uri]) ?_ ?_
  · intro other asked nonEmpty
    have asked : request.uri = some other := asked
    rw [uri, own other (by rw [asked, nonEmpty?_some nonEmpty])]
  · intro given noUri wantedToo
    have isXml := (NameRequest.wantedPrefix_of_given wantedToo).symm.trans wanted
    cases isXml
    have wantedToo : nonEmpty? request.nsPrefix = some "xml" := wantedToo
    exact ⟨rfl, by rw [uri, asked_bound_of_given wantedToo, isBound]⟩

theorem inAttribute_bound {given uri : String} (wanted : request.wantedPrefix = some given)
    (notXml : given ≠ "xml") (notXmlns : given ≠ "xmlns") (noUri : request.uri = none)
    (bound : draft.scope.uri? given = some uri) (isPrefix : prefix? name = some given)
    (means : Means (some given) uri) : (draft.asked request).InAttribute Means name := by
  have ordinary : request.declares? = none :=
    NameRequest.declares?_of_ordinary (by simp [wanted, notXmlns]) (by simp [wanted])
  have isGiven := NameRequest.given_of_wantedPrefix wanted (.inl noUri)
  have askedBound : (draft.asked request).bound = some uri :=
    (asked_bound_of_given isGiven).trans bound
  have uriThere : (draft.asked request).attributeUri = uri := by
    rw [attributeUri_of_ne_xml (by simp [wanted, notXml]), askedBound, noUri]
    rfl
  refine .prefixed given ordinary notXmlns localName isPrefix (by rwa [uriThere]) ?_ ?_
  · intro other asked
    have asked : request.uri = some other := asked
    rw [noUri] at asked
    cases asked
  · intro other _ wantedToo
    have wantedToo : nonEmpty? request.nsPrefix = some other := wantedToo
    rw [isGiven] at wantedToo
    exact ⟨Option.some.inj wantedToo, by rw [uriThere, askedBound]⟩

theorem inAttribute_unprefixed (notDisguised : ¬request.Disguised)
    (notXml : request.wantedPrefix ≠ some "xml") (notXmlns : request.wantedPrefix ≠ some "xmlns")
    (named : request.wantedPrefix = none → request.localName ≠ "xmlns")
    (noUri : request.uri = some "") (noPrefix : prefix? name = none)
    (whole : name = request.localName.toList) : (draft.asked request).InAttribute Means name := by
  have ordinary := NameRequest.declares?_of_ordinary notXmlns named
  refine .bare ordinary ?_ localName noPrefix ?_ ?_
  · intro same
    have isXmlns : request.localName = "xmlns" := String.toList_inj.mp (whole.symm.trans same)
    cases wanted : request.wantedPrefix with
    | none => exact named wanted isXmlns
    | some given =>
        refine notDisguised ⟨isXmlns, noUri, given, ?_, ?_, ?_⟩
        · exact NameRequest.given_of_wantedPrefix wanted (.inr noUri)
        · rintro rfl
          exact notXml wanted
        · rintro rfl
          exact notXmlns wanted
  · rw [attributeUri_of_ne_xml notXml, noUri]
    rfl
  · intro asked
    have asked : request.uri = none := asked
    rw [noUri] at asked
    cases asked

theorem inAttribute_namespaced {given uri : String} (notXml : request.wantedPrefix ≠ some "xml")
    (notXmlns : request.wantedPrefix ≠ some "xmlns")
    (named : request.wantedPrefix = none → request.localName ≠ "xmlns")
    (wanted : request.uri = some uri) (notDeclaring : given ≠ "xmlns")
    (isPrefix : prefix? name = some given) (means : Means (some given) uri) :
    (draft.asked request).InAttribute Means name := by
  have ordinary := NameRequest.declares?_of_ordinary notXmlns named
  have uriThere : (draft.asked request).attributeUri = uri := by
    rw [attributeUri_of_ne_xml notXml, wanted]
    rfl
  refine .prefixed given ordinary notDeclaring localName isPrefix (by rwa [uriThere]) ?_ ?_
  · intro other asked _
    have asked : request.uri = some other := asked
    rw [wanted] at asked
    rw [uriThere]
    exact Option.some.inj asked
  · intro other asked
    have asked : request.uri = none := asked
    rw [wanted] at asked
    cases asked

end InAttribute

theorem NamesAttribute.inAttribute
    (names : (draft.enter .attribute).NamesAttribute request nsPrefix kind found)
    (inside : 0 < draft.depth) (enabled : draft.settings.namespaces = true) (fit : draft.Fit .plain)
    (layered : draft.Layered) (lawful : Lawful draft.scope) (plain : request.Meets .plain)
    (notDisguised : ¬request.Disguised) :
    (draft.asked request).InAttribute (found.noteAttribute nsPrefix).Pledges
      (writtenName nsPrefix request.localName).toList := by
  have inFound : 0 < found.depth := by
    rw [names.frames.depth]
    exact inside
  have lawfulFound := (names.keeps lawful).2
  rcases names.fit (fit.congr rfl rfl) plain with ⟨_, prefixed, _⟩
  have isPrefix := prefix?_writtenName prefixed plain.localName
  have localName := localPart_writtenName prefixed plain.localName
  cases names with
  | withoutNamespaces disabled =>
      have disabled : draft.settings.namespaces = false := disabled
      rw [enabled] at disabled
      cases disabled
  | xml _ wanted own =>
      exact inAttribute_xml localName wanted own (layered.uri?_xml lawful) isPrefix
        (pledges_noteAttribute inFound (meaning_xml lawfulFound _))
  | declaration _ wanted _ =>
      refine .declaration (some request.localName) ?_ (toList_declarationName _).symm
      simp [asked, NameRequest.declares?, wanted]
  | defaultDeclaration _ wanted named _ =>
      refine .declaration none ?_ ?_
      · simp [asked, NameRequest.declares?, wanted, named]
      · rw [named]
        rfl
  | bare _ wanted named noUri =>
      have ordinary : request.declares? = none :=
        NameRequest.declares?_of_ordinary (by simp [wanted]) fun _ => named
      have noPrefix := NameRequest.nonEmpty?_of_wantedPrefix wanted
      refine .bare ordinary ?_ localName isPrefix ?_ fun _ => noPrefix
      · exact fun same => named (String.toList_inj.mp same)
      · rw [attributeUri_of_ne_xml (by simp [wanted]), asked_bound_of_none noPrefix, noUri]
        rfl
  | bound given _ wanted notXml notXmlns noUri isBound =>
      rcases isSome_uri? isBound with ⟨uri, bound⟩
      exact inAttribute_bound localName wanted notXml notXmlns noUri bound isPrefix
        (pledges_noteAttribute inFound (means?_of_uri? bound))
  | unprefixed _ notXml notXmlns named noUri =>
      exact inAttribute_unprefixed localName notDisguised notXml notXmlns named noUri isPrefix rfl
  | namespaced uri given _ _ notXml notXmlns named wanted _ _ finds =>
      have bound := (finds.keeps lawful).2.2
      exact inAttribute_namespaced localName notXml notXmlns named wanted
        (ne_xmlns_of_uri? lawfulFound bound) isPrefix
        (pledges_noteAttribute inFound (means?_of_uri? bound))

/-- The attributes that declare something are those with the names of declarations. -/
theorem NamesAttribute.kind_eq (names : draft.NamesAttribute request nsPrefix kind found)
    (enabled : draft.settings.namespaces = true) :
    kind = request.declares?.map .declaration ∨
      request.declares? = none ∧ ∀ nsPrefix, kind ≠ some (.declaration nsPrefix) := by
  have ordinary {given : String} (wanted : request.wantedPrefix = some given)
      (notXmlns : given ≠ "xmlns") : request.declares? = none :=
    NameRequest.declares?_of_ordinary (by simp [wanted, notXmlns]) (by simp [wanted])
  cases names with
  | withoutNamespaces disabled =>
      have disabled : draft.settings.namespaces = false := disabled
      rw [enabled] at disabled
      cases disabled
  | xml _ wanted _ =>
      refine .inr ⟨ordinary wanted (by simp), fun nsPrefix => ?_⟩
      unfold Writer.xmlKind?
      split <;> simp
  | declaration _ wanted _ => exact .inl (by simp [NameRequest.declares?, wanted])
  | defaultDeclaration _ wanted named _ => exact .inl (by simp [NameRequest.declares?, wanted, named])
  | bare _ wanted named _ => exact .inl (by simp [NameRequest.declares?, wanted, named])
  | bound given _ wanted _ notXmlns => exact .inl (by simp [ordinary wanted notXmlns])
  | unprefixed _ _ notXmlns named | namespaced _ _ _ _ _ notXmlns named =>
      exact .inl (by simp [NameRequest.declares?_of_ordinary notXmlns named])

end Draft

end XmlStream
