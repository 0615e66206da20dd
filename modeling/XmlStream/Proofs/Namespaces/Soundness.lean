import XmlStream.Proofs.Namespaces.Courses

namespace XmlStream

/-! Names mean what has been asked for. A reader of the document finds that the names in each complete
start tag are in the namespaces that the calls have asked for, whatever has been inherited, reused, made
up, shadowed or declared explicitly on the way. -/

open Reading

namespace Reading

/-- An element's name as the calls have asked for it, read in some tags, the innermost one first. A
namespace that has been asked for is that of the name. Where none has been, the prefix that has been
asked for stands for what it stood for then. -/
structure ElementMeans (tags : List StartTag) (asked : AskedName) (name : List Char) : Prop where
  localName : localPart name = asked.request.localName.toList
  own : ∀ uri, asked.request.uri = some uri → uriOf? tags (prefix? name) = some uri
  kept : ∀ given, asked.request.uri = none → nonEmpty? asked.request.nsPrefix = some given →
    prefix? name = some given ∧
      ∃ uri, asked.bound = some uri ∧ uriOf? tags (some given) = some uri

/-- An attribute's name likewise. An attribute in a namespace has a prefix, unless it is a
declaration. -/
structure AttributeMeans (tags : List StartTag) (asked : AskedName) (name : List Char) : Prop where
  own : ∀ uri, asked.request.uri = some uri → uri ≠ "" → asked.request.declares? = none →
    localPart name = asked.request.localName.toList ∧
      ∃ nsPrefix, prefix? name = some nsPrefix ∧ uriOf? tags (some nsPrefix) = some uri
  kept : ∀ given, asked.request.uri = none → nonEmpty? asked.request.nsPrefix = some given →
    given ≠ "xmlns" → localPart name = asked.request.localName.toList ∧ prefix? name = some given ∧
      ∃ uri, asked.bound = some uri ∧ uriOf? tags (some given) = some uri
  declares : ∀ nsPrefix, asked.request.declares? = some nsPrefix → name = declarationName nsPrefix

end Reading

/-- The first one of some tags has the names that it has been asked for, before any declarations that
have been added. -/
inductive AskedTag.Sound (asked : AskedTag) : List StartTag → Prop
  | mk (tag : StartTag) (around : List StartTag) (written added : List (List Char × List Part))
      (whole : tag.attributes = written ++ added)
      (element : ElementMeans (tag :: around) asked.element tag.name)
      (attributes : List.Forall₂ (fun name entry => AttributeMeans (tag :: around) name entry.1)
        asked.attributes written) : Sound asked (tag :: around)

namespace AskedName

variable {asked : AskedName} {name : List Char} {tags : List StartTag}

theorem InElement.means_element (named : asked.InElement (Resolves tags) name) :
    ElementMeans tags asked name where
  localName := named.localName
  own := fun uri wanted => named.means uri (by rw [wanted, Option.some_or])
  kept := by
    intro given noUri wanted
    rcases named.kept given noUri wanted with ⟨isPrefix, bound⟩
    rcases Option.isSome_iff_exists.mp bound with ⟨uri, isBound⟩
    have means := named.means uri (by rw [noUri, isBound, Option.none_or])
    rw [isPrefix] at means
    exact ⟨isPrefix, uri, isBound, means⟩

theorem declares?_eq_none {given : String} (wanted : nonEmpty? asked.request.nsPrefix = some given)
    (notXmlns : given ≠ "xmlns") : asked.request.declares? = none := by
  have isWanted := NameRequest.wantedPrefix_of_given wanted
  exact NameRequest.declares?_of_ordinary (by simp [isWanted, notXmlns]) (by simp [isWanted])

theorem attributeUri_ne {uri : String} (wanted : asked.request.uri = some uri) (nonEmpty : uri ≠ "") :
    asked.attributeUri ≠ "" := by
  unfold attributeUri
  split
  · decide
  · rwa [wanted]

theorem InAttribute.means_attribute (named : asked.InAttribute (Resolves tags) name) :
    AttributeMeans tags asked name := by
  refine ⟨fun uri wanted nonEmpty ordinary => ?_, fun given without wanted notXmlns => ?_,
    fun nsPrefix => named.of_declares⟩
  · cases named with
    | declaration _ declares =>
        rw [ordinary] at declares
        cases declares
    | bare _ _ _ _ noUri => exact absurd noUri (attributeUri_ne wanted nonEmpty)
    | prefixed nsPrefix _ _ localName isPrefix means own =>
        rw [own uri wanted nonEmpty] at means
        exact ⟨localName, nsPrefix, isPrefix, means⟩
  · cases named with
    | declaration _ declares =>
        rw [declares?_eq_none wanted notXmlns] at declares
        cases declares
    | bare _ _ _ _ _ kept =>
        rw [kept without] at wanted
        cases wanted
    | prefixed nsPrefix _ _ localName isPrefix means _ kept =>
        rcases kept given without wanted with ⟨rfl, bound⟩
        exact ⟨localName, isPrefix, _, bound, means⟩

end AskedName

theorem AskedTag.Honoured.sound {asked : AskedTag} {tags : List StartTag}
    (honoured : asked.Honoured tags) : asked.Sound tags := by
  cases honoured with
  | mk tag added around written =>
      exact .mk _ around tag.attributes added rfl written.element.means_element
        (written.attributes.imp fun _ _ named => named.means_attribute)

namespace Draft

variable {draft : Draft} {requests : Requests} {sight : Sight} {text : String}

theorem Account.honoured (account : draft.Account requests sight) {index : Nat}
    {tags : List StartTag} (found : sight.nesting.tags[index]? = some tags) :
    ∃ asked, requests.all[index]? = some asked ∧ asked.Honoured tags := by
  have within {asked : List AskedTag} (all : List.Forall₂ AskedTag.Honoured asked sight.nesting.tags) :
      ∃ name, asked[index]? = some name ∧ name.Honoured tags := by
    rcases List.getElem?_eq_some_iff.mp found with ⟨inside, rfl⟩
    have insideToo : index < asked.length := by rwa [all.length_eq]
    exact ⟨asked[index], List.getElem?_eq_getElem insideToo, all.get insideToo inside⟩
  have earlier (all : List.Forall₂ AskedTag.Honoured requests.earlier sight.nesting.tags) :
      ∃ name, requests.all[index]? = some name ∧ name.Honoured tags := by
    rcases within all with ⟨name, found, honoured⟩
    refine ⟨name, ?_, honoured⟩
    rw [Requests.all, List.getElem?_append_left (List.getElem?_eq_some_iff.mp found).1, found]
  cases account with
  | between _ _ _ honoured => exact within honoured
  | tag _ _ _ _ _ _ honoured => exact earlier honoured
  | value _ _ _ _ _ _ _ _ _ _ _ honoured => exact earlier honoured

theorem Followed.honoured (followed : draft.Followed text requests sight) {index : Nat}
    {tags : List StartTag} (found : (Reading.nesting text.toList).tags[index]? = some tags) :
    ∃ asked, requests.all[index]? = some asked ∧ asked.Honoured tags :=
  followed.account.honoured (by rw [followed.nesting, found])

end Draft

namespace Writer

/-- Names mean what has been asked for. In each start tag that has been completed, a name for which a
namespace has been asked is in that namespace, by a prefix if it is that of an attribute that is no
declaration, and a prefix that has been asked for without a namespace stands for what it stood for
then. -/
theorem names_mean_of_run (limit : Option Nat) (canFlush : Bool) (encoder : Option Encoder)
    (settings : Settings) (calls : List Call) (enabled : settings.namespaces = true)
    (indent : Terms.plain.Indents settings.indentChar)
    (accepts : (create { sink := { limit, canFlush }, encoder } settings).Accepts calls)
    (readable : ∀ call ∈ calls, call.Readable) :
    let output : OutputBuffer := { sink := { limit, canFlush }, encoder }
    let writer := create output settings
    ∃ text : String, output.Gets text (writer.run calls).2.output ∧
      ∀ (index : Nat) (tags : List StartTag), (nesting text.toList).tags[index]? = some tags →
        ∃ asked : AskedTag, (writer.asks {} calls).all[index]? = some asked ∧ asked.Sound tags := by
  intro output writer
  have reads := readsAll_of_run enabled accepts readable
  rcases told_of_run enabled indent accepts reads with ⟨text, draft, sight, gets, followed⟩
  refine ⟨text, gets, fun index tags found => ?_⟩
  rcases followed.honoured found with ⟨asked, stands, honoured⟩
  exact ⟨asked, stands, honoured.sound⟩

theorem names_mean_of_run_shadowed :
    let calls : List Call :=
      [.startElement { localName := "a", uri := some "urn:a" },
        .attributeString { nsPrefix := some "xmlns", localName := "p" } "urn:p",
        .startElement { nsPrefix := some "p", localName := "b" },
        .attributeString { nsPrefix := some "p", localName := "c", uri := some "urn:c" } "1",
        .attributeString { localName := "xmlns" } "urn:d", .close]
    let output : OutputBuffer := { sink := {} }
    let writer := create output
    writer.Accepts calls ∧ (writer.run calls).2.output.delivered =
        ("<a xmlns:p=\"urn:p\" xmlns=\"urn:a\"><p:b d2p1:c=\"1\" xmlns=\"urn:d\" " ++
          "xmlns:d2p1=\"urn:c\" /></a>").toUTF8 ∧
      ∃ text : String, output.Gets text (writer.run calls).2.output ∧
        ∀ (index : Nat) (tags : List StartTag), (nesting text.toList).tags[index]? = some tags →
          ∃ asked : AskedTag, (writer.asks {} calls).all[index]? = some asked ∧ asked.Sound tags := by
  intro calls output writer
  have accepts : writer.Accepts calls := by
    unfold Accepts
    decide +kernel
  have readable : ∀ call ∈ calls, call.Readable := by
    simp only [calls, List.mem_cons, List.not_mem_nil, or_false, forall_eq_or_imp, forall_eq]
    refine ⟨?_, ⟨?_, ?_⟩, ?_, ⟨?_, ?_⟩, ⟨?_, ?_⟩, trivial⟩
    all_goals
      first
        | exact NameRequest.meets_plain (by decide +kernel) (by decide +kernel)
        | simp [NameRequest.Disguised]
  have indent : Terms.plain.Indents ({} : Settings).indentChar := ⟨by decide, by decide⟩
  have delivered : (writer.run calls).2.output.delivered =
      ("<a xmlns:p=\"urn:p\" xmlns=\"urn:a\"><p:b d2p1:c=\"1\" xmlns=\"urn:d\" " ++
        "xmlns:d2p1=\"urn:c\" /></a>").toUTF8 := by
    decide +kernel
  refine ⟨accepts, delivered, ?_⟩
  clear_value calls
  exact names_mean_of_run none true none {} calls rfl indent accepts readable

/-- The attribute that declares the default namespace has no prefix, even if it is asked for in the
namespace of declarations. Where an attribute is taken for no declaration by mistake, an element is
found in a namespace that has not been asked for. A subset that does not end where it began brings
tags that nothing has asked for, and lines that are indented by markup are no XML. -/
theorem unprefixed_declaration :
    (let request : NameRequest := { localName := "xmlns", uri := some Namespace.declarations }
    let calls : List Call := [.startElement { localName := "root" }, .attributeString request "urn:a", .close]
    let writer := create { sink := {} }
    let text := "<root xmlns=\"urn:a\" />"
    writer.Accepts calls ∧ (writer.run calls).2.output.delivered = text.toUTF8 ∧
      (writer.asks {} calls).all.map (fun asked => asked.attributes.map (·.request)) = [[request]] ∧
      (nesting text.toList).tags.map (fun tags => tags.flatMap fun tag =>
        tag.attributes.map fun entry => prefix? entry.1) = [[none]]) ∧
    (let request : NameRequest := { localName := "a", uri := some "" }
    let calls : List Call :=
      [.startElement request,
        .attributeString { nsPrefix := some "p", localName := "xmlns", uri := some "" } "urn:a", .close]
    let writer := create { sink := {} }
    let text := "<a xmlns=\"urn:a\" />"
    writer.Accepts calls ∧ (writer.run calls).2.output.delivered = text.toUTF8 ∧
      (writer.asks {} calls).all.map (·.element.request) = [request] ∧
      (nesting text.toList).tags.map (uriOf? · none) = [some "urn:a"]) ∧
    (let subset := "]><b><!DOCTYPE b ["
    let calls : List Call :=
      [.doctype "a" none none (some subset), .startElement { localName := "a" }, .close]
    let writer := create { sink := {} }
    let text := "<!DOCTYPE a[]><b><!DOCTYPE b []><a />"
    writer.Accepts calls ∧ (writer.run calls).2.output.delivered = text.toUTF8 ∧
      (writer.asks {} calls).all.length = 1 ∧ (nesting text.toList).tags.length = 2) ∧
    ∀ character ∈ ['<', '&'],
      let calls : List Call := [.startElement { localName := "a" }, .startElement { localName := "b" }, .close]
      let writer := create { sink := {} } { Settings.indenting with indentChar := character }
      let text := "<a>\n" ++ String.ofList [character, character] ++ "<b />\n</a>"
      writer.Accepts calls ∧ (writer.run calls).2.output.delivered = text.toUTF8 ∧
        (writer.asks {} calls).all.length = 2 ∧ (nesting text.toList).tags.length = 1 := by
  unfold Accepts
  refine ⟨?_, ?_, ?_, ?_⟩
  all_goals decide +kernel

end Writer

end XmlStream
