import XmlStream.Proofs.Namespaces.Soundness

namespace XmlStream

/-! No start tag has two attributes of the same name, if it has not been asked for any. Declarations that
are added might repeat explicit ones only where these repeat what is declared around the tag. -/

open Reading

/-- What an attribute is asked for as: the declaration of a prefix, or of the default namespace, or else
a name in a namespace. -/
def AskedName.expanded (asked : AskedName) : Option String ⊕ (String × String) :=
  match asked.request.declares? with
  | some nsPrefix => .inl nsPrefix
  | none => .inr (asked.attributeUri, asked.request.localName)

section Names

variable {tags around : List StartTag} {tag : StartTag} {name : List Char} {first second : AskedName}
  {asked : List AskedName} {attributes added : List (List Char × List Part)}

theorem AskedName.InAttribute.expanded_eq (named : first.InAttribute (Resolves tags) name)
    (namedToo : second.InAttribute (Resolves tags) name) : first.expanded = second.expanded := by
  unfold expanded
  cases declares : first.request.declares? with
  | some nsPrefix =>
      have isDeclaration := named.of_declares declares
      cases declaresToo : second.request.declares? with
      | some other =>
          have same := (isDeclaration.symm.trans (namedToo.of_declares declaresToo))
          rw [declarationName_injective same]
      | none => exact absurd isDeclaration (namedToo.ne_declarationName declaresToo nsPrefix)
  | none =>
      cases declaresToo : second.request.declares? with
      | some other =>
          exact absurd (namedToo.of_declares declaresToo) (named.ne_declarationName declares other)
      | none =>
          rcases named.of_ordinary declares with ⟨localName, means⟩
          rcases namedToo.of_ordinary declaresToo with ⟨localNameToo, meansToo⟩
          have sameLocal := String.toList_inj.mp (localName.symm.trans localNameToo)
          have sameUri : first.attributeUri = second.attributeUri := by
            rcases means with ⟨noPrefix, uri⟩ | ⟨given, isPrefix, resolves⟩
            · rcases meansToo with ⟨_, uriToo⟩ | ⟨other, isPrefixToo, _⟩
              · rw [uri, uriToo]
              · rw [noPrefix] at isPrefixToo
                cases isPrefixToo
            · rcases meansToo with ⟨noPrefix, _⟩ | ⟨other, isPrefixToo, resolvesToo⟩
              · rw [isPrefix] at noPrefix
                cases noPrefix
              · rw [isPrefix] at isPrefixToo
                cases isPrefixToo
                exact Option.some.inj (resolves.symm.trans resolvesToo)
          rw [sameUri, sameLocal]

theorem AskedNames.nodup (written : AskedNames (Resolves tags) asked attributes)
    (distinct : (asked.map AskedName.expanded).Nodup) : (attributes.map Prod.fst).Nodup := by
  induction written with
  | nil => exact List.nodup_nil
  | @cons name entry names entries named rest induction =>
      rw [List.map_cons, List.nodup_cons] at distinct ⊢
      refine ⟨fun member => distinct.1 ?_, induction distinct.2⟩
      rcases List.mem_map.mp member with ⟨other, memberToo, same⟩
      rcases List.getElem_of_mem memberToo with ⟨index, inside, rfl⟩
      have insideToo : index < names.length := by rwa [rest.length_eq]
      have namedToo : names[index].InAttribute (Resolves tags) entries[index].1 :=
        rest.get insideToo inside
      rw [same] at namedToo
      rw [List.mem_map]
      exact ⟨names[index], List.getElem_mem insideToo, namedToo.expanded_eq named⟩

theorem Reading.Adds.nodup_names (adds : Adds tag added around)
    (distinct : (tag.attributes.map Prod.fst).Nodup)
    (fresh : ∀ entry ∈ tag.attributes, ∀ nsPrefix, entry.1 = declarationName (some nsPrefix) →
      uriOf? around (some nsPrefix) ≠ some (valueText entry.2)) :
    ((tag.addAll added).attributes.map Prod.fst).Nodup := by
  rw [StartTag.addAll, List.map_append, List.nodup_append]
  refine ⟨distinct, adds.nodup, ?_⟩
  intro name member other memberToo same
  rcases List.mem_map.mp member with ⟨explicit, stands, rfl⟩
  rcases List.mem_map.mp memberToo with ⟨entry, standsToo, rfl⟩
  rcases adds.repeats entry standsToo explicit stands same with ⟨nsPrefix, named, repeats⟩
  exact fresh explicit stands nsPrefix (same.trans named) repeats

end Names

namespace Writer

/-- Attributes have different names. If the attributes that are asked for in a start tag differ in what
they are asked for as, and no explicit declaration of a prefix repeats what is declared around the
tag, then no two attributes of the tag have the same name, also with the declarations that are
added. Explicit declarations may be written piece by piece. -/
theorem names_differ_of_run (limit : Option Nat) (canFlush : Bool) (encoder : Option Encoder)
    (settings : Settings) (calls : List Call) (enabled : settings.namespaces = true)
    (indent : Terms.plain.Indents settings.indentChar)
    (accepts : (create { sink := { limit, canFlush }, encoder } settings).Accepts calls)
    (reads : (create { sink := { limit, canFlush }, encoder } settings).ReadsAll calls) :
    let output : OutputBuffer := { sink := { limit, canFlush }, encoder }
    let writer := create output settings
    ∃ text : String, output.Gets text (writer.run calls).2.output ∧
      ∀ (index : Nat) (tag : StartTag) (around : List StartTag),
        (nesting text.toList).tags[index]? = some (tag :: around) →
          ∃ asked : AskedTag, (writer.asks {} calls).all[index]? = some asked ∧
            ((asked.attributes.map AskedName.expanded).Nodup →
              (∀ entry ∈ tag.attributes.take asked.attributes.length, ∀ nsPrefix : String,
                entry.1 = declarationName (some nsPrefix) →
                  uriOf? around (some nsPrefix) ≠ some (valueText entry.2)) →
              (tag.attributes.map Prod.fst).Nodup) := by
  intro output writer
  rcases told_of_run enabled indent accepts reads with ⟨text, draft, sight, gets, followed⟩
  refine ⟨text, gets, fun index tag around found => ?_⟩
  rcases followed.honoured found with ⟨asked, stands, honoured⟩
  refine ⟨asked, stands, fun distinct fresh => ?_⟩
  cases honoured with
  | mk tag added around written adds =>
      refine adds.nodup_names (written.attributes.nodup distinct) fun entry member => fresh entry ?_
      rwa [written.attributes.length_eq, StartTag.addAll, List.take_left]

theorem names_differ_of_run_rebinding :
    let calls : List Call :=
      [.startElement { localName := "root" },
        .attributeString { nsPrefix := some "xmlns", localName := "p" } "urn:a",
        .startElement { localName := "child" },
        .startAttribute { nsPrefix := some "xmlns", localName := "p" }, .text "urn:", .text "b",
        .attributeString { nsPrefix := some "p", localName := "x", uri := some "urn:b" } "1",
        .attributeString { nsPrefix := some "p", localName := "x", uri := some "urn:c" } "2", .close]
    let output : OutputBuffer := { sink := {} }
    let writer := create output
    writer.Accepts calls ∧ (writer.run calls).2.output.delivered =
        ("<root xmlns:p=\"urn:a\"><child xmlns:p=\"urn:b\" p:x=\"1\" d2p1:x=\"2\" " ++
          "xmlns:d2p1=\"urn:c\" /></root>").toUTF8 ∧
      ∃ text : String, output.Gets text (writer.run calls).2.output ∧
        ∀ (index : Nat) (tag : StartTag) (around : List StartTag),
          (nesting text.toList).tags[index]? = some (tag :: around) →
            ∃ asked : AskedTag, (writer.asks {} calls).all[index]? = some asked ∧
              ((asked.attributes.map AskedName.expanded).Nodup →
                (∀ entry ∈ tag.attributes.take asked.attributes.length, ∀ nsPrefix : String,
                  entry.1 = declarationName (some nsPrefix) →
                    uriOf? around (some nsPrefix) ≠ some (valueText entry.2)) →
                (tag.attributes.map Prod.fst).Nodup) := by
  intro calls output writer
  have accepts : writer.Accepts calls := by
    unfold Accepts
    decide +kernel
  have reads : writer.ReadsAll calls := by
    refine readsAll_of_legible ?_
    simp only [calls, List.mem_cons, List.not_mem_nil, or_false, forall_eq_or_imp, forall_eq]
    refine ⟨⟨?_, trivial, ?_⟩, ⟨?_, ?_, ?_⟩, ⟨?_, trivial, ?_⟩, ⟨?_, ?_, ?_⟩, ⟨trivial, trivial, ?_⟩,
      ⟨trivial, trivial, ?_⟩, ⟨?_, ?_, ?_⟩, ⟨?_, ?_, ?_⟩, trivial, trivial, ?_⟩
    all_goals
      first
        | exact NameRequest.meets_plain (by decide +kernel) (by decide +kernel)
        | simp [Call.Undisguised, NameRequest.Disguised]
  have delivered : (writer.run calls).2.output.delivered =
      ("<root xmlns:p=\"urn:a\"><child xmlns:p=\"urn:b\" p:x=\"1\" d2p1:x=\"2\" " ++
        "xmlns:d2p1=\"urn:c\" /></root>").toUTF8 := by
    decide +kernel
  have indent : Terms.plain.Indents ({} : Settings).indentChar := ⟨by decide, by decide⟩
  refine ⟨accepts, delivered, ?_⟩
  clear_value calls
  exact names_differ_of_run none true none {} calls rfl indent accepts reads

/-- An explicit declaration that repeats what is declared around the tag leaves no trace in it. A
declaration of the same prefix may be added then. -/
theorem repeated_declaration :
    let calls : List Call :=
      [.startElement { localName := "root" },
        .attributeString { nsPrefix := some "xmlns", localName := "p" } "urn:a",
        .startElement { localName := "child" },
        .attributeString { nsPrefix := some "xmlns", localName := "p" } "urn:a",
        .attributeString { nsPrefix := some "p", localName := "x", uri := some "urn:b" } "1", .close]
    let writer := create { sink := {} }
    let text := "<root xmlns:p=\"urn:a\"><child xmlns:p=\"urn:a\" p:x=\"1\" xmlns:p=\"urn:b\" /></root>"
    writer.Accepts calls ∧ (writer.run calls).2.output.delivered = text.toUTF8 ∧
      (∀ asked ∈ (writer.asks {} calls).all, (asked.attributes.map AskedName.expanded).Nodup) ∧
      ∃ tags ∈ (nesting text.toList).tags, ∃ tag ∈ tags.head?, ¬(tag.attributes.map Prod.fst).Nodup := by
  intro calls writer text
  refine ⟨?_, by decide +kernel, by decide +kernel, by decide +kernel⟩
  unfold Accepts
  decide +kernel

end Writer

end XmlStream
