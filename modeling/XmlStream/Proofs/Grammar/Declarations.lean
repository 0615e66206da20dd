import XmlStream.Proofs.Grammar.Clean

namespace XmlStream.Draft

/-! What stands before the root element: the XML declaration, and the document type. -/

open Grammar

theorem toList_text (quote : Quote) : quote.text.toList = [quote.char] := by
  simp [Quote.text]

theorem quoted_of_notMem {inner : Production} {quote : Quote} {text : String}
    (holds : inner text.toList) (notQuote : quote.char ∉ text.toList) :
    Quoted inner (quote.text ++ text ++ quote.text).toList := by
  have quoted := Quoted.mk (isQuote_char quote) holds notQuote
  simpa [toList_text] using quoted

theorem declarationPart_of_notMem {quote : Quote} {name value : String} {inner : Production}
    (holds : inner value.toList) (notQuote : quote.char ∉ value.toList) :
    DeclarationPart name inner (declarationPart quote name value).toList := by
  have part : DeclarationPart name inner _ :=
    .mk space_single equals_single (quoted_of_notMem holds notQuote)
  simpa [declarationPart] using part

theorem encodingName_name (charset : Charset) : EncodingName charset.name.toList := by
  cases charset <;> exact ⟨_, _, rfl, by decide, by decide⟩

/-- The declaration of a document. If it names an encoding, that is the one of a character set. -/
theorem xmlDeclaration_grammar (draft : Draft) {encoding : Option String}
    (named : ∀ name, encoding = some name → ∃ charset : Charset, name = charset.name)
    (standalone : Option Bool) :
    XmlDeclaration (draft.xmlDeclaration encoding standalone).toList := by
  have version : DeclarationPart "version" VersionNumber
      (declarationPart draft.settings.quote "version" "1.0").toList := by
    refine declarationPart_of_notMem ⟨['0'], rfl, by simp, by simp⟩ ?_
    cases draft.settings.quote <;> decide
  have encoded : Optional (DeclarationPart "encoding" EncodingName)
      ((encoding.map (declarationPart draft.settings.quote "encoding")).getD "").toList := by
    cases encoding with
    | none => exact .inl rfl
    | some name =>
        rcases named name rfl with ⟨charset, rfl⟩
        refine .inr (declarationPart_of_notMem (encodingName_name charset) ?_)
        cases charset <;> cases draft.settings.quote <;> decide
  have standing : Optional (DeclarationPart "standalone" Standalone)
      ((standalone.map fun alone => declarationPart draft.settings.quote "standalone"
        (if alone then "yes" else "no")).getD "").toList := by
    cases standalone with
    | none => exact .inl rfl
    | some alone =>
        refine .inr (declarationPart_of_notMem ?_ ?_)
        · cases alone
          · exact .inr rfl
          · exact .inl rfl
        · cases alone <;> cases draft.settings.quote <;> decide
  have declares := XmlDeclaration.mk version encoded standing optionalSpace_nil
  simpa [xmlDeclaration] using declares

theorem literalQuote?_eq_some {usual quote : Quote} {literal : String}
    (found : Writer.literalQuote? usual literal = some quote) : quote.char ∉ literal.toList := by
  simp only [Writer.literalQuote?] at found
  split at found
  · rename_i free
    cases found
    simpa using free
  · split at found
    · rename_i free
      cases found
      simpa using free
    · simp at found

theorem quoted_of_quoted? {draft : Draft} {inner : Production} {literal text : String}
    (found : draft.quoted? literal = some text) (holds : inner literal.toList) :
    Quoted inner text.toList := by
  obtain ⟨quote, free, rfl⟩ := Option.map_eq_some_iff.mp found
  exact quoted_of_notMem holds (literalQuote?_eq_some free)

theorem externalId_of_externalId? {draft : Draft} {publicId systemId subset : Option String}
    {ids : String} (clean : CleanDoctype publicId systemId subset)
    (identified : draft.externalId? publicId systemId = some ids) :
    ids = "" ∨ ∃ identifier, ids.toList = ' ' :: identifier ∧ ExternalId identifier := by
  cases publicId with
  | none =>
      cases systemId with
      | none =>
          simp only [externalId?, Option.some.injEq] at identified
          exact .inl identified.symm
      | some systemId =>
          obtain ⟨literal, found, rfl⟩ := Option.map_eq_some_iff.mp identified
          have located : SystemLiteral literal.toList :=
            quoted_of_quoted? found (clean.systemId systemId rfl)
          refine .inr ⟨_, ?_, ExternalId.system space_single located⟩
          simp
  | some publicId =>
      simp only [externalId?, Option.bind_eq_bind, Option.bind_eq_some_iff, Option.pure_def,
        Option.some.injEq] at identified
      obtain ⟨publicLiteral, foundPublic, systemLiteral, foundSystem, rfl⟩ := identified
      have named : PublicLiteral publicLiteral.toList :=
        quoted_of_quoted? foundPublic (clean.publicId publicId rfl)
      have located : SystemLiteral systemLiteral.toList := by
        refine quoted_of_quoted? foundSystem ?_
        cases systemId with
        | none => simp
        | some systemId => exact clean.systemId systemId rfl
      refine .inr ⟨_, ?_, ExternalId.publicSystem space_single named space_single located⟩
      simp

theorem doctype_grammar {draft : Draft} {name ids : String}
    {publicId systemId subset : Option String} {form : Name.Form} {namespaces : Bool}
    (clean : CleanDoctype publicId systemId subset) (usable : Name.isUsable form namespaces name)
    (identified : draft.externalId? publicId systemId = some ids) :
    Doctype ("<!DOCTYPE " ++ name ++ ids ++
      (subset.map fun subset => "[" ++ subset ++ "]").getD "" ++ ">").toList := by
  have named := name_of_isUsable usable
  rw [clean.subset]
  obtain rfl | ⟨identifier, whole, external⟩ := externalId_of_externalId? clean identified
  · have bare := Doctype.bare space_single named optionalSpace_nil
    simpa using bare
  · have full := Doctype.external space_single named space_single external optionalSpace_nil
    simpa [whole] using full

end XmlStream.Draft
