import XmlStream.Proofs.Grammar.Declarations
import XmlStream.Proofs.Reading.Constructs

namespace XmlStream

namespace Reading

/-! Where markup leads a reader: tags and their attributes, the constructs that a mark ends, and
document types. -/

open Charset Grammar

variable {charset : Charset} {place : Place} {tag : StartTag} {name text more : List Char}
  {quote : Quote}

theorem eq_content_of_inText (inText : InText none place) : place = .text .content := by
  rcases inText with ⟨host, rfl, outside⟩
  cases host with
  | content => rfl
  | value name quote parts => cases outside

theorem inText_content : InText none (.text .content) := ⟨.content, rfl, rfl⟩

/-! ## Names -/

theorem read_tagName (parts : ∀ character ∈ more, CharacterClass.namePart.hasChar character = true) :
    read (.tagName name) more = (.tagName (name ++ more), []) := by
  induction more generalizing name with
  | nil => simp [read_nil]
  | cons character rest induction =>
      rw [read_cons, advance, advanceTagName, if_pos (parts character List.mem_cons_self),
        induction fun other member => parts other (List.mem_cons_of_mem _ member)]
      simp

theorem read_attributeName
    (parts : ∀ character ∈ more, CharacterClass.namePart.hasChar character = true) :
    read (.attributeName tag name false) more = (.attributeName tag (name ++ more) false, []) := by
  induction more generalizing name with
  | nil => simp [read_nil]
  | cons character rest induction =>
      have goesOn : !false ∧ CharacterClass.namePart.hasChar character :=
        ⟨rfl, parts character List.mem_cons_self⟩
      rw [read_cons, advance, advanceAttributeName, if_pos goesOn,
        induction fun other member => parts other (List.mem_cons_of_mem _ member)]
      simp

theorem read_endTagName (notEmpty : name ≠ [])
    (parts : ∀ character ∈ more, CharacterClass.namePart.hasChar character = true) :
    read (.endTag name false) more = (.endTag (name ++ more) false, []) := by
  induction more generalizing name with
  | nil => simp [read_nil]
  | cons character rest induction =>
      have goesOn : !false ∧ continues name character := by
        refine ⟨rfl, ?_⟩
        rw [continues, if_neg notEmpty]
        exact parts character List.mem_cons_self
      rw [read_cons, advance, advanceEndTag, if_pos goesOn, induction (by simp)
        fun other member => parts other (List.mem_cons_of_mem _ member)]
      simp

theorem ne_of_namePart {character other : Char}
    (part : CharacterClass.namePart.hasChar character = true)
    (notPart : CharacterClass.namePart.hasChar other = false) : character ≠ other := by
  rintro rfl
  rw [part] at notPart
  cases notPart

/-! ## Tags -/

inductive InTag (tag : StartTag) : Place → Prop
  | name (bare : tag.attributes = []) : InTag tag (.tagName tag.name)
  | tag (apart : Bool) : InTag tag (.tag tag apart)

theorem read_startTag (named : Name name) :
    read (.text .content) ('<' :: name) = (.tagName name, []) := by
  rcases named with ⟨first, rest, start, parts⟩
  have part := CharacterClass.namePart_of_nameStart start
  have notSlash : first ≠ '/' := ne_of_namePart part (by decide)
  have notQuestion : first ≠ '?' := ne_of_namePart part (by decide)
  have notExclamation : first ≠ '!' := ne_of_namePart part (by decide)
  have begun : advance (.markup []) first = (.tagName [first], []) := by
    simp [advance, advanceMarkup, openings, List.lookup_cons, beq_eq_false_iff_ne.mpr notSlash,
      beq_eq_false_iff_ne.mpr notQuestion, notSlash, notQuestion, notExclamation, start]
  have less : advance (.text .content) '<' = (.markup [], []) := by decide
  rw [read_cons, less, read_cons, begun, read_tagName parts]
  rfl

theorem carries_startTag (named : Name name) (has : ∀ character ∈ name, charset.Has character) :
    Carries charset (.text .content) ('<' :: name) (InTag { name }) := by
  have less : IsCommon '<' := by decide
  refine carries_of_has ?_ ?_
  · simp only [List.mem_cons, forall_eq_or_imp]
    exact ⟨less.has, has⟩
  · rw [read_startTag named]
    exact .name rfl

/-- Behind a name it makes no difference that the name has just ended. -/
theorem advance_inTag (inTag : InTag tag place) {character : Char}
    (notPart : CharacterClass.namePart.hasChar character = false) :
    advance place character = advanceTag tag false character ∨
      advance place character = advanceTag tag true character := by
  cases inTag with
  | name bare =>
      have whole : tag = { name := tag.name } := by rw [← bare]
      rw [advance, advanceTagName, if_neg (by simp [notPart]), ← whole]
      exact .inl rfl
  | tag apart => cases apart <;> simp [advance]

theorem advance_space (inTag : InTag tag place) : advance place ' ' = (.tag tag true, []) := by
  have blank : CharacterClass.blank.hasChar ' ' = true := by decide
  rcases advance_inTag inTag (by decide : CharacterClass.namePart.hasChar ' ' = false) with
    same | same <;> rw [same, advanceTag, if_pos blank]

theorem read_attributeStart (inTag : InTag tag place) (named : Name name) (quote : Quote) :
    read place (' ' :: (name ++ ['=', quote.char])) = (.text (.value tag name quote []), []) := by
  rcases named with ⟨first, rest, start, parts⟩
  have part := CharacterClass.namePart_of_nameStart start
  have notBlank := CharacterClass.not_blank_of_namePart part
  have begun : advance (.tag tag true) first = (.attributeName tag [first] false, []) := by
    have notGreater : first ≠ '>' := ne_of_namePart part (by decide)
    have notSlash : first ≠ '/' := ne_of_namePart part (by decide)
    simp [advance, advanceTag, notBlank, notGreater, notSlash, start]
  have equals (name : List Char) :
      advance (.attributeName tag name false) '=' = (.equals tag name, []) := by
    have notPart : CharacterClass.namePart.hasChar '=' = false := by decide
    have notBlank : CharacterClass.blank.hasChar '=' = false := by decide
    simp [advance, advanceAttributeName, notPart, notBlank]
  have quoted (name : List Char) :
      advance (.equals tag name) quote.char = (.text (.value tag name quote []), []) := by
    cases quote <;> rfl
  rw [read_cons, advance_space inTag, List.cons_append, read_cons, begun, read_append,
    read_attributeName parts, read_cons, equals, read_single, quoted]
  rfl

theorem carries_attributeStart (inTag : InTag tag place) (named : Name name)
    (has : ∀ character ∈ name, charset.Has character) (quote : Quote) :
    Carries charset place (' ' :: (name ++ ['=', quote.char])) (InText (some quote)) := by
  have space : IsCommon ' ' := by decide
  have equals : IsCommon '=' := by decide
  have quoted : IsCommon quote.char := by cases quote <;> decide
  refine carries_of_has ?_ ?_
  · intro character member
    simp only [List.mem_cons, List.mem_append, List.not_mem_nil, or_false] at member
    rcases member with rfl | member | rfl | rfl
    · exact space.has
    · exact has character member
    · exact equals.has
    · exact quoted.has
  · rw [read_attributeStart inTag named]
    exact ⟨_, rfl, rfl⟩

theorem read_quote {host : Host} (within : host.quote? = some quote) :
    read (.text host) [quote.char] = (host.close, []) := by
  have notAmpersand : quote.char ≠ '&' := by cases quote <;> decide
  have notLess : quote.char ≠ '<' := by cases quote <;> decide
  have closes : host.quote?.map Quote.char = some quote.char := by rw [within]; rfl
  rw [read_single, advance, advanceText, if_neg notAmpersand, if_neg notLess, if_pos closes]

theorem carries_quote (inText : InText (some quote) place) :
    Carries charset place [quote.char] (fun next => ∃ tag, InTag tag next) := by
  rcases inText with ⟨host, rfl, within⟩
  have common : IsCommon quote.char := by cases quote <;> decide
  refine carries_of_common (by simpa using common) ?_
  rw [read_quote within]
  cases host with
  | content => cases within
  | value tag name quote parts => exact ⟨tag.add name parts, .tag false⟩

theorem read_tagEnd (inTag : InTag tag place) :
    read place ['>'] = (.text .content, [.startTag tag]) := by
  rw [read_single]
  rcases advance_inTag inTag (by decide : CharacterClass.namePart.hasChar '>' = false) with
    same | same <;> rw [same] <;> rfl

theorem carries_tagEnd (inTag : InTag tag place) : Carries charset place ['>'] (InText none) := by
  refine carries_of_common (by decide) ?_
  rw [read_tagEnd inTag]
  exact inText_content

theorem read_emptyTagEnd (inTag : InTag tag place) :
    read place " />".toList = (.text .content, [.emptyTag tag]) := by
  rw [show " />".toList = [' ', '/', '>'] from rfl, read_cons, advance_space inTag]
  rfl

theorem carries_emptyTagEnd (inTag : InTag tag place) :
    Carries charset place " />".toList (InText none) := by
  refine carries_of_common (by decide) ?_
  rw [read_emptyTagEnd inTag]
  exact inText_content

theorem read_endTag (named : Name name) :
    read (.text .content) ("</".toList ++ name ++ ['>']) = (.text .content, [.endTag name]) := by
  rcases named with ⟨first, rest, start, parts⟩
  have opened : read (.text .content) "</".toList = (.endTag [] false, []) := by decide
  have begun : advance (.endTag [] false) first = (.endTag [first] false, []) := by
    simp [advance, advanceEndTag, continues, start]
  have ended (name : List Char) (notEmpty : name ≠ []) :
      advance (.endTag name false) '>' = (.text .content, [.endTag name]) := by
    have notPart : CharacterClass.namePart.hasChar '>' = false := by decide
    simp [advance, advanceEndTag, continues, notEmpty, notPart]
  rw [List.append_assoc, read_append, opened, List.cons_append, read_cons, begun, read_append,
    read_endTagName (by simp) parts, read_single, ended _ (by simp)]
  rfl

theorem carries_endTag (named : Name name) (has : ∀ character ∈ name, charset.Has character) :
    Carries charset (.text .content) ("</".toList ++ name ++ ['>']) (InText none) := by
  have less : IsCommon '<' := by decide
  have slash : IsCommon '/' := by decide
  have greater : IsCommon '>' := by decide
  refine carries_of_has ?_ ?_
  · intro character member
    simp only [String.reduceToList, List.cons_append, List.nil_append, List.mem_cons,
      List.mem_append, List.not_mem_nil, or_false] at member
    rcases member with rfl | rfl | member | rfl
    · exact less.has
    · exact slash.has
    · exact has character member
    · exact greater.has
  · rw [read_endTag named]
    exact inText_content

theorem toList_attributeStart (name : String) (quote : Quote) :
    (" " ++ name ++ "=" ++ quote.text).toList = ' ' :: (name.toList ++ ['=', quote.char]) := by
  simp [Draft.toList_text]

theorem toList_topAttributeStart (name : String) (quote : Quote) :
    ("" ++ name ++ "=" ++ quote.text).toList = name.toList ++ ['=', quote.char] := by
  simp [Draft.toList_text]

theorem mem_attributeStart (named : Name name) {character : Char}
    (member : character ∈ name ++ ['=', quote.char]) :
    IsChar character ∧ character ≠ '<' ∧ character ≠ '&' := by
  rw [List.mem_append, List.mem_cons, List.mem_singleton] at member
  rcases member with member | rfl | rfl
  · have part := named.parts character member
    exact ⟨CharacterClass.xml_of_namePart part, ne_of_namePart part (by decide),
      ne_of_namePart part (by decide)⟩
  · unfold IsChar
    decide
  · unfold IsChar
    cases quote <;> decide

/-! ## Constructs that a mark ends -/

/-- A mark that ends with a character of its own does not come about by its beginning. -/
theorem not_infix_append {init text : List Char} {last : Char} (own : last ∉ init)
    (absent : ¬init ++ [last] <:+: text) : ¬init ++ [last] <:+: text ++ init := by
  rintro ⟨before, after, whole⟩
  rcases List.append_eq_append_iff.mp whole with ⟨rest, earlier, late⟩ | ⟨rest, early, later⟩
  · exact absent ⟨before, rest, earlier.symm⟩
  · cases rest using List.reverseRecOn with
    | nil => exact absent ⟨before, [], by simpa using early⟩
    | append_singleton rest final =>
        rw [← List.append_assoc, ← List.append_assoc] at early
        have same : last = final := List.append_inj_right' early rfl |> List.singleton_inj.mp
        exact own (by rw [later, same]; simp)

theorem read_verbatim_open {kind : Verbatim} {seen : List Char}
    (absent : ¬kind.terminator <:+: seen ++ text) :
    read (.verbatim kind seen) text = (.verbatim kind (seen ++ text), []) := by
  induction text generalizing seen with
  | nil => simp [read_nil]
  | cons character rest induction =>
      have whole : seen ++ character :: rest = (seen ++ [character]) ++ rest := by simp
      rw [whole] at absent
      have notEnded : ¬kind.terminator.isSuffixOf (seen ++ [character]) := by
        rw [List.isSuffixOf_iff_suffix]
        exact fun ends => absent (ends.isInfix.trans (List.prefix_append _ _).isInfix)
      rw [read_cons, advance, advanceVerbatim, if_neg notEnded, induction absent, whole]
      rfl

theorem read_verbatim {kind : Verbatim} (absent : ¬kind.terminator <:+: text) :
    read (.verbatim kind []) (text ++ kind.terminator) = (.text .content, [kind.item text]) := by
  have parts : ∃ init, kind.terminator = init ++ ['>'] ∧ '>' ∉ init := by
    cases kind
    · exact ⟨"--".toList, rfl, by decide⟩
    · exact ⟨"]]".toList, rfl, by decide⟩
    · exact ⟨"?".toList, rfl, by decide⟩
  rcases parts with ⟨init, split, own⟩
  have stillAbsent : ¬kind.terminator <:+: [] ++ (text ++ init) := by
    rw [List.nil_append, split]
    exact not_infix_append own (split ▸ absent)
  have ends : advance (.verbatim kind (text ++ init)) '>' =
      (.text .content, [kind.item text]) := by
    have whole : text ++ init ++ ['>'] = text ++ kind.terminator := by rw [split, List.append_assoc]
    rw [advance, advanceVerbatim, whole,
      if_pos (List.isSuffixOf_iff_suffix.mpr (List.suffix_append _ _))]
    simp
  rw [show text ++ kind.terminator = text ++ init ++ ['>'] by rw [split, List.append_assoc],
    read_append, read_verbatim_open stillAbsent, read_single, List.nil_append, ends]
  rfl

theorem read_construct {kind : Verbatim} {lead : List Char}
    (opens : read (.text .content) lead = (.verbatim kind [], []))
    (absent : ¬kind.terminator <:+: text) :
    read (.text .content) (lead ++ text ++ kind.terminator) =
      (.text .content, [kind.item text]) := by
  rw [List.append_assoc, read_append, opens, read_verbatim absent]
  rfl

theorem read_comment (noHyphens : ¬"--".toList <:+: text) :
    read (.text .content) ("<!--".toList ++ text ++ "-->".toList) =
      (.text .content, [.comment text]) := by
  have opens : read (.text .content) "<!--".toList = (.verbatim .comment [], []) := by decide
  have begins : "--".toList <:+: "-->".toList := ⟨[], ['>'], rfl⟩
  exact read_construct opens fun inside => noHyphens (begins.trans inside)

theorem read_cdata (noEnd : ¬"]]>".toList <:+: text) :
    read (.text .content) ("<![CDATA[".toList ++ text ++ "]]>".toList) =
      (.text .content, [.cdata text]) := by
  have opens : read (.text .content) "<![CDATA[".toList = (.verbatim .cdata [], []) := by decide
  have reads := read_construct opens noEnd
  exact reads

theorem read_instruction (noEnd : ¬"?>".toList <:+: text) :
    read (.text .content) ("<?".toList ++ text ++ "?>".toList) =
      (.text .content, [Verbatim.instruction.item text]) := by
  have opens : read (.text .content) "<?".toList = (.verbatim .instruction [], []) := by decide
  exact read_construct opens noEnd

theorem carries_construct {lead mark : List Char}
    (common : ∀ character ∈ lead ++ mark, IsCommon character)
    (has : ∀ character ∈ text, charset.Has character) {items : List Item}
    (reads : read (.text .content) (lead ++ text ++ mark) = (.text .content, items)) :
    Carries charset (.text .content) (lead ++ text ++ mark) (InText none) := by
  refine carries_of_has ?_ ?_
  · intro character member
    rw [List.mem_append, List.mem_append] at member
    rcases member with (member | member) | member
    · exact (common character (List.mem_append_left _ member)).has
    · exact has character member
    · exact (common character (List.mem_append_right _ member)).has
  · rw [reads]
    exact inText_content

theorem carries_comment (has : ∀ character ∈ text, charset.Has character)
    (noHyphens : ¬"--".toList <:+: text) :
    Carries charset (.text .content) ("<!--".toList ++ text ++ "-->".toList) (InText none) :=
  carries_construct (by decide) has (read_comment noHyphens)

theorem carries_cdata (has : ∀ character ∈ text, charset.Has character)
    (noEnd : ¬"]]>".toList <:+: text) :
    Carries charset (.text .content) ("<![CDATA[".toList ++ text ++ "]]>".toList)
      (InText none) :=
  carries_construct (by decide) has (read_cdata noEnd)

/-- A mark does not begin in a text that lacks its first character. -/
theorem infix_of_infix_append {first : Char} {rest lead text : List Char} (absent : first ∉ lead)
    (inside : first :: rest <:+: lead ++ text) : first :: rest <:+: text := by
  induction lead with
  | nil => exact inside
  | cons character lead induction =>
      rw [List.mem_cons, not_or] at absent
      rw [List.cons_append, List.infix_cons_iff] at inside
      rcases inside with begins | inside
      · exact absurd (List.cons_prefix_cons.mp begins).1 absent.1
      · exact induction absent.2 inside

theorem instruction_lead {target content : String} (notQuestion : '?' ∉ target.toList) :
    ∃ lead, (target ++ (if content = "" then "" else " " ++ content)).toList = lead ++ content.toList ∧
      '?' ∉ lead ∧ ∀ character ∈ lead, character ∈ target.toList ∨ character = ' ' := by
  split
  · rename_i empty
    exact ⟨target.toList, by simp [empty], notQuestion, fun _ => .inl⟩
  · refine ⟨target.toList ++ [' '], by simp, by simpa using notQuestion, fun character member => ?_⟩
    rwa [List.mem_append, List.mem_singleton] at member

theorem carries_instruction (has : ∀ character ∈ text, charset.Has character)
    (noEnd : ¬"?>".toList <:+: text) :
    Carries charset (.text .content) ("<?".toList ++ text ++ "?>".toList) (InText none) :=
  carries_construct (by decide) has (read_instruction noEnd)

/-! ## Document types -/

theorem foldl_region_ended (text : List Char) : text.foldl Region.advance .ended = .ended := by
  induction text with
  | nil => rfl
  | cons character rest induction => exact induction

theorem read_doctype {region : Region} {seen : List Char}
    (goesOn : text.foldl Region.advance region ≠ .ended) :
    read (.doctype region seen) text =
      (.doctype (text.foldl Region.advance region) (seen ++ text), []) := by
  induction text generalizing region seen with
  | nil => simp [read_nil]
  | cons character rest induction =>
      rw [List.foldl_cons] at goesOn
      have notEnded : region.advance character ≠ .ended := by
        intro ended
        rw [ended] at goesOn
        exact goesOn (foldl_region_ended rest)
      have first : advance (.doctype region seen) character =
          (.doctype (region.advance character) (seen ++ [character]), []) := by
        rw [advance, advanceDoctype, if_neg notEnded]
      rw [read_cons, first, induction goesOn]
      simp

def Between (text : List Char) : Prop := text.foldl Region.advance .outside = .outside

theorem Between.append (between : Between text) (later : Between more) : Between (text ++ more) := by
  rw [Between, List.foldl_append, between, later]

def Idle (character : Char) : Prop := Region.outside.advance character = .outside

instance (character : Char) : Decidable (Idle character) := inferInstanceAs (Decidable (_ = _))

theorem between_of_idle (idle : ∀ character ∈ text, Idle character) : Between text := by
  induction text with
  | nil => rfl
  | cons character rest induction =>
      rw [Between, List.foldl_cons, idle character List.mem_cons_self]
      exact induction fun other member => idle other (List.mem_cons_of_mem _ member)

theorem idle_of_namePart {character : Char}
    (part : CharacterClass.namePart.hasChar character = true) : Idle character := by
  have notGreater : character ≠ '>' := ne_of_namePart part (by decide)
  have notBracket : character ≠ '[' := ne_of_namePart part (by decide)
  have notDouble : character ≠ '"' := ne_of_namePart part (by decide)
  have notSingle : character ≠ '\'' := ne_of_namePart part (by decide)
  have noQuote : Quote.ofChar? character = none := by
    unfold Quote.ofChar?
    split
    · exact absurd rfl notDouble
    · exact absurd rfl notSingle
    · rfl
  rw [Idle, Region.advance, if_neg notGreater, if_neg notBracket, noQuote]

theorem foldl_literal (free : quote.char ∉ text) :
    text.foldl Region.advance (.literal quote) = .literal quote := by
  induction text with
  | nil => rfl
  | cons character rest induction =>
      rw [List.mem_cons, not_or] at free
      rw [List.foldl_cons, Region.advance, if_neg (Ne.symm free.1), induction free.2]

theorem between_quoted (free : quote.char ∉ text) :
    Between (quote.char :: (text ++ [quote.char])) := by
  have opens : Region.outside.advance quote.char = .literal quote := by cases quote <;> rfl
  rw [Between, List.foldl_cons, opens, List.foldl_append, foldl_literal free, List.foldl_cons,
    Region.advance, if_pos rfl]
  rfl

theorem between_quoted? {draft : Draft} {literal written : String}
    (found : draft.quoted? literal = some written) : Between written.toList := by
  rcases Option.map_eq_some_iff.mp found with ⟨quote, free, rfl⟩
  simpa [Draft.toList_text] using between_quoted (Draft.literalQuote?_eq_some free)

theorem between_externalId? {draft : Draft} {publicId systemId : Option String} {ids : String}
    (identified : draft.externalId? publicId systemId = some ids) : Between ids.toList := by
  cases publicId with
  | none =>
      cases systemId with
      | none =>
          cases identified
          exact between_of_idle (by simp)
      | some systemId =>
          rcases Option.map_eq_some_iff.mp identified with ⟨literal, found, rfl⟩
          rw [String.toList_append]
          exact (between_of_idle (by decide)).append (between_quoted? found)
  | some publicId =>
      simp only [Draft.externalId?, Option.bind_eq_bind, Option.bind_eq_some_iff, Option.pure_def,
        Option.some.injEq] at identified
      rcases identified with ⟨publicLiteral, foundPublic, systemLiteral, foundSystem, rfl⟩
      simp only [String.toList_append]
      exact (((between_of_idle (by decide)).append (between_quoted? foundPublic)).append
        (between_of_idle (by decide))).append (between_quoted? foundSystem)

theorem between_subset (enclosed : Enclosed text) : Between ('[' :: (text ++ [']'])) := by
  rcases enclosed with ⟨seen, ends⟩
  have opens : Region.outside.advance '[' = .subset [] := by decide
  rw [Between, List.foldl_cons, opens, List.foldl_append, ends, List.foldl_cons, Region.advance,
    if_pos rfl]
  rfl

theorem read_doctypeDeclaration (between : Between text) :
    read (.text .content) ("<!DOCTYPE".toList ++ text ++ ['>']) =
      (.text .content, [.doctype text]) := by
  have opens : read (.text .content) "<!DOCTYPE".toList = (.doctype .outside [], []) := by decide
  have within : read (.doctype .outside []) text = (.doctype .outside text, []) := by
    rw [read_doctype (by rw [between]; simp), between]
    rfl
  have ends : advance (.doctype .outside text) '>' = (.text .content, [.doctype text]) := rfl
  rw [read_append, read_append, opens, within, read_single, ends]
  rfl

theorem between_nameAndIds {draft : Draft} {name ids : String} {publicId systemId : Option String}
    (named : Name name.toList) (identified : draft.externalId? publicId systemId = some ids) :
    Between (' ' :: (name.toList ++ ids.toList)) := by
  have space : Between [' '] := between_of_idle (by decide)
  have nameIdle : Between name.toList :=
    between_of_idle fun character member => idle_of_namePart (named.parts character member)
  exact space.append (nameIdle.append (between_externalId? identified))

theorem carries_doctype {draft : Draft} {name ids : String} {publicId systemId : Option String}
    (named : Name name.toList) (identified : draft.externalId? publicId systemId = some ids)
    (has : ∀ character ∈ name.toList ++ ids.toList, charset.Has character) :
    Carries charset (.text .content) ("<!DOCTYPE ".toList ++ name.toList ++ ids.toList ++ ['>'])
      (InText none) := by
  have lead : ∀ character ∈ "<!DOCTYPE ".toList, IsCommon character := by decide
  have greater : IsCommon '>' := by decide
  refine carries_of_has ?_ ?_
  · intro character member
    rw [List.append_assoc, List.append_assoc, ← List.append_assoc name.toList, List.mem_append,
      List.mem_append, List.mem_singleton] at member
    rcases member with member | member | rfl
    · exact (lead character member).has
    · exact has character member
    · exact greater.has
  · have whole : "<!DOCTYPE ".toList ++ name.toList ++ ids.toList ++ ['>'] =
        "<!DOCTYPE".toList ++ (' ' :: (name.toList ++ ids.toList)) ++ ['>'] := by
      simp
    rw [whole, read_doctypeDeclaration (between_nameAndIds named identified)]
    exact inText_content

/-! ## Declarations of documents -/

def versionText (quote : Quote) : List Char :=
  "version=".toList ++ [quote.char] ++ "1.0".toList ++ [quote.char]

theorem not_infix_of_notMem {first : Char} {rest : List Char} (absent : first ∉ text) :
    ¬first :: rest <:+: text :=
  fun inside => absent (inside.subset List.mem_cons_self)

theorem read_declaration {quote : Quote} {standing : List Char} (noMark : '?' ∉ standing) :
    read (.text .content)
        ("<?".toList ++ ("xml ".toList ++ (versionText quote ++ standing) ++ "?>".toList)) =
      (.text .content, [.instruction "xml".toList (versionText quote ++ standing)]) := by
  have opens : read (.text .content) "<?".toList = (.verbatim .instruction [], []) := by decide
  have noMarkBefore : '?' ∉ "xml ".toList ++ versionText quote := by cases quote <;> decide
  have noEnd : ¬"?>".toList <:+: "xml ".toList ++ (versionText quote ++ standing) := by
    refine not_infix_of_notMem ?_
    rw [← List.append_assoc, List.mem_append, not_or]
    exact ⟨noMarkBefore, noMark⟩
  have item : Verbatim.item ("xml ".toList ++ (versionText quote ++ standing)) .instruction =
      .instruction "xml".toList (versionText quote ++ standing) := rfl
  have reads : read (.verbatim .instruction [])
      ("xml ".toList ++ (versionText quote ++ standing) ++ "?>".toList) = (.text .content,
        [Verbatim.item ("xml ".toList ++ (versionText quote ++ standing)) .instruction]) :=
    read_verbatim noEnd
  rw [read_append, opens, reads, item]
  rfl

def Declares (character : Char) : Prop := IsCommon character ∧ character ≠ '?'

instance (character : Char) : Decidable (Declares character) :=
  inferInstanceAs (Decidable (_ ∧ _))

theorem declares_declarationPart {quote : Quote} {name value : String}
    (named : ∀ character ∈ name.toList, Declares character)
    (valued : ∀ character ∈ value.toList, Declares character) :
    ∀ character ∈ (Draft.declarationPart quote name value).toList, Declares character := by
  have space : Declares ' ' := by decide
  have equals : Declares '=' := by decide
  have quoted : Declares quote.char := by cases quote <;> decide
  intro character member
  simp only [Draft.declarationPart, String.toList_append, String.reduceToList, Draft.toList_text,
    List.mem_append, List.mem_singleton] at member
  rcases member with ((((rfl | member) | rfl) | rfl) | member) | rfl
  · exact space
  · exact named character member
  · exact equals
  · exact quoted
  · exact valued character member
  · exact quoted

end Reading

namespace Draft

open Charset Reading

variable {draft : Draft}

theorem mem_lineText {beforeEnd : Bool} {character : Char}
    (member : character ∈ (draft.lineText beforeEnd).toList) :
    character = '\n' ∨ character = draft.settings.indentChar := by
  unfold lineText at member
  dsimp only at member
  generalize (if beforeEnd = true then draft.depth - 1 else draft.depth) = level at member
  split at member
  · exact .inl (by simpa using member)
  · simp only [String.toList_ofList, List.mem_cons, List.mem_replicate] at member
    exact member.imp_right And.right

def declaredText (quote : Quote) (encoding : Option String) (standalone : Option Bool) :
    List Char :=
  ((encoding.map (declarationPart quote "encoding")).getD "").toList ++
    ((standalone.map fun alone =>
      declarationPart quote "standalone" (if alone then "yes" else "no")).getD "").toList

theorem toList_xmlDeclaration (encoding : Option String) (standalone : Option Bool) :
    (draft.xmlDeclaration encoding standalone).toList =
      "<?".toList ++ ("xml ".toList ++ (versionText draft.settings.quote ++
        declaredText draft.settings.quote encoding standalone) ++ "?>".toList) := by
  have lead : "<?xml".toList ++ (declarationPart draft.settings.quote "version" "1.0").toList =
      "<?".toList ++ ("xml ".toList ++ versionText draft.settings.quote) := by
    cases draft.settings.quote <;> decide
  rw [xmlDeclaration]
  simp only [String.toList_append]
  rw [lead]
  simp only [declaredText, List.append_assoc]

theorem declares_declaredText (quote : Quote) {encoding : Option String}
    (named : ∀ name, encoding = some name → ∃ charset : Charset, name = charset.name)
    (standalone : Option Bool) :
    ∀ character ∈ declaredText quote encoding standalone, Declares character := by
  intro character member
  rw [declaredText, List.mem_append] at member
  rcases member with member | member
  · cases encoding with
    | none => simp at member
    | some name =>
        rcases named name rfl with ⟨charset, rfl⟩
        exact declares_declarationPart (by decide) (by cases charset <;> decide) character member
  · cases standalone with
    | none => simp at member
    | some alone =>
        exact declares_declarationPart (by decide) (by cases alone <;> decide) character member

theorem read_xmlDeclaration {encoding : Option String}
    (named : ∀ name, encoding = some name → ∃ charset : Charset, name = charset.name)
    (standalone : Option Bool) :
    read (.text .content) (draft.xmlDeclaration encoding standalone).toList =
      (.text .content, [.instruction "xml".toList (versionText draft.settings.quote ++
        declaredText draft.settings.quote encoding standalone)]) := by
  rw [toList_xmlDeclaration]
  exact read_declaration fun member => (declares_declaredText _ named standalone '?' member).2 rfl

theorem isCommon_of_mem_xmlDeclaration {encoding : Option String}
    (named : ∀ name, encoding = some name → ∃ charset : Charset, name = charset.name)
    (standalone : Option Bool) :
    ∀ character ∈ (draft.xmlDeclaration encoding standalone).toList, IsCommon character := by
  have marks : ∀ character ∈ "<?".toList ++ "xml ".toList ++ "?>".toList, IsCommon character := by
    decide
  have version : ∀ character ∈ versionText draft.settings.quote, IsCommon character := by
    cases draft.settings.quote <;> decide
  intro character member
  rw [toList_xmlDeclaration] at member
  simp only [List.mem_append] at member marks
  rcases member with member | (member | member | member) | member
  · exact marks character (.inl (.inl member))
  · exact marks character (.inl (.inr member))
  · exact version character member
  · exact (declares_declaredText _ named standalone character member).1
  · exact marks character (.inr member)

end Draft

end XmlStream
