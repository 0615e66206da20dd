import XmlStream.Proofs.Charset.Transcription
import XmlStream.Proofs.Grammar.Pieces
import XmlStream.Proofs.Reading.Reader

namespace XmlStream.Reading

/-! Where the constructs of a document lead a reader, and that they are read alike in every
character set: text may contain any legal character, the rest what the set has. -/

open Charset Grammar

variable {charset : Charset} {place next : Place} {host : Host} {text more : List Char}
  {Holds HoldsToo : Place → Prop}

/-- A text is read in a set as without one, and leads to a place with a property. -/
structure Carries (charset : Charset) (place : Place) (text : List Char) (Holds : Place → Prop) :
    Prop where
  leads : Holds (read place text).1
  same : read place (text.flatMap charset.shown) = read place text

theorem Carries.nil (holds : Holds place) : Carries charset place [] Holds := ⟨holds, rfl⟩

theorem Carries.mono (carries : Carries charset place text Holds)
    (implies : ∀ next, Holds next → HoldsToo next) : Carries charset place text HoldsToo :=
  ⟨implies _ carries.leads, carries.same⟩

theorem Carries.append (carries : Carries charset place text Holds)
    (later : ∀ next, Holds next → Carries charset next more HoldsToo) :
    Carries charset place (text ++ more) HoldsToo := by
  have rest := later _ carries.leads
  refine ⟨?_, ?_⟩
  · rw [read_append]
    exact rest.leads
  · rw [List.flatMap_append, read_append, read_append, carries.same, rest.same]

theorem carries_of_has (has : ∀ character ∈ text, charset.Has character)
    (leads : Holds (read place text).1) : Carries charset place text Holds :=
  ⟨leads, by rw [Charset.flatMap_shown_of_has has]⟩

theorem carries_of_common (common : ∀ character ∈ text, IsCommon character)
    (leads : Holds (read place text).1) : Carries charset place text Holds :=
  carries_of_has (fun character member => (common character member).has) leads

/-! ## Text -/

def InText (quote? : Option Quote) (place : Place) : Prop :=
  ∃ host, place = .text host ∧ host.quote? = quote?

def Host.takeAll (parts : List Part) : Host → Place × List Item
  | .content => (.text .content, parts.map .text)
  | .value tag name quote earlier => (.text (.value tag name quote (earlier ++ parts)), [])

def Spells (quote? : Option Quote) (text : List Char) (parts : List Part) : Prop :=
  ∀ host : Host, host.quote? = quote? → read (.text host) text = host.takeAll parts

variable {quote? : Option Quote} {parts later : List Part}

theorem takeAll_single (host : Host) (part : Part) : host.takeAll [part] = host.take part := by
  cases host <;> rfl

theorem spells_nil : Spells quote? [] [] := by
  intro host _
  cases host <;> simp [Host.takeAll, read_nil]

theorem Spells.append (spells : Spells quote? text parts) (rest : Spells quote? more later) :
    Spells quote? (text ++ more) (parts ++ later) := by
  intro host within
  rw [read_append, spells host within]
  cases host with
  | content => simp [Host.takeAll, rest .content within]
  | value tag name quote earlier =>
      simp [Host.takeAll, rest (.value tag name quote (earlier ++ parts)) within]

theorem spells_flatMap {write : Char → List Char} {part : Char → Part} {characters : List Char}
    (each : ∀ character ∈ characters, Spells quote? (write character) [part character]) :
    Spells quote? (characters.flatMap write) (characters.map part) := by
  induction characters with
  | nil => exact spells_nil
  | cons character rest induction =>
      rw [List.flatMap_cons, List.map_cons]
      exact (each _ List.mem_cons_self).append
        (induction fun other member => each other (List.mem_cons_of_mem _ member))

theorem Spells.leads (spells : Spells quote? text parts) (inText : InText quote? place) :
    InText quote? (read place text).1 := by
  rcases inText with ⟨host, rfl, within⟩
  rw [spells host within]
  cases host with
  | content => exact ⟨.content, rfl, within⟩
  | value tag name quote earlier => exact ⟨.value tag name quote (earlier ++ parts), rfl, within⟩

theorem Spells.carries (spells : Spells quote? text parts)
    (shown : Spells quote? (text.flatMap charset.shown) parts) (inText : InText quote? place) :
    Carries charset place text (InText quote?) := by
  refine ⟨spells.leads inText, ?_⟩
  rcases inText with ⟨host, rfl, within⟩
  rw [spells host within, shown host within]

theorem Spells.carries_of_has (spells : Spells quote? text parts)
    (has : ∀ character ∈ text, charset.Has character) (inText : InText quote? place) :
    Carries charset place text (InText quote?) :=
  Reading.carries_of_has has (spells.leads inText)

theorem spells_character {character : Char} (notLess : character ≠ '<')
    (notAmpersand : character ≠ '&') (notQuote : quote?.map Quote.char ≠ some character) :
    Spells quote? [character] [.character character] := by
  rintro host rfl
  rw [read_single, advance, advanceText, if_neg notAmpersand, if_neg notLess, if_neg notQuote,
    takeAll_single]

theorem spells_plain (plain : ∀ character ∈ text, character ≠ '<' ∧ character ≠ '&' ∧
    quote?.map Quote.char ≠ some character) : Spells quote? text (text.map .character) := by
  have each := @spells_flatMap quote? (fun character => [character]) .character text
    fun character member => by
      rcases plain character member with ⟨notLess, notAmpersand, notQuote⟩
      exact spells_character notLess notAmpersand notQuote
  simpa using each

theorem notQuote_of_plain {character : Char} (plain : Grammar.Plain character) :
    quote?.map Quote.char ≠ some character := by
  intro closes
  rcases Option.map_eq_some_iff.mp closes with ⟨quote, _, same⟩
  cases quote with
  | double => exact plain.notDouble same.symm
  | single => exact plain.notSingle same.symm

theorem spells_of_plain (plain : ∀ character ∈ text, Grammar.Plain character) :
    Spells quote? text (text.map .character) :=
  spells_plain fun character member =>
    have stands := plain character member
    ⟨stands.notLess, stands.notAmpersand, notQuote_of_plain stands⟩

theorem read_reference (host : Host) {seen spelled : List Char} (noEnd : ';' ∉ spelled)
    {part : Part} (resolves : resolve? (seen ++ spelled) = some part) :
    read (.reference host seen) (spelled ++ [';']) = host.take part := by
  induction spelled generalizing seen with
  | nil =>
      rw [List.append_nil] at resolves
      rw [List.nil_append, read_single, advance, advanceReference, if_pos rfl, resolves]
  | cons character rest induction =>
      rw [List.mem_cons, not_or] at noEnd
      rw [List.cons_append, read_cons, advance, advanceReference, if_neg (Ne.symm noEnd.1)]
      exact induction noEnd.2 (by simpa using resolves)

theorem spells_reference {spelled : List Char} (noEnd : ';' ∉ spelled) {part : Part}
    (resolves : resolve? spelled = some part) :
    Spells quote? ('&' :: (spelled ++ [';'])) [part] := by
  intro host _
  rw [read_cons, advance, advanceText, if_pos rfl, takeAll_single]
  exact read_reference host noEnd resolves

/-! ### References -/

theorem isCommon_of_predefined? {name : List Char} {character : Char}
    (predefined : predefined? name = some character) : ∀ other ∈ name, IsCommon other := by
  unfold predefined? at predefined
  iterate 5
    split at predefined
    · rename_i same
      rw [same]
      decide
  cases predefined

theorem isCommon_of_mem_entityReference {name : String} {character : Char}
    (predefined : predefined? name.toList = some character) :
    ∀ other ∈ (entityReference name).toList, IsCommon other := by
  have ampersand : IsCommon '&' := by decide
  have semicolon : IsCommon ';' := by decide
  intro other member
  simp only [entityReference, String.toList_append, String.reduceToList, List.mem_append,
    List.mem_singleton] at member
  rcases member with (rfl | member) | rfl
  · exact ampersand
  · exact isCommon_of_predefined? predefined other member
  · exact semicolon

theorem character?_toNat (character : Char) :
    character? character.toNat = some (.character character) := by
  have valid : character.toNat.isValidChar := character.valid
  rw [character?, if_pos valid, Char.ofNat_toNat]

theorem resolve?_decimal (character : Char) :
    resolve? ('#' :: Nat.toDigits 10 character.toNat) = some (.character character) := by
  have value := number?_toDigits character.toNat
  have digits := isSome_digitValue? value
  unfold resolve?
  split
  · rename_i spelled rest same
    rw [List.cons.injEq] at same
    rw [same.2] at digits
    exact absurd (digits 'x' List.mem_cons_self) (by decide)
  · rename_i spelled rest notHexadecimal same
    cases same
    rw [value, Option.bind_some, character?_toNat]
  · rename_i notDecimal
    exact absurd rfl (notDecimal _)

theorem resolve?_hexadecimal (character : Char) :
    resolve? ('#' :: 'x' :: upperHex character.toNat) = some (.character character) := by
  rw [resolve?, number?_upperHex, Option.bind_some, character?_toNat]

theorem resolve?_predefined {name : List Char} {character : Char}
    (predefined : predefined? name = some character) :
    resolve? name = some (.character character) := by
  have notHash : ∀ rest, name ≠ '#' :: rest := by
    rintro rest rfl
    simp [predefined?] at predefined
  unfold resolve?
  split
  · exact absurd rfl (notHash _)
  · exact absurd rfl (notHash _)
  · rw [predefined]

theorem resolve?_entity {name : List Char} (named : Grammar.Name name)
    (notPredefined : predefined? name = none) : resolve? name = some (.entity name) := by
  rcases named with ⟨first, rest, start, parts⟩
  have notHash : first ≠ '#' := by
    rintro rfl
    revert start
    decide
  have isName : Name.isName (String.ofList (first :: rest)) = true := by
    simpa [Name.isName, start] using parts
  unfold resolve?
  split
  · rename_i same
    exact absurd (List.cons.inj same).1 notHash
  · rename_i same
    exact absurd (List.cons.inj same).1 notHash
  · rw [notPredefined, if_pos isName]

theorem resolve?_name {name : List Char} (named : Grammar.Name name) :
    ∃ part, resolve? name = some part := by
  cases predefined : predefined? name with
  | none => exact ⟨_, resolve?_entity named predefined⟩
  | some character => exact ⟨_, resolve?_predefined predefined⟩

theorem spells_entityReference {name : String} (named : Grammar.Name name.toList) {part : Part}
    (resolves : resolve? name.toList = some part) :
    Spells quote? (entityReference name).toList [part] := by
  simpa [entityReference] using spells_reference (named.notMem (by decide)) resolves

theorem spells_hexReference (character : Char) :
    Spells quote? (hexReference character).toList [.character character] := by
  have digits := isSome_digitValue? (number?_upperHex character.toNat)
  have noEnd : ';' ∉ '#' :: 'x' :: upperHex character.toNat := by
    simp only [List.mem_cons, not_or]
    exact ⟨by decide, by decide, fun member => absurd (digits ';' member) (by decide)⟩
  simpa [hexReference] using spells_reference noEnd (resolve?_hexadecimal character)

theorem spells_decimalReference (character : Char) :
    Spells quote? (decimalReference character).toList [.character character] := by
  have digits := isSome_digitValue? (number?_toDigits character.toNat)
  have noEnd : ';' ∉ '#' :: Nat.toDigits 10 character.toNat := by
    intro member
    rcases List.mem_cons.mp member with same | member
    · cases same
    · exact absurd (digits ';' member) (by decide)
  rw [toList_decimalReference]
  exact spells_reference noEnd (resolve?_decimal character)

theorem spells_shown {character : Char} (legal : IsChar character) (notLess : character ≠ '<')
    (notAmpersand : character ≠ '&') (notQuote : quote?.map Quote.char ≠ some character) :
    Spells quote? (charset.shown character) [.character character] := by
  cases missing : charset.missing? character with
  | none =>
      rw [Charset.shown_of_has missing]
      exact spells_character notLess notAmpersand notQuote
  | some reported =>
      rw [(Charset.missing?_of_legal legal missing).1] at missing
      rw [Charset.shown, missing]
      exact spells_decimalReference character

theorem carries_text (inText : InText quote? place)
    (plain : ∀ character ∈ text, IsChar character ∧ character ≠ '<' ∧ character ≠ '&' ∧
      quote?.map Quote.char ≠ some character) :
    Carries charset place text (InText quote?) :=
  (spells_plain fun character member => (plain character member).2).carries
    (spells_flatMap fun character member => by
      rcases plain character member with ⟨legal, notLess, notAmpersand, notQuote⟩
      exact spells_shown legal notLess notAmpersand notQuote) inText

theorem carries_plain (inText : InText quote? place)
    (plain : ∀ character ∈ text, Grammar.Plain character) :
    Carries charset place text (InText quote?) :=
  carries_text inText fun character member =>
    have stands := plain character member
    ⟨stands.legal, stands.notLess, stands.notAmpersand, notQuote_of_plain stands⟩

theorem carries_entityReference {name : String} (named : Grammar.Name name.toList)
    (has : ∀ character ∈ name.toList, charset.Has character) (inText : InText quote? place) :
    Carries charset place (entityReference name).toList (InText quote?) := by
  rcases resolve?_name named with ⟨part, resolves⟩
  refine (spells_entityReference named resolves).carries_of_has (fun character member => ?_) inText
  have ampersand : IsCommon '&' := by decide
  have semicolon : IsCommon ';' := by decide
  simp only [entityReference, String.toList_append, String.reduceToList, List.mem_append,
    List.mem_singleton] at member
  rcases member with (rfl | member) | rfl
  · exact ampersand.has
  · exact has character member
  · exact semicolon.has

theorem isCommon_of_mem_hexReference {character other : Char}
    (member : other ∈ (hexReference character).toList) : IsCommon other := by
  have digits := isSome_digitValue? (number?_upperHex character.toNat)
  have marks : ∀ mark ∈ "&#x;".toList, IsCommon mark := by decide
  simp only [hexReference, String.toList_append, String.reduceToList, String.toList_ofList,
    List.mem_append, List.mem_singleton] at member
  rcases member with (member | member) | rfl
  · exact marks other (List.mem_append_left [';'] member)
  · exact isCommon_of_digitValue? (digits other member)
  · exact marks _ (by decide)

/-! ### Escaped text -/

/-- Text escaped for a position may stand in content, or in a value with these quotes. -/
def Suits (position : TextPosition) (quote? : Option Quote) : Prop :=
  ∀ quote, quote? = some quote → position = .attribute quote

variable {position : TextPosition}

theorem Suits.notQuote (suits : Suits position quote?) {character : Char}
    (notQuote : ∀ quote, position = .attribute quote → character ≠ quote.char) :
    quote?.map Quote.char ≠ some character := by
  intro closes
  rcases Option.map_eq_some_iff.mp closes with ⟨quote, within, same⟩
  exact notQuote quote (suits quote within) same.symm

theorem spells_escapedChar (suits : Suits position quote?) (character : Char) :
    Spells quote? (position.escapedChar character) [.character character] := by
  have stands := position.stands_escapedChar character
  generalize position.escapedChar character = written at stands ⊢
  cases stands with
  | plain notLess _ notAmpersand _ notQuote =>
      exact spells_character notLess notAmpersand (suits.notQuote notQuote)
  | entity name predefined =>
      exact spells_entityReference (name_of_predefined? predefined) (resolve?_predefined predefined)
  | number => exact spells_hexReference character

theorem spells_shown_escapedChar (suits : Suits position quote?) (character : Char) :
    Spells quote? ((position.escapedChar character).flatMap charset.shown)
      [.character character] := by
  have stands := position.stands_escapedChar character
  generalize position.escapedChar character = written at stands ⊢
  cases stands with
  | plain notLess _ notAmpersand legal notQuote =>
      rw [List.flatMap_singleton]
      exact spells_shown legal notLess notAmpersand (suits.notQuote notQuote)
  | entity name predefined =>
      have common := isCommon_of_mem_entityReference predefined
      rw [Charset.flatMap_shown_of_has fun other member => (common other member).has]
      exact spells_entityReference (name_of_predefined? predefined) (resolve?_predefined predefined)
  | number =>
      rw [Charset.flatMap_shown_of_has fun other member =>
        (isCommon_of_mem_hexReference member).has]
      exact spells_hexReference character

theorem spells_escaped (suits : Suits position quote?) (content : String) :
    Spells quote? (position.escaped content).toList (content.toList.map .character) := by
  rw [TextPosition.toList_escaped]
  exact spells_flatMap fun character _ => spells_escapedChar suits character

theorem carries_escaped (suits : Suits position quote?) (inText : InText quote? place)
    (content : String) :
    Carries charset place (position.escaped content).toList (InText quote?) := by
  refine (spells_escaped suits content).carries ?_ inText
  rw [TextPosition.toList_escaped, List.flatMap_assoc]
  exact spells_flatMap fun character _ => spells_shown_escapedChar suits character

end XmlStream.Reading
