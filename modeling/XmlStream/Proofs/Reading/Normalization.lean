import XmlStream.Proofs.Reading.Constructs

namespace XmlStream

/-! What a reader does to text before it resolves the references in it, and why escaped text
stands it: every character that would get lost or changed is referred to. -/

def TextPosition.quote? : TextPosition → Option Quote
  | .content => none
  | .attribute quote => some quote

namespace Reading

open Charset

variable {quote? : Option Quote} {position : TextPosition} {text more : List Char}
  {character other : Char}

def lineEnds : List Char → List Char
  | [] => []
  | '\r' :: '\n' :: rest => '\n' :: lineEnds rest
  | '\r' :: rest => '\n' :: lineEnds rest
  | character :: rest => character :: lineEnds rest

def flattened (text : List Char) : List Char :=
  text.map fun character => if CharacterClass.blank.hasChar character then ' ' else character

/-- Text as a reader normalizes it. White space in values counts as spaces, unless it is
referred to. -/
def normalized (quote? : Option Quote) (text : List Char) : List Char :=
  if quote?.isSome then flattened (lineEnds text) else lineEnds text

example : normalized none "a\r\nb\rc\td".toList = "a\nb\nc\td".toList := by decide +kernel

example : normalized (some .double) "a\r\nb\rc\td".toList = "a b c d".toList := by decide +kernel

/-- A text conveys some characters to a reader, between tags or in a value within some quotes. -/
def Conveys (quote? : Option Quote) (text characters : List Char) : Prop :=
  Spells quote? (normalized quote? text) (characters.map .character)

theorem lineEnds_eq_self (unbroken : '\r' ∉ text) : lineEnds text = text := by
  induction text with
  | nil => rfl
  | cons first rest induction =>
      rw [List.mem_cons, not_or] at unbroken
      have clean := induction unbroken.2
      unfold lineEnds
      split
      · contradiction
      · rename_i same
        exact absurd (List.cons.inj same).1.symm unbroken.1
      · rename_i same
        exact absurd (List.cons.inj same).1.symm unbroken.1
      · rename_i same
        cases same
        rw [clean]

theorem eq_space_of_isBlank (blank : Grammar.IsBlank character) (notReturn : character ≠ '\r')
    (notTab : character ≠ '\t') (notFeed : character ≠ '\n') : character = ' ' := by
  have differs {other : Char} (different : character ≠ other) :
      character.toNat ≠ other.toNat := fun same => different (Char.toNat_inj.mp same)
  have notReturn := differs notReturn
  have notTab := differs notTab
  have notFeed := differs notFeed
  apply Char.toNat_inj.mp
  rw [Grammar.isBlank_iff] at blank
  simp only [Char.reduceToNat] at notReturn notTab notFeed ⊢
  omega

def Stays (quote? : Option Quote) (character : Char) : Prop :=
  character ≠ '\r' ∧ (quote?.isSome = true → character ≠ '\t' ∧ character ≠ '\n')

theorem normalized_eq_self (stays : ∀ character ∈ text, Stays quote? character) :
    normalized quote? text = text := by
  have unbroken : '\r' ∉ text := fun member => (stays '\r' member).1 rfl
  rw [normalized, lineEnds_eq_self unbroken]
  split
  · rename_i inValue
    refine (List.map_congr_left fun character member => ?_).trans (List.map_id text)
    split
    · rename_i blank
      rcases stays character member with ⟨notReturn, others⟩
      rcases others inValue with ⟨notTab, notFeed⟩
      exact (eq_space_of_isBlank blank notReturn notTab notFeed).symm
    · rfl
  · rfl

theorem Spells.conveys {characters : List Char}
    (spells : Spells quote? text (characters.map .character))
    (stays : ∀ character ∈ text, Stays quote? character) : Conveys quote? text characters := by
  rwa [Conveys, normalized_eq_self stays]

/-! ## Escaped text -/

theorem suits_quote? (position : TextPosition) : Suits position position.quote? := by
  rcases position with _ | quote <;> simp [Suits, TextPosition.quote?]

structure Inert (position : TextPosition) (character : Char) : Prop where
  notLess : character ≠ '<'
  notGreater : character ≠ '>'
  notQuote : position.quote?.map Quote.char ≠ some character
  stays : Stays position.quote? character

def hazards : List Char := ['<', '>', '"', '\'', '\r', '\t', '\n']

theorem inert_of_harmless (harmless : character ∉ hazards) : Inert position character := by
  have differs (hazard : Char) (member : hazard ∈ hazards) : character ≠ hazard := by
    rintro rfl
    exact harmless member
  refine ⟨differs '<' (by decide), differs '>' (by decide), fun closes => ?_, differs _ (by decide),
    fun _ => ⟨differs _ (by decide), differs _ (by decide)⟩⟩
  rcases Option.map_eq_some_iff.mp closes with ⟨quote, _, same⟩
  cases quote with
  | double => exact differs '"' (by decide) same.symm
  | single => exact differs '\'' (by decide) same.symm

theorem harmless_of_digit (digit : (digitValue? character).isSome = true) :
    character ∉ hazards := by
  have nodigit : ∀ hazard ∈ hazards, (digitValue? hazard).isSome = false := by decide
  intro hazard
  rw [nodigit character hazard] at digit
  cases digit

theorem harmless_of_mem_hexReference (member : other ∈ (hexReference character).toList) :
    other ∉ hazards := by
  have digits := isSome_digitValue? (number?_upperHex character.toNat)
  have marks : ∀ mark ∈ "&#x;".toList, mark ∉ hazards := by decide
  simp only [hexReference, String.toList_append, String.reduceToList, String.toList_ofList,
    List.mem_append, List.mem_singleton] at member
  rcases member with (member | member) | rfl
  · exact marks other (List.mem_append_left [';'] member)
  · exact harmless_of_digit (digits other member)
  · exact marks _ (by decide)

theorem mem_entities {name : String} (entity : position.entityFor? character = some name) :
    name ∈ ["lt", "gt", "amp", "quot", "apos"] := by
  unfold TextPosition.entityFor? at entity
  split at entity
  case h_4 | h_5 =>
    split at entity
    · cases entity
      decide
    · cases entity
  all_goals
    cases entity
    try decide

theorem harmless_of_mem_entityReference {name : String}
    (entity : position.entityFor? character = some name)
    (member : other ∈ (entityReference name).toList) : other ∉ hazards := by
  have harmless : ∀ name ∈ ["lt", "gt", "amp", "quot", "apos"],
      ∀ other ∈ (entityReference name).toList, other ∉ hazards := by decide
  exact harmless name (mem_entities entity) other member

theorem harmless_of_mem_reference {reference : String}
    (escape : position.escape? character = some reference) (member : other ∈ reference.toList) :
    other ∉ hazards := by
  unfold TextPosition.escape? at escape
  cases entity : position.entityFor? character with
  | some name =>
      simp only [entity, Option.some.injEq] at escape
      subst escape
      exact harmless_of_mem_entityReference entity member
  | none =>
      simp only [entity, Option.ite_none_right_eq_some, Option.some.injEq] at escape
      rcases escape with ⟨_, rfl⟩
      exact harmless_of_mem_hexReference member

theorem inert_of_escape?_eq_none (plain : position.escape? character = none) :
    Inert position character := by
  constructor
  · rintro rfl
    simp [TextPosition.escape?, TextPosition.entityFor?] at plain
  · rintro rfl
    simp [TextPosition.escape?, TextPosition.entityFor?] at plain
  · rcases position with _ | quote
    · simp [TextPosition.quote?]
    · rintro ⟨⟩
      cases quote <;>
        simp [TextPosition.escape?, TextPosition.entityFor?, Quote.char] at plain
  · constructor
    · rintro rfl
      simp [TextPosition.escape?, TextPosition.entityFor?, TextPosition.needsNumber] at plain
    · rcases position with _ | quote
      · simp [TextPosition.quote?]
      · intro _
        constructor
        all_goals
          rintro rfl
          simp [TextPosition.escape?, TextPosition.entityFor?, TextPosition.needsNumber] at plain

theorem inert_of_mem_escapedChar (member : other ∈ position.escapedChar character) :
    Inert position other := by
  unfold TextPosition.escapedChar at member
  cases escape : position.escape? character with
  | none =>
      simp only [escape, List.mem_singleton] at member
      subst member
      exact inert_of_escape?_eq_none escape
  | some reference =>
      simp only [escape] at member
      exact inert_of_harmless (harmless_of_mem_reference escape member)

theorem harmless_of_mem_decimalReference (member : other ∈ (decimalReference character).toList) :
    other ∉ hazards := by
  have digits := isSome_digitValue? (number?_toDigits character.toNat)
  simp only [toList_decimalReference, List.mem_cons, List.mem_append, List.not_mem_nil,
    or_false] at member
  rcases member with rfl | rfl | member | rfl
  · decide
  · decide
  · exact harmless_of_digit (digits other member)
  · decide

theorem inert_of_mem_shown {charset : Charset} (inert : Inert position character)
    (member : other ∈ charset.shown character) : Inert position other := by
  unfold Charset.shown at member
  split at member
  · rw [List.mem_singleton] at member
    rwa [member]
  · exact inert_of_harmless (harmless_of_mem_decimalReference member)

theorem ampersand_of_escape? {reference : String}
    (escape : position.escape? character = some reference) :
    ∃ spelled, reference.toList = '&' :: spelled ∧ '&' ∉ spelled := by
  unfold TextPosition.escape? at escape
  cases entity : position.entityFor? character with
  | some name =>
      simp only [entity, Option.some.injEq] at escape
      subst escape
      have once : ∀ name ∈ ["lt", "gt", "amp", "quot", "apos"],
          '&' ∉ name.toList ++ [';'] := by decide
      exact ⟨name.toList ++ [';'], by simp [entityReference], once name (mem_entities entity)⟩
  | none =>
      simp only [entity, Option.ite_none_right_eq_some, Option.some.injEq] at escape
      rcases escape with ⟨_, rfl⟩
      have digits := isSome_digitValue? (number?_upperHex character.toNat)
      refine ⟨'#' :: 'x' :: (upperHex character.toNat ++ [';']), by simp [hexReference], ?_⟩
      simp only [List.mem_cons, List.mem_append, List.not_mem_nil, or_false, not_or]
      exact ⟨by decide, by decide, fun member => absurd (digits '&' member) (by decide), by decide⟩

theorem eq_nil_of_ampersand {front back : List Char}
    (stands : position.escapedChar character = front ++ '&' :: back) :
    front = [] ∧ ∃ reference, position.escape? character = some reference ∧
      reference.toList = '&' :: back := by
  unfold TextPosition.escapedChar at stands
  cases escape : position.escape? character with
  | none =>
      simp only [escape] at stands
      rcases List.singleton_eq_append_iff.mp stands with ⟨_, same⟩ | ⟨_, none⟩
      · have isAmpersand : '&' = character := (List.cons.inj same).1
        subst isAmpersand
        simp [TextPosition.escape?, TextPosition.entityFor?] at escape
      · cases none
  | some reference =>
      simp only [escape] at stands
      rcases ampersand_of_escape? escape with ⟨spelled, begins, once⟩
      cases front with
      | nil => exact ⟨rfl, reference, rfl, stands⟩
      | cons first rest =>
          rw [begins, List.cons_append] at stands
          have there : spelled = rest ++ '&' :: back := (List.cons.inj stands).2
          exact absurd (there ▸ List.mem_append_right rest List.mem_cons_self) once

/-- Between what is written for earlier characters and for later ones, an ampersand begins the
reference that stands for a character. -/
def BeginsReference (position : TextPosition) (characters front back : List Char) : Prop :=
  ∃ earlier character later reference, characters = earlier ++ character :: later ∧
    front = earlier.flatMap position.escapedChar ∧
    position.escape? character = some reference ∧
    '&' :: back = reference.toList ++ later.flatMap position.escapedChar

theorem beginsReference {characters front back : List Char}
    (stands : characters.flatMap position.escapedChar = front ++ '&' :: back) :
    BeginsReference position characters front back := by
  induction characters generalizing front with
  | nil => simp at stands
  | cons first rest induction =>
      rw [List.flatMap_cons] at stands
      have further {front' : List Char} (same : front = position.escapedChar first ++ front')
          (later : rest.flatMap position.escapedChar = front' ++ '&' :: back) :
          BeginsReference position (first :: rest) front back := by
        rcases induction later with ⟨earlier, character, after, reference, rfl, rfl, escape, ends⟩
        exact ⟨first :: earlier, character, after, reference, rfl, by rw [same]; rfl, escape, ends⟩
      rcases List.append_eq_append_iff.mp stands with ⟨front', same, later⟩ | ⟨begun, same, rest_eq⟩
      · exact further same later
      · cases begun with
        | nil =>
            rw [List.append_nil] at same
            exact further (by rw [same, List.append_nil]) (rest_eq.symm.trans (List.nil_append _).symm)
        | cons mark spelled =>
            have isMark : '&' = mark := (List.cons.inj rest_eq).1
            subst isMark
            rcases eq_nil_of_ampersand same with ⟨rfl, reference, escape, begins⟩
            exact ⟨[], first, rest, reference, rfl, rfl, escape, by rw [begins, rest_eq]⟩

/-- Text that is escaped for a position. Nothing in it is markup, or gets lost or changed when it is
read; every ampersand begins a reference for one of the characters; and a reader takes it for the text
itself, also where a character set brings in further references. -/
structure ReadsBack (position : TextPosition) (emitted text : String) : Prop where
  inert : ∀ character ∈ emitted.toList, Inert position character
  refers : ∀ front back, emitted.toList = front ++ '&' :: back →
    BeginsReference position text.toList front back
  conveys : Conveys position.quote? emitted.toList text.toList
  shown : ∀ charset : Charset,
    Conveys position.quote? (emitted.toList.flatMap charset.shown) text.toList

theorem readsBack_escaped (position : TextPosition) (text : String) :
    ReadsBack position (position.escaped text) text := by
  have inert : ∀ character ∈ (position.escaped text).toList, Inert position character := by
    rw [TextPosition.toList_escaped]
    intro character member
    rcases List.mem_flatMap.mp member with ⟨_, _, member⟩
    exact inert_of_mem_escapedChar member
  refine ⟨inert, ?_, ?_, fun charset => ?_⟩
  · rw [TextPosition.toList_escaped]
    exact fun front back => beginsReference
  · exact (spells_escaped (suits_quote? position) text).conveys fun character member =>
      (inert character member).stays
  · refine Spells.conveys ?_ fun other member => ?_
    · rw [TextPosition.toList_escaped, List.flatMap_assoc]
      exact spells_flatMap fun character _ => spells_shown_escapedChar (suits_quote? position) character
    · rcases List.mem_flatMap.mp member with ⟨character, there, shown⟩
      exact (inert_of_mem_shown (inert character there) shown).stays

end Reading

end XmlStream
