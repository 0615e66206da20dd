import XmlStream.Phase
import XmlStream.Proofs.Grammar.Pieces

namespace XmlStream

def Mode.afterRoot : Mode → Phase
  | .fragment => .content
  | .document => .epilog

namespace Grammar

/-! Texts that are still growing: the beginnings that end in each of the phases, and what
may come next. Outside of elements this depends on what is written, a document or a
fragment; an outline tells. Inside of elements it does not. -/

/-- How a text grows outside of elements in a mode: its beginnings that end in each phase,
and what may come next wherever the mode leaves room for it. -/
structure Outline (mode : Mode) where
  beginning : Phase → Production
  phases {phase : Phase} {text : List Char} (begins : beginning phase text) :
    phase = .start ∨ phase = .prolog ∨ phase = .afterDoctype ∨ phase = .content ∨
      phase = .epilog
  miscs {token : Token} {phase next : Phase} {text more : List Char}
    (begins : beginning phase text)
    (markup : token = .comment ∨ token = .processingInstruction ∨ token = .whitespace)
    (leads : mode.next? token phase = some next) (mixed : Miscs more) :
    beginning next (text ++ more)
  xmlInstruction {text more : List Char} (begins : beginning .start text)
    (instruction : XmlInstruction more) : beginning .prolog (text ++ more)
  doctype {phase next : Phase} {text more : List Char} (begins : beginning phase text)
    (leads : mode.next? .doctype phase = some next) (doctype : Doctype more) :
    beginning next (text ++ more)
  body {token : Token} {phase next : Phase} {text more : List Char}
    (begins : beginning phase text)
    (textual : token = .cdata ∨ token = .text ∨ token = .base64)
    (leads : mode.next? token phase = some next)
    (grows : ∀ {content}, Body content → Body (content ++ more)) : beginning next (text ++ more)
  element {phase : Phase} {text more : List Char} (begins : beginning phase text)
    (leads : mode.next? .startElement phase = some .element) (element : Element more) :
    beginning mode.afterRoot (text ++ more)
  nothing {phase : Phase} {text : List Char} (begins : beginning phase text)
    (leads : mode.next? .startAttribute phase = some .topAttribute) : text = []
  single {text : List Char} (fragment : mode = .fragment) (single : Attribute text) :
    beginning .epilog text

inductive OpenTag (name : List Char) : Production
  | mk {attributes : List Char} (named : Name name) (attributed : Attributes attributes) :
      OpenTag name ('<' :: name ++ attributes)

inductive OpenAttribute (quote : Char) : Production
  | mk {key equals value : List Char} (named : Name key) (equates : Equals equals)
      (valued : Value quote value) : OpenAttribute quote (key ++ equals ++ quote :: value)

variable {mode : Mode}

/-- The beginning of a text up to the content of elements with these names, innermost
first. Outside of elements there is room for one. -/
inductive Nested (outline : Outline mode) : List (List Char) → Production
  | outside {phase : Phase} {text : List Char} (begins : outline.beginning phase text)
      (leads : mode.next? .startElement phase = some .element) : Nested outline [] text
  | inside {name text start content : List Char} {names : List (List Char)}
      (earlier : Nested outline names text) (starts : StartTag name start)
      (body : Body content) : Nested outline (name :: names) (text ++ start ++ content)

/-- The beginning of a text in a phase, with the names of the open elements. -/
inductive Shape (outline : Outline mode) (quote : Quote) : Phase → List (List Char) → Production
  | outside {phase : Phase} {text : List Char} (begins : outline.beginning phase text) :
      Shape outline quote phase [] text
  | topValue {text : List Char} (fragment : mode = .fragment)
      (opens : OpenAttribute quote.char text) : Shape outline quote .topAttribute [] text
  | startTag {name text start : List Char} {names : List (List Char)}
      (earlier : Nested outline names text) (opens : OpenTag name start) :
      Shape outline quote .element (name :: names) (text ++ start)
  | value {name text start space last : List Char} {names : List (List Char)}
      (earlier : Nested outline names text) (opens : OpenTag name start) (apart : Space space)
      (opensValue : OpenAttribute quote.char last) :
      Shape outline quote .attribute (name :: names) (text ++ start ++ space ++ last)
  | content {name text : List Char} {names : List (List Char)}
      (nested : Nested outline (name :: names) text) :
      Shape outline quote .content (name :: names) text

variable {outline : Outline mode} {quote : Quote} {token : Token} {phase next : Phase}
  {name text more : List Char} {names : List (List Char)}

/-! ## Attributes -/

theorem OpenAttribute.begin (named : Name name) :
    OpenAttribute quote.char (name ++ ['=', quote.char]) := by
  have nothing : Value quote.char [] := .nil
  simpa using OpenAttribute.mk named equals_single nothing

theorem OpenAttribute.grow (opens : OpenAttribute quote.char text)
    (grows : ∀ {value}, Value quote.char value → Value quote.char (value ++ more)) :
    OpenAttribute quote.char (text ++ more) := by
  rcases opens with ⟨named, equates, valued⟩
  simpa using OpenAttribute.mk named equates (grows valued)

theorem OpenAttribute.close (opens : OpenAttribute quote.char text) :
    Attribute (text ++ [quote.char]) := by
  rcases opens with ⟨named, equates, valued⟩
  simpa using Attribute.mk named equates (isQuote_char quote) valued

theorem Attributes.add {value : List Char} (attributes : Attributes text) (named : Name name)
    (valued : Value quote.char value) :
    Attributes (text ++ (' ' :: name ++ '=' :: quote.char :: value ++ [quote.char])) := by
  have longer := attributes.snoc space_single
    (Attribute.mk named equals_single (isQuote_char quote) valued)
  simpa using longer

/-! ## Start tags -/

theorem OpenTag.attributes (opens : OpenTag name text)
    (grows : ∀ {attributes}, Attributes attributes → Attributes (attributes ++ more)) :
    OpenTag name (text ++ more) := by
  rcases opens with ⟨named, attributed⟩
  simpa using OpenTag.mk named (grows attributed)

theorem OpenTag.close (opens : OpenTag name text) : StartTag name (text ++ ['>']) := by
  rcases opens with ⟨named, attributed⟩
  simpa using StartTag.mk named attributed optionalSpace_nil

theorem OpenTag.closeEmpty (opens : OpenTag name text) : EmptyTag (text ++ " />".toList) := by
  rcases opens with ⟨named, attributed⟩
  simpa using EmptyTag.mk named attributed space_single.2

/-! ## Content -/

theorem Nested.grow (nested : Nested outline (name :: names) text)
    (grows : ∀ {content}, Body content → Body (content ++ more)) :
    Nested outline (name :: names) (text ++ more) := by
  rcases nested with _ | ⟨earlier, starts, body⟩
  simpa using Nested.inside earlier starts (grows body)

theorem Body.miscs {body : List Char} (grown : Body body) (mixed : Miscs more) :
    Body (body ++ more) := by
  induction mixed with
  | nil => simpa using grown
  | snoc _ misc induction =>
      rw [← List.append_assoc]
      cases misc with
      | comment comment => exact induction.item (.comment comment)
      | instruction instruction => exact induction.item (.instruction instruction)
      | space space =>
          exact induction.plain fun character member => plain_of_isBlank (space.2 character member)

theorem miscs_single (misc : Misc more) : Miscs more := by
  simpa using Miscs.nil.snoc misc

theorem miscs_of_blank (blank : ∀ character ∈ more, IsBlank character) : Miscs more := by
  by_cases empty : more = []
  · rw [empty]
    exact .nil
  · exact miscs_single (.space ⟨empty, blank⟩)

theorem Miscs.append (earlier : Miscs text) (later : Miscs more) : Miscs (text ++ more) := by
  induction later with
  | nil => simpa using earlier
  | snoc _ misc induction =>
      rw [← List.append_assoc]
      exact induction.snoc misc

/-! ## Between markup -/

theorem Shape.miscs (shape : Shape outline quote phase names text)
    (notElement : phase ≠ .element) (notAttribute : phase ≠ .attribute)
    (notTop : phase ≠ .topAttribute)
    (markup : token = .comment ∨ token = .processingInstruction ∨ token = .whitespace)
    (leads : mode.next? token phase = some next) (mixed : Miscs more) :
    Shape outline quote next names (text ++ more) := by
  cases shape with
  | outside begins => exact .outside (outline.miscs begins markup leads mixed)
  | topValue => exact absurd rfl notTop
  | startTag => exact absurd rfl notElement
  | value => exact absurd rfl notAttribute
  | content nested =>
      have same : next = .content := by
        cases mode <;> rcases markup with rfl | rfl | rfl <;> exact (Option.some.inj leads).symm
      rw [same]
      exact .content (nested.grow fun body => body.miscs mixed)

theorem Outline.outside (outline : Outline mode) (begins : outline.beginning phase text) :
    phase ≠ .element ∧ phase ≠ .attribute ∧ phase ≠ .topAttribute := by
  rcases outline.phases begins with rfl | rfl | rfl | rfl | rfl <;> simp

theorem Outline.stays (outline : Outline mode) (begins : outline.beginning phase text)
    (started : phase ≠ .start) : mode.next? .whitespace phase = some phase := by
  rcases outline.phases begins with rfl | rfl | rfl | rfl | rfl
  · exact absurd rfl started
  all_goals cases mode <;> rfl

theorem Shape.space (shape : Shape outline quote phase names text)
    (notElement : phase ≠ .element) (notAttribute : phase ≠ .attribute)
    (notTop : phase ≠ .topAttribute) (started : phase ≠ .start)
    (blank : ∀ character ∈ more, IsBlank character) :
    Shape outline quote phase names (text ++ more) := by
  have stays : mode.next? .whitespace phase = some phase := by
    cases shape with
    | outside begins => exact outline.stays begins started
    | topValue => exact absurd rfl notTop
    | startTag => exact absurd rfl notElement
    | value => exact absurd rfl notAttribute
    | content => cases mode <;> rfl
  exact shape.miscs notElement notAttribute notTop (.inr (.inr rfl)) stays (miscs_of_blank blank)

theorem Shape.xmlInstruction (shape : Shape outline quote .start names text)
    (instruction : XmlInstruction more) : Shape outline quote .prolog names (text ++ more) := by
  cases shape with
  | outside begins => exact .outside (outline.xmlInstruction begins instruction)

theorem Shape.doctype (shape : Shape outline quote phase names text)
    (leads : mode.next? .doctype phase = some next) (doctype : Doctype more) :
    Shape outline quote next names (text ++ more) := by
  cases shape with
  | outside begins => exact .outside (outline.doctype begins leads doctype)
  | topValue | startTag | value | content => cases mode <;> cases leads

/-- What makes content longer may be added wherever there is room for text. -/
theorem Shape.body (shape : Shape outline quote phase names text)
    (notElement : phase ≠ .element) (notAttribute : phase ≠ .attribute)
    (notTop : phase ≠ .topAttribute)
    (textual : token = .cdata ∨ token = .text ∨ token = .base64)
    (leads : mode.next? token phase = some next)
    (grows : ∀ {content}, Body content → Body (content ++ more)) :
    Shape outline quote next names (text ++ more) := by
  cases shape with
  | outside begins => exact .outside (outline.body begins textual leads grows)
  | topValue => exact absurd rfl notTop
  | startTag => exact absurd rfl notElement
  | value => exact absurd rfl notAttribute
  | content nested =>
      have same : next = .content := by
        cases mode <;> rcases textual with rfl | rfl | rfl <;> exact (Option.some.inj leads).symm
      rw [same]
      exact .content (nested.grow grows)

/-! ## Values -/

theorem Shape.openTop (shape : Shape outline quote phase names text) (named : Name name)
    (fragment : mode = .fragment) (leads : mode.next? .startAttribute phase = some .topAttribute) :
    Shape outline quote .topAttribute names (text ++ (name ++ ['=', quote.char])) := by
  cases shape with
  | outside begins =>
      rw [outline.nothing begins leads]
      exact .topValue fragment (.begin named)
  | topValue | startTag | value | content => cases mode <;> cases leads

theorem Shape.openValue (shape : Shape outline quote .element names text) (named : Name name) :
    Shape outline quote .attribute names (text ++ (' ' :: name ++ ['=', quote.char])) := by
  cases shape with
  | outside begins => exact absurd rfl (outline.outside begins).1
  | startTag earlier opens =>
      have shape : Shape outline quote .attribute _ _ :=
        .value earlier opens space_single (.begin named)
      simpa using shape

theorem Shape.growValue (shape : Shape outline quote phase names text)
    (stands : phase = .attribute ∨ phase = .topAttribute)
    (grows : ∀ {value}, Value quote.char value → Value quote.char (value ++ more)) :
    Shape outline quote phase names (text ++ more) := by
  cases shape with
  | outside begins =>
      rcases stands with inValue | onTop
      · exact absurd inValue (outline.outside begins).2.1
      · exact absurd onTop (outline.outside begins).2.2
  | topValue fragment opens => exact .topValue fragment (opens.grow grows)
  | startTag | content => simp at stands
  | value earlier opens apart opensValue =>
      rw [List.append_assoc]
      exact .value earlier opens apart (opensValue.grow grows)

theorem Shape.closeTop (shape : Shape outline quote .topAttribute names text) :
    Shape outline quote .epilog names (text ++ [quote.char]) := by
  cases shape with
  | outside begins => exact absurd rfl (outline.outside begins).2.2
  | topValue fragment opens => exact .outside (outline.single fragment opens.close)

theorem Shape.closeValue (shape : Shape outline quote .attribute names text) :
    Shape outline quote .element names (text ++ [quote.char]) := by
  cases shape with
  | outside begins => exact absurd rfl (outline.outside begins).2.1
  | @value name before start space last names earlier opens apart opensValue =>
      have tag : OpenTag name (start ++ (space ++ (last ++ [quote.char]))) :=
        opens.attributes fun attributes => by
          simpa using attributes.snoc apart opensValue.close
      have shape : Shape outline quote .element _ _ := .startTag earlier tag
      simpa using shape

theorem Shape.requote {other : Quote} (shape : Shape outline quote phase names text)
    (notAttribute : phase ≠ .attribute) (notTop : phase ≠ .topAttribute) :
    Shape outline other phase names text := by
  cases shape with
  | outside begins => exact .outside begins
  | topValue => exact absurd rfl notTop
  | startTag earlier opens => exact .startTag earlier opens
  | value => exact absurd rfl notAttribute
  | content nested => exact .content nested

/-! ## Elements -/

theorem Shape.openTag (shape : Shape outline quote phase names text)
    (notElement : phase ≠ .element) (notAttribute : phase ≠ .attribute)
    (notTop : phase ≠ .topAttribute) (leads : mode.next? .startElement phase = some .element)
    (named : Name name) :
    Shape outline quote .element (name :: names) (text ++ '<' :: name) := by
  have tag := OpenTag.mk named .nil
  have outer : Nested outline names text := by
    cases shape with
    | outside begins => exact .outside begins leads
    | topValue => exact absurd rfl notTop
    | startTag => exact absurd rfl notElement
    | value => exact absurd rfl notAttribute
    | content nested => exact nested
  have shape : Shape outline quote .element _ _ := .startTag outer tag
  simpa using shape

theorem Shape.closeTag (shape : Shape outline quote .element names text)
    (grows : ∀ {attributes}, Attributes attributes → Attributes (attributes ++ more)) :
    Shape outline quote .content names (text ++ (more ++ ['>'])) := by
  cases shape with
  | outside begins => exact absurd rfl (outline.outside begins).1
  | startTag earlier opens =>
      have nested := Nested.inside earlier (opens.attributes grows).close .nil
      exact .content (by simpa using nested)

theorem Nested.add (nested : Nested outline names text) (element : Element more)
    (root : names = [] → next = mode.afterRoot) (inner : names ≠ [] → next = .content) :
    Shape outline quote next names (text ++ more) := by
  cases nested with
  | outside begins leads =>
      rw [root rfl]
      exact .outside (outline.element begins leads element)
  | inside earlier starts body =>
      rw [inner (by simp)]
      have nested := Nested.inside earlier starts body
      exact .content (nested.grow fun body => body.item (.element element))

theorem Shape.closeEmpty (shape : Shape outline quote .element (name :: names) text)
    (grows : ∀ {attributes}, Attributes attributes → Attributes (attributes ++ more))
    (root : names = [] → next = mode.afterRoot) (inner : names ≠ [] → next = .content) :
    Shape outline quote next names (text ++ (more ++ " />".toList)) := by
  cases shape with
  | startTag earlier opens =>
      have tag := (opens.attributes grows).closeEmpty
      have shape : Shape outline quote next _ _ := earlier.add (.empty tag) root inner
      simpa using shape

theorem Shape.endTag (shape : Shape outline quote .content (name :: names) text)
    (root : names = [] → next = mode.afterRoot) (inner : names ≠ [] → next = .content) :
    Shape outline quote next names (text ++ ("</".toList ++ name ++ ['>'])) := by
  cases shape with
  | content nested =>
      cases nested with
      | inside earlier starts body =>
          have ends : EndTag name _ := .mk optionalSpace_nil
          have shape : Shape outline quote next _ _ :=
            earlier.add (.full starts body.content ends) root inner
          simpa using shape

theorem Shape.begins (shape : Shape outline quote phase [] text)
    (notTop : phase ≠ .topAttribute) : outline.beginning phase text := by
  cases shape with
  | outside begins => exact begins
  | topValue => exact absurd rfl notTop

end Grammar

end XmlStream
