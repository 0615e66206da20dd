import Mathlib.Data.List.TakeWhile
import XmlStream.Proofs.Bindings.Fresh
import XmlStream.Proofs.Draft.Layered
import XmlStream.Proofs.Grammar.Pieces
import XmlStream.Proofs.Simulation.Naming

namespace XmlStream

/-! What a caller has to see to for a document to come out well-formed, and what a draft
keeps of it: the names and namespaces that wait to be written are in order. -/

open Grammar

structure NameRequest.Clean (request : NameRequest) : Prop where
  localName : Name.isNCName request.localName = true
  nsPrefix : ∀ given, nonEmpty? request.nsPrefix = some given → Name.isNCName given = true
  uri : ∀ uri, request.uri = some uri → Legal uri

/-- The terms on which a writer is used: the names and prefixes that a caller may give, with
those that a writer knows or makes up, the namespaces, and the characters that may indent. -/
structure Terms where
  Named : String → Prop
  Uri : String → Prop
  Indents : Char → Prop
  xml : Named "xml"
  xmlns : Named "xmlns"
  generated (depth number : Nat) : Named (Bindings.generatedPrefix depth number)

structure NameRequest.Meets (terms : Terms) (request : NameRequest) : Prop where
  localName : terms.Named request.localName
  nsPrefix : ∀ given, nonEmpty? request.nsPrefix = some given → terms.Named given
  uri : ∀ uri, request.uri = some uri → terms.Uri uri

/-- Text of legal characters, white space without carriage returns, and nothing raw. -/
def Piece.Clean : Piece → Prop
  | .text content => Legal content
  | .whitespace content => '\r' ∉ content.toList
  | .raw _ => False
  | .entity _ | .character _ | .hexadecimal _ => True

def Setting.Clean : Setting → Prop
  | .indentChar character => IsBlank character
  | _ => True

/-- The literals of a document type are made of the characters that may stand in them,
and there is no internal subset. -/
structure CleanDoctype (publicId systemId subset : Option String) : Prop where
  publicId : ∀ text, publicId = some text → ∀ character ∈ text.toList, IsPublicChar character
  systemId : ∀ text, systemId = some text → Legal text
  subset : subset = none

def Event.Clean : Event → Prop
  | .doctype _ publicId systemId subset => CleanDoctype publicId systemId subset
  | .comment text | .cdata text | .instruction _ text => Legal text
  | .startElement asked _ | .startAttribute asked _ => asked.request.Clean
  | .write piece _ => piece.Clean
  | .qualify uri _ => Legal uri
  | .configure setting => setting.Clean
  | _ => True

theorem Event.clean_of_completes {event : Event} (completes : event.completes) : event.Clean := by
  cases event <;> simp_all [Event.completes, Event.Clean]

def Event.Meets (terms : Terms) : Event → Prop
  | .startElement asked _ | .startAttribute asked _ => asked.request.Meets terms
  | .qualify uri _ => terms.Uri uri
  | .configure (.indentChar character) => terms.Indents character
  | _ => True

theorem ncNamePart_of_isDigit {digit : Char} (isDigit : digit.isDigit = true) :
    CharacterClass.ncNamePart.hasChar digit = true := by
  simp only [Char.isDigit_iff_toNat] at isDigit
  simp only [CharacterClass.hasChar, CharacterClass.has, CharacterClass.ncNamePart,
    CodeRange.has, List.any_append, List.any_cons, Bool.or_eq_true, Bool.and_eq_true,
    decide_eq_true_eq]
  simp only [Char.reduceToNat] at isDigit ⊢
  omega

theorem ncNamePart_of_mem_toDigits {number : Nat} {digit : Char}
    (member : digit ∈ Nat.toDigits 10 number) : CharacterClass.ncNamePart.hasChar digit = true :=
  ncNamePart_of_isDigit (Nat.isDigit_of_mem_toDigits (by decide) (by decide) member)

theorem isNCName_generatedPrefix (depth number : Nat) :
    Name.isNCName (Bindings.generatedPrefix depth number) = true := by
  have whole := Bindings.generatedPrefix_toList depth number
  have parts : ∀ character ∈ Nat.toDigits 10 depth ++ 'p' :: Nat.toDigits 10 number,
      CharacterClass.ncNamePart.hasChar character = true := by
    intro character member
    simp only [List.mem_append, List.mem_cons] at member
    rcases member with member | rfl | member
    · exact ncNamePart_of_mem_toDigits member
    · decide
    · exact ncNamePart_of_mem_toDigits member
  have nonEmpty : Bindings.generatedPrefix depth number ≠ "" := by
    intro empty
    rw [empty] at whole
    cases whole
  have start : CharacterClass.ncNameStart.hasChar 'd' = true := by decide
  simp [Name.isNCName, nonEmpty, whole, Name.ncNameHead, start,
    List.takeWhile_eq_self_iff.mpr parts]

def Terms.wellFormed : Terms where
  Named name := Name.isNCName name = true
  Uri := Legal
  Indents := IsBlank
  xml := by decide +kernel
  xmlns := by decide +kernel
  generated := isNCName_generatedPrefix

theorem NameRequest.Clean.plain {name : String} (named : Name.isNCName name = true) :
    NameRequest.Clean { localName := name } :=
  ⟨named, by simp [nonEmpty?], by simp⟩

theorem NameRequest.Clean.meets {request : NameRequest} (clean : request.Clean) :
    request.Meets .wellFormed :=
  ⟨clean.localName, clean.nsPrefix, clean.uri⟩

theorem Event.Clean.meets {event : Event} (clean : event.Clean) : event.Meets .wellFormed := by
  cases event with
  | startElement | startAttribute => exact NameRequest.Clean.meets clean
  | qualify => exact clean
  | configure setting =>
      cases setting with
      | indentChar => exact clean
      | _ => trivial
  | _ => trivial

namespace Draft

structure Writable (terms : Terms) (binding : Binding) : Prop where
  nsPrefix : terms.Named binding.nsPrefix
  uri : binding.declared = false → terms.Uri binding.uri

variable {terms : Terms}

theorem Writable.descends {older newer : Binding} (writable : Writable terms older)
    (descends : Descends older newer) : Writable terms newer where
  nsPrefix := by rw [descends.nsPrefix]; exact writable.nsPrefix
  uri new := by rw [descends.uri]; exact writable.uri (descends.declared new)

structure Fit (terms : Terms) (draft : Draft) : Prop where
  scope : ∀ binding ∈ draft.scope, Writable terms binding
  defaults : ∀ element ∈ draft.elements.opened,
    element.defaultNamespace = .owed → terms.Uri element.defaultUri

variable {draft after : Draft} {nsPrefix uri : String}

theorem BindsPrefix.fit {declared : Bool}
    (binds : draft.BindsPrefix nsPrefix uri declared after) (fit : draft.Fit terms)
    (named : terms.Named nsPrefix) (legal : declared = false → terms.Uri uri) :
    after.Fit terms where
  scope binding member := by
    obtain ⟨older, member, descends⟩ | rfl := binds.mem member
    · exact (fit.scope older member).descends descends
    · exact ⟨named, legal⟩
  defaults := by
    cases binds <;> exact fit.defaults

theorem Fit.owed (fit : draft.Fit terms) (inside : 0 < draft.depth)
    (owed : draft.top.defaultNamespace = .owed) : terms.Uri draft.top.defaultUri := by
  refine fit.defaults draft.top ?_ owed
  cases found : draft.elements.opened with
  | nil => simp [depth, ElementStack.depth, found] at inside
  | cons innermost rest => simp [top, ElementStack.top, found]

theorem Fit.modifyTop (fit : draft.Fit terms) {change : OpenElement → OpenElement}
    (legal : 0 < draft.depth → (change draft.top).defaultNamespace = .owed →
      terms.Uri (change draft.top).defaultUri) : (draft.modifyTop change).Fit terms where
  scope := fit.scope
  defaults := by
    have defaults := fit.defaults
    simp only [top, ElementStack.top, depth, ElementStack.depth] at legal
    cases found : draft.elements.opened with
    | nil => simp [Draft.modifyTop, ElementStack.modifyTop, found]
    | cons innermost rest =>
        simp only [found, List.headD_cons, Draft.modifyTop, ElementStack.modifyTop,
          List.mem_cons, forall_eq_or_imp] at legal defaults ⊢
        exact ⟨legal (by simp), defaults.2⟩

theorem Fit.modifyTop_of_same (fit : draft.Fit terms) {change : OpenElement → OpenElement}
    (same : (change draft.top).defaultNamespace = draft.top.defaultNamespace)
    (sameUri : (change draft.top).defaultUri = draft.top.defaultUri) :
    (draft.modifyTop change).Fit terms := by
  refine fit.modifyTop fun inside owed => ?_
  rw [sameUri]
  exact fit.owed inside (same ▸ owed)

theorem Fit.congr (fit : draft.Fit terms) (scope : after.scope = draft.scope)
    (opened : after.elements.opened = draft.elements.opened) : after.Fit terms where
  scope := by rw [scope]; exact fit.scope
  defaults := by rw [opened]; exact fit.defaults

theorem BindsDefault.fit {declared : Bool} (binds : draft.BindsDefault uri declared after)
    (fit : draft.Fit terms) (legal : declared = false → terms.Uri uri) : after.Fit terms := by
  rw [binds.result]
  refine fit.modifyTop fun _ owed => ?_
  cases declared with
  | false => exact legal rfl
  | true => simp at owed

theorem MakesPrefix.fit (makes : draft.MakesPrefix nsPrefix after) (fit : draft.Fit terms) :
    after.Fit terms := by
  obtain ⟨number, _, rfl⟩ := makes.named
  exact fit.modifyTop_of_same rfl rfl

theorem MakesPrefix.isNamed (terms : Terms) (makes : draft.MakesPrefix nsPrefix after) :
    terms.Named nsPrefix := by
  obtain ⟨number, rfl, _⟩ := makes.named
  exact terms.generated _ _

theorem mem_of_prefixOf? {scope : Scope} (stands : scope.prefixOf? uri = some nsPrefix) :
    ∃ binding ∈ scope, binding.nsPrefix = nsPrefix ∧ binding.uri = uri := by
  obtain ⟨⟨binding, position⟩, found, rfl⟩ := Option.map_eq_some_iff.mp stands
  have member := List.mem_of_find?_eq_some found
  have wanted := List.find?_some found
  rw [List.mem_reverse, List.mem_zipIdx_iff_getElem?] at member
  simp only [Bool.and_eq_true, beq_iff_eq] at wanted
  exact ⟨binding, List.mem_of_getElem? (by simpa using member), rfl, wanted.1⟩

theorem Fit.named_of_prefixOf? (fit : draft.Fit terms)
    (stands : draft.scope.prefixOf? uri = some nsPrefix) : terms.Named nsPrefix := by
  obtain ⟨binding, member, rfl, _⟩ := mem_of_prefixOf? stands
  exact (fit.scope binding member).nsPrefix

theorem NamesElement.fit {request : NameRequest} {written : Option String}
    (names : draft.NamesElement request written after) (fit : draft.Fit terms)
    (meets : request.Meets terms) :
    after.Fit terms ∧ ∀ given, written = some given → terms.Named given := by
  cases names with
  | withoutNamespaces | bare => exact ⟨fit, by simp⟩
  | bound nsPrefix _ _ given => exact ⟨fit, by simpa using meets.nsPrefix nsPrefix given⟩
  | found uri nsPrefix _ _ _ stands =>
      refine ⟨fit, fun given found => ?_⟩
      have same := Option.some.inj (nonEmpty?_eq_some found).1
      subst same
      exact fit.named_of_prefixOf? stands
  | default uri _ _ wanted _ binds =>
      exact ⟨binds.fit fit fun _ => meets.uri uri wanted, by simp⟩
  | binding uri nsPrefix _ _ wanted given _ binds =>
      have named := meets.nsPrefix nsPrefix given
      exact ⟨binds.fit fit named fun _ => meets.uri uri wanted, by simpa using named⟩

theorem FindsPrefix.fit {asked : Option String} (finds : draft.FindsPrefix asked uri nsPrefix after)
    (fit : draft.Fit terms) (named : ∀ given, asked = some given → terms.Named given)
    (legal : terms.Uri uri) :
    after.Fit terms ∧ terms.Named nsPrefix := by
  cases finds with
  | found _ stands => exact ⟨fit, fit.named_of_prefixOf? stands⟩
  | kept _ _ stands => exact ⟨fit, fit.named_of_prefixOf? stands⟩
  | made _ _ _ _ makes _ binds =>
      exact ⟨binds.fit (makes.fit fit) (makes.isNamed terms) fun _ => legal,
        makes.isNamed terms⟩
  | bound _ given _ _ binds =>
      have named := named nsPrefix given
      exact ⟨binds.fit fit named fun _ => legal, named⟩

theorem named_of_wantedPrefix {request : NameRequest} (meets : request.Meets terms) :
    ∀ given, request.wantedPrefix = some given → terms.Named given := by
  intro given wanted
  rw [NameRequest.wantedPrefix, Option.or_eq_some_iff] at wanted
  obtain wanted | ⟨_, reserved⟩ := wanted
  · exact meets.nsPrefix given wanted
  · unfold Writer.reservedPrefix? at reserved
    split at reserved
    · cases reserved
      exact terms.xmlns
    · split at reserved
      · cases reserved
        exact terms.xml
      · cases reserved

theorem NamesAttribute.fit {request : NameRequest} {written : Option String}
    {kind : Option SpecialKind} (names : draft.NamesAttribute request written kind after)
    (fit : draft.Fit terms) (meets : request.Meets terms) :
    after.Fit terms ∧ (∀ given, written = some given → terms.Named given) ∧
      ∀ nsPrefix, kind = some (.declaration (some nsPrefix)) → terms.Named nsPrefix := by
  have asked := named_of_wantedPrefix meets
  cases names with
  | withoutNamespaces =>
      refine ⟨fit, by simp, fun nsPrefix declares => ?_⟩
      unfold Writer.plainKind? at declares
      split at declares <;> cases declares
  | xml _ wanted =>
      refine ⟨fit, by simpa using asked "xml" wanted, fun nsPrefix declares => ?_⟩
      unfold Writer.xmlKind? at declares
      split at declares <;> cases declares
  | declaration _ wanted =>
      exact ⟨fit, by simpa using asked "xmlns" wanted, by simpa using meets.localName⟩
  | defaultDeclaration | bare | unprefixed => exact ⟨fit, by simp, by simp⟩
  | bound nsPrefix _ wanted => exact ⟨fit, by simpa using asked nsPrefix wanted, by simp⟩
  | namespaced uri nsPrefix _ _ _ _ _ wanted _ _ finds =>
      obtain ⟨fit, named⟩ := finds.fit fit asked (meets.uri uri wanted)
      exact ⟨fit, by simpa using named, by simp⟩

theorem Applies.fit {special : SpecialAttribute} (applies : draft.Applies special after)
    (fit : draft.Fit terms)
    (named : ∀ nsPrefix, special.kind = .declaration (some nsPrefix) →
      terms.Named nsPrefix) : after.Fit terms := by
  cases applies with
  | language | space => exact fit.modifyTop_of_same rfl rfl
  | outside => exact fit
  | prefixed nsPrefix _ _ _ _ binds => exact binds.fit fit (named nsPrefix rfl) (by simp)
  | default _ _ _ binds => exact binds.fit fit (by simp)

theorem QualifiesText.fit (finds : draft.QualifiesText uri nsPrefix after) (fit : draft.Fit terms)
    (legal : terms.Uri uri) : after.Fit terms ∧ terms.Named nsPrefix := by
  cases finds with
  | found stands => exact ⟨fit, fit.named_of_prefixOf? stands⟩
  | made _ _ _ _ makes _ binds =>
      exact ⟨binds.fit (makes.fit fit) (makes.isNamed terms) fun _ => legal,
        makes.isNamed terms⟩

theorem Fit.push (fit : draft.Fit terms) : draft.push.Fit terms where
  scope := fit.scope
  defaults := by
    simp only [Draft.push, ElementStack.push, List.mem_cons, forall_eq_or_imp]
    refine ⟨fun owed => ?_, fit.defaults⟩
    split at owed <;> simp at owed

theorem Fit.pop (fit : draft.Fit terms) : draft.pop.Fit terms where
  scope binding member := fit.scope binding (List.mem_of_mem_take member)
  defaults element member := fit.defaults element (List.mem_of_mem_tail member)

theorem Fit.enterText (fit : draft.Fit terms) (next : Phase) : (draft.enterText next).Fit terms := by
  unfold Draft.enterText
  split
  · exact (fit.modifyTop_of_same rfl rfl).congr rfl rfl
  · exact fit.congr rfl rfl

theorem Fit.noteAttribute (fit : draft.Fit terms) (nsPrefix : Option String) :
    (draft.noteAttribute nsPrefix).Fit terms := by
  cases nsPrefix with
  | none => exact fit
  | some nsPrefix =>
      simp only [Draft.noteAttribute]
      split
      · exact fit.modifyTop_of_same rfl rfl
      · exact fit

theorem descends_of_mem_foldl_declare (owed : List (Binding × Nat)) {scope : Scope}
    {binding : Binding}
    (member : binding ∈ owed.foldl (fun scope entry => scope.declare entry.2) scope) :
    ∃ older ∈ scope, Descends older binding := by
  induction owed generalizing scope with
  | nil => exact ⟨binding, member, .refl binding⟩
  | cons entry rest induction =>
      obtain ⟨middle, member, descends⟩ := induction member
      obtain ⟨older, member, earlier⟩ := descends_of_mem_declare member
      exact ⟨older, member, earlier.trans descends⟩

theorem Fit.settle (fit : draft.Fit terms) : draft.settle.Fit terms where
  scope binding member := by
    obtain ⟨older, member, descends⟩ := descends_of_mem_foldl_declare _ member
    exact (fit.scope older member).descends descends
  defaults := by
    simp only [Draft.settle]
    split
    · have written : (draft.modifyTop fun element =>
          { element with defaultNamespace := .written }).Fit terms := fit.modifyTop (by simp)
      exact written.defaults
    · exact fit.defaults

/-- What a draft holds is fit to be written. -/
structure Wholesome (terms : Terms) (draft : Draft) : Prop where
  indent : terms.Indents draft.settings.indentChar
  fit : draft.Fit terms
  special : ∀ nsPrefix, draft.special.map (·.kind) = some (.declaration (some nsPrefix)) →
    terms.Named nsPrefix

theorem Wholesome.keep (wholesome : draft.Wholesome terms) (settings : after.settings = draft.settings)
    (fit : after.Fit terms) (special : after.special.map (·.kind) = draft.special.map (·.kind)) :
    after.Wholesome terms where
  indent := by rw [settings]; exact wholesome.indent
  fit := fit
  special := by rw [special]; exact wholesome.special

theorem capture_special (draft : Draft) (text : String) :
    (draft.capture text).special.map (·.kind) = draft.special.map (·.kind) := by
  simp only [capture, Option.map_map]
  rfl

theorem Wholesome.step {event : Event} {text : String} (wholesome : draft.Wholesome terms)
    (meets : event.Meets terms) (step : draft.Step event text after) : after.Wholesome terms := by
  have fit := wholesome.fit
  cases step with
  | line => exact wholesome
  | xmlDeclaration | doctype | comment | instruction =>
      exact wholesome.keep rfl (fit.congr rfl rfl) rfl
  | cdata =>
      exact wholesome.keep rfl ((fit.modifyTop_of_same rfl rfl).congr rfl rfl) rfl
  | startElement request nsPrefix named _ _ _ _ _ _ names =>
      have frames := names.frames (draft.depth_push_pos .element)
      obtain ⟨fitted, _⟩ := names.fit (fit.push.congr rfl rfl) meets
      exact wholesome.keep frames.settings (fitted.modifyTop_of_same rfl rfl)
        (congrArg _ frames.special)
  | startAttribute request nsPrefix kind next named _ _ _ _ names =>
      have frames := names.frames.trans (named.frames_noteAttribute nsPrefix)
      obtain ⟨fitted, _, declared⟩ := names.fit (fit.congr rfl rfl) meets
      refine ⟨?_, (fitted.noteAttribute nsPrefix).congr rfl rfl, ?_⟩
      · have settings : (named.noteAttribute nsPrefix).settings = draft.settings := frames.settings
        rw [settings]
        exact wholesome.indent
      · cases kind with
        | none => simp
        | some kind => simpa using declared
  | endAttribute next found leads noPayload applies =>
      split at applies
      · rename_i special stands
        have applied := applies.fit (fit.congr rfl rfl) (by simpa [stands] using wholesome.special)
        have frames := applies.frames
        refine ⟨?_, applied.congr rfl rfl, ?_⟩
        · have settings : found.settings = draft.settings := frames.settings
          rw [enter_settings, settings]
          exact wholesome.indent
        · have none : found.special = none := frames.special
          simp [none]
      · subst applies
        exact wholesome.keep rfl (fit.congr rfl rfl) rfl
  | endStartTag => exact wholesome.keep rfl (fit.settle.congr rfl rfl) rfl
  | endEmptyTag => exact wholesome.keep rfl (fit.settle.pop.congr rfl rfl) rfl
  | endTag => exact wholesome.keep rfl (fit.pop.congr rfl rfl) rfl
  | write piece next =>
      exact wholesome.keep (by simp [capture]) ((fit.enterText next).congr rfl rfl) (by
        rw [capture_special, enterText_special])
  | qualify uri nsPrefix next found closed enabled nonEmpty notDefault leads finds =>
      have frames := finds.frames_noted next
      obtain ⟨fitted, _⟩ := finds.fit (fit.enterText next) meets
      refine wholesome.keep ?_ ?_ ?_
      · exact frames.settings.trans (by simp)
      · have noted : (if next = .attribute then found.notePrefix nsPrefix else found).Fit terms := by
          split
          · exact fitted.modifyTop_of_same rfl rfl
          · exact fitted
        exact noted.congr rfl rfl
      · rw [capture_special, frames.special, enterText_special]
  | feed chunk next =>
      refine wholesome.keep (by simp [capture]) ((fit.enterText next).congr rfl rfl) ?_
      exact ((draft.enterText next).capture_special _).trans (by rw [enterText_special])
  | endPayload =>
      exact wholesome.keep rfl (fit.congr rfl rfl) (draft.capture_special _)
  | configure setting =>
      refine ⟨?_, fit.congr rfl rfl, wholesome.special⟩
      cases setting with
      | indentChar character => exact meets
      | _ => exact wholesome.indent
  | finish =>
      exact wholesome.keep rfl ⟨fun binding member =>
        fit.scope binding (List.mem_of_mem_take member), by simp [reset]⟩ rfl

theorem Wholesome.path {events : List Event} {text : String} (wholesome : draft.Wholesome terms)
    (path : draft.Path events text after) (meets : ∀ event ∈ events, event.Meets terms) :
    after.Wholesome terms := by
  induction path with
  | nil => exact wholesome
  | cons step _ induction =>
      exact induction (wholesome.step (meets _ List.mem_cons_self) step)
        fun event member => meets event (List.mem_cons_of_mem _ member)

end Draft

end XmlStream
