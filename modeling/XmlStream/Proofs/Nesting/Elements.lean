import XmlStream.Proofs.Nesting.Surroundings
import XmlStream.Proofs.Simulation.Runs

namespace XmlStream

/-! Elements in elements. Whatever is written between the start of an element and its end,
the end brings back the scope and the open elements that the element was started in. -/

/-- Calls that end as many elements as they start, and no document. -/
def Call.isFlat : Call → Bool
  | .startElement _ | .endElement | .fullEndElement | .endDocument | .close => false
  | _ => true

/-- Calls that end all the elements they start, and no others. -/
inductive Call.Balanced : List Call → Prop
  | nil : Balanced []
  | flat {call : Call} {rest : List Call} (isFlat : call.isFlat = true)
      (later : Balanced rest) : Balanced (call :: rest)
  | element {request : NameRequest} {inner rest : List Call} {last : Call}
      (within : Balanced inner) (ends : last = .endElement ∨ last = .fullEndElement)
      (later : Balanced rest) : Balanced (.startElement request :: (inner ++ last :: rest))

namespace Writer

variable {before after : Writer}

theorem Local.guarded {call : Action Unit} (isLocal : Local call) : Local (Writer.guarded call) :=
  fun _ _ _ ok => isLocal (guarded_ok ok).2

/-! ## Names -/

theorem local_checkRequest (request : NameRequest) : Local (checkRequest request) :=
  .ite (.throw _) (.get_bind fun _ => .ite (.throw _) (.pure _))

theorem local_checkBound (nsPrefix : String) : Local (checkBound nsPrefix) :=
  .get_bind fun _ => .ite (.throw _) (.pure _)

theorem local_checkName (form : Name.Form) (name : String) : Local (checkName form name) :=
  .get_bind fun _ => .ite (.throw _) (.pure _)

theorem local_elementPrefixFor (nsPrefix : Option String) (uri : String) :
    Local (elementPrefixFor nsPrefix uri) := by
  unfold elementPrefixFor
  split
  · refine .get_bind fun writer => ?_
    cases writer.bindings.findPrefix? uri with
    | some found => exact .pure _
    | none => exact .bind (local_bindDefault uri false) fun _ => .pure _
  · exact .bind (local_bindDefault uri false) fun _ => .pure _
  · exact .ite (.throw _) (.bind (local_checkSpelling _ uri) fun _ =>
      .bind (local_bindPrefix _ uri false) fun _ => .pure _)

theorem local_elementPrefix (request : NameRequest) : Local (elementPrefix request) := by
  refine .get_bind fun writer => .ite (.pure _) ?_
  cases request.uri with
  | some uri => exact local_elementPrefixFor _ uri
  | none =>
      cases nonEmpty? request.nsPrefix with
      | none => exact .pure _
      | some nsPrefix => exact .bind (local_checkBound nsPrefix) fun _ => .pure _

theorem local_checkOwnNamespace (nsPrefix own : String) (uri : Option String) :
    Local (checkOwnNamespace nsPrefix own uri) := by
  unfold checkOwnNamespace
  cases nonEmpty? uri with
  | none => exact .pure _
  | some uri => exact .ite (.throw _) (.pure _)

theorem local_attributePrefixFor (nsPrefix : Option String) (uri : String) :
    Local (attributePrefixFor nsPrefix uri) := by
  unfold attributePrefixFor
  cases nsPrefix
  case' some nsPrefix => refine .bind (local_checkSpelling nsPrefix uri) fun _ => ?_
  all_goals
    refine .get_bind fun writer => .ite (.throw _) ?_
    dsimp only
    split
    · exact .pure _
    · exact .bind local_makePrefix fun _ => .bind (local_bindPrefix _ uri false) fun _ => .pure _
    · exact .when (local_bindPrefix _ uri false) (.pure _)

theorem local_ordinaryPrefix (nsPrefix uri : Option String) :
    Local (ordinaryPrefix nsPrefix uri) := by
  unfold ordinaryPrefix
  split
  · cases nsPrefix with
    | none => exact .pure _
    | some nsPrefix => exact .bind (local_checkBound nsPrefix) fun _ => .pure _
  · exact .pure _
  · exact .bind (local_attributePrefixFor nsPrefix _) fun _ => .pure _

theorem local_attributeRole (request : NameRequest) : Local (attributeRole request) := by
  refine .get_bind fun writer => .ite (.pure _) ?_
  dsimp only
  split
  · exact .bind (local_checkOwnNamespace _ _ _) fun _ => .pure _
  · exact .bind (local_checkOwnNamespace _ _ _) fun _ => .pure _
  · refine .ite (.bind (local_checkOwnNamespace _ _ _) fun _ => .pure _) ?_
    exact .bind (local_ordinaryPrefix _ _) fun _ => .pure _

theorem local_openAttribute (request : NameRequest) : Local (openAttribute request) := by
  refine .bind (local_checkRequest request) fun _ => .bind (local_advance _) fun _ =>
    .bind (local_attributeRole request) fun role => ?_
  rcases role with ⟨nsPrefix, kind⟩
  have writes : Local (do
      emit (writtenName nsPrefix request.localName)
      emit "="
      emitQuote
      modify fun writer => { writer with special := kind.map fun kind => { kind } }) :=
    .bind (local_emit _) fun _ => .bind (local_emit _) fun _ =>
      .bind local_emitQuote fun _ => .change fun _ => .of_eq rfl rfl rfl
  cases nsPrefix with
  | none => exact writes
  | some nsPrefix => exact .get_bind fun _ => .when (local_notePrefix nsPrefix) writes

/-! ## Content -/

theorem local_putText (text : String) : Local (putText text) :=
  .ite (.bind (local_advance _) fun _ => local_emitText text) (.pure _)

theorem local_textPrefixFor (uri : String) : Local (textPrefixFor uri) := by
  refine .get_bind fun writer => ?_
  cases writer.bindings.findPrefix? uri with
  | some found => exact .pure _
  | none =>
      exact .ite (.throw _) (.bind local_makePrefix fun _ =>
        .bind (local_bindPrefix _ uri false) fun _ => .pure _)

theorem local_putQualifiedName (localName : String) (uri : Option String) :
    Local (putQualifiedName localName uri) := by
  refine .bind (local_checkName _ localName) fun _ => .get_bind fun _ => ?_
  refine .ite (.throw _) (.bind (local_advance _) fun _ => ?_)
  cases nonEmpty? uri with
  | none => exact local_emitText localName
  | some uri =>
      refine .get_bind fun _ => .ite ?_ (local_emitText localName)
      refine .bind (local_textPrefixFor uri) fun nsPrefix => ?_
      refine .bind (local_emitText nsPrefix) fun _ => .bind (local_emitText ":") fun _ => ?_
      exact .get_bind fun _ => .when (local_notePrefix nsPrefix) (local_emitText localName)

theorem local_putCharacter (code : Nat) : Local (putCharacter code) := by
  unfold putCharacter
  cases xmlCharacter? code with
  | none => exact .throw _
  | some character => exact .bind (local_advance _) fun _ => local_emitCharacter character

theorem local_putSurrogates (low high : Nat) : Local (putSurrogates low high) :=
  .ite (.throw _) (.ite (.throw _) (.bind (local_advance _) fun _ => local_emitCharacter _))

theorem local_putBase64 (chunk : List UInt8) : Local (putBase64 chunk) :=
  .bind (local_advance _) fun _ => .get_bind fun _ =>
    .bind (.change fun _ => .of_eq rfl rfl rfl) fun _ =>
      .bind (local_emitVerbatim _) fun _ => .change fun _ => .of_eq rfl rfl rfl

theorem local_putComment (text : String) : Local (putComment text) :=
  .ite (.throw _) (.bind (local_advance _) fun _ => .bind (local_emit _) fun _ =>
    .bind (local_emitVerbatim text) fun _ => local_emit _)

theorem local_putCData (text : String) : Local (putCData text) :=
  .ite (.throw _) (.bind (local_advance _) fun _ => .bind (local_emit _) fun _ =>
    .bind (local_emitVerbatim text) fun _ => local_emit _)

theorem local_putInstruction (target text : String) : Local (putInstruction target text) := by
  refine .ite (.throw _) (.get_bind fun _ => ?_)
  refine .ite (.throw _) (.bind (local_checkName _ target) fun _ => ?_)
  refine .bind (local_advance _) fun _ => .bind (local_emit _) fun _ => .bind (local_emit _) fun _ => ?_
  exact .ite (.bind (local_emit _) fun _ => .bind (local_emitVerbatim text) fun _ => local_emit _)
    (local_emit _)

theorem local_putDoctype (name : String) (publicId systemId subset : Option String) :
    Local (putDoctype name publicId systemId subset) := by
  refine .bind (local_checkName _ name) fun _ => .bind ?_ fun _ => .bind (local_advance _) fun _ =>
    local_emit _
  intro before identifiers after ok
  rw [(externalId_ok ok).1]
  exact .refl _

theorem local_configure {call : Call} {setting : Setting} (sets : call.Sets setting) :
    Local (perform call) := by
  intro before nothing after ok
  cases sets with
  | namespaces enabled =>
      simp only [perform, setNamespaces, bind_eq_ok, get_eq_ok, refuse_bind_eq_ok, set_eq_ok] at ok
      rcases ok with ⟨_, _, ⟨rfl, rfl⟩, _, rfl⟩
      exact .of_eq rfl rfl rfl
  | quote character quote stands =>
      simp only [perform, setQuoteChar, quoteFor, stands, bind_eq_ok, get_eq_ok,
        refuse_bind_eq_ok, set_eq_ok] at ok
      rcases ok with ⟨_, _, ⟨rfl, rfl⟩, _, rfl⟩
      exact .of_eq rfl rfl rfl
  | _ =>
      simp only [perform, modify_eq_ok] at ok
      subst ok
      exact .of_eq rfl rfl rfl

/-! ## The start and the end of an element -/

/-- The innermost element of the second writer was started in the first one. -/
structure Encloses (outer inner : Writer) : Prop where
  mode : inner.mode = outer.mode
  depth : inner.depth = outer.depth + 1
  opened : inner.elements.opened.tail = outer.elements.opened
  mark : inner.top.bindingMark = outer.bindings.size
  outside : inner.elements.outside = outer.elements.outside
  scope : ∀ base : Scope, (∀ binding ∈ base, binding.declared = true) →
    base <+: outer.bindings.scope → base <+: inner.bindings.scope

theorem Encloses.spares {outer inner later : Writer} (encloses : outer.Encloses inner)
    (spares : inner.Spares later) : outer.Encloses later where
  mode := spares.mode.trans encloses.mode
  depth := spares.depth.trans encloses.depth
  opened := spares.tail.trans encloses.opened
  mark := spares.mark.trans encloses.mark
  outside := (spares.outside (by rw [encloses.depth]; omega)).trans encloses.outside
  scope base declared stands := spares.scope base declared (encloses.scope base declared stands)

theorem encloses_push (writer : Writer) :
    writer.Encloses { writer with elements := writer.elements.push writer.bindings.size } :=
  ⟨rfl, rfl, rfl, rfl, rfl, fun _ _ => id⟩

structure Returns (before after : Writer) : Prop where
  mode : after.mode = before.mode
  elements : after.elements = before.elements
  scope : ∀ base : Scope, (∀ binding ∈ base, binding.declared = true) →
    base <+: before.bindings.scope → base <+: after.bindings.scope
  bound : after.bindings.size ≤ before.bindings.size

theorem Returns.spares (returns : before.Returns after) : before.Spares after :=
  .of_bindings returns.mode returns.elements returns.scope

theorem Returns.scope_eq (returns : before.Returns after)
    (declared : ∀ binding ∈ before.bindings.scope, binding.declared = true) :
    after.bindings.scope = before.bindings.scope := by
  have stands := returns.scope _ declared (List.prefix_refl _)
  have bound : after.bindings.scope.length ≤ before.bindings.scope.length := by
    simpa using returns.bound
  exact (stands.eq_of_length_le bound).symm

theorem Encloses.popped {outer inner : Writer} (encloses : outer.Encloses inner) :
    outer.Returns inner.popped where
  mode := encloses.mode
  elements := by
    have opened := encloses.opened
    have outside := encloses.outside
    rcases outer with ⟨_, _, _, _, _, ⟨_, _⟩⟩
    simp_all [Writer.popped, ElementStack.pop]
  scope base declared stands := by
    have kept := encloses.scope base declared stands
    have short := stands.length_le
    rw [Bindings.length_scope, ← encloses.mark] at short
    change base <+: (inner.bindings.popTo inner.top.bindingMark).scope
    rw [Bindings.scope_popTo]
    exact List.prefix_take_iff.mpr ⟨kept, short⟩
  bound := by
    have taken : inner.popped.bindings.scope.length ≤ outer.bindings.size := by
      change (inner.bindings.popTo inner.top.bindingMark).scope.length ≤ _
      rw [Bindings.scope_popTo, List.length_take, encloses.mark]
      exact Nat.min_le_left _ _
    rwa [Bindings.length_scope] at taken

theorem openElement_encloses {request : NameRequest} {nothing : Unit}
    (ok : openElement request before = .ok nothing after) :
    ∃ room, advance .startElement before = .ok () room ∧ room.Encloses after := by
  simp only [openElement, bind_eq_ok, refuse_bind_eq_ok, modify_eq_ok] at ok
  rcases ok with ⟨_, _, checked, _, _, room, went, _, _, rfl, nsPrefix, found, names, _, wrote,
    emitted, changes⟩
  rcases checkRequest_ok checked with ⟨rfl, _⟩
  refine ⟨room, went, ?_⟩
  have named := (encloses_push room).spares (local_elementPrefix request names)
  refine (named.spares (local_emit _ emitted)).spares (Local.modifyTop ?_ changes)
  exact fun _ => rfl

theorem closeElement_returns {separate : Bool} {outer : Writer} {nothing : Unit}
    (encloses : outer.Encloses before) (ok : closeElement separate before = .ok nothing after) :
    outer.Returns after := by
  simp only [closeElement, bind_eq_ok, get_eq_ok, refuse_bind_eq_ok] at ok
  rcases ok with ⟨_, _, ⟨rfl, rfl⟩, _, _, reached, went, _, _, ⟨rfl, rfl⟩, ok⟩
  have here := encloses.spares (local_advance _ went)
  have tagged : ∃ tagged, reached.Spares tagged ∧ after = tagged.popped := by
    simp only [ite_eq_ok, bind_eq_ok, modify_eq_ok] at ok
    rcases ok with ⟨_, ⟨_, _, lined, indented, _, tagged, emitted, rfl⟩ |
      ⟨_, _, tagged, emitted, rfl⟩⟩ | ⟨_, rfl⟩
    · exact ⟨tagged, (local_indent true indented).trans (local_emit _ emitted), rfl⟩
    · exact ⟨tagged, local_emit _ emitted, rfl⟩
    · exact ⟨reached, .refl _, rfl⟩
  rcases tagged with ⟨tagged, spares, rfl⟩
  exact (here.spares spares).popped

/-! ## Calls -/

/-- A call that ends what it starts spares what stands around the innermost element, but for
the begin of a document. -/
theorem local_perform {call : Call} (isFlat : call.isFlat = true)
    (notBegin : ∀ standalone, call ≠ .startDocument standalone) : Local (perform call) := by
  cases call with
  | startElement | endElement | fullEndElement | endDocument | close => cases isFlat
  | startDocument standalone => exact absurd rfl (notBegin standalone)
  | query question => exact .pure _
  | setNamespaces enabled => exact local_configure (.namespaces enabled)
  | setFormatting formatting => exact local_configure (.formatting formatting)
  | setIndentation width => exact local_configure (.indentation width)
  | setIndentChar character => exact local_configure (.indentChar character)
  | setQuoteChar character =>
      cases stands : Quote.ofChar? character with
      | some quote => exact local_configure (.quote character quote stands)
      | none =>
          intro before nothing after ok
          simp [perform, setQuoteChar, quoteFor, stands] at ok
  | doctype name publicId systemId subset => exact (local_putDoctype _ _ _ _).guarded
  | startAttribute request => exact (local_openAttribute request).guarded
  | endAttribute => exact (local_advance _).guarded
  | attributeString request value =>
      exact .bind (local_openAttribute request).guarded fun _ =>
        .bind (local_putText value).guarded fun _ => (local_advance _).guarded
  | elementString request value =>
      intro before nothing after ok
      cases value with
      | none =>
          simp only [perform, bind_eq_ok] at ok
          rcases ok with ⟨_, opened, opens, closes⟩
          rcases openElement_encloses (guarded_ok opens).2 with ⟨room, went, encloses⟩
          exact (local_advance _ went).trans
            (closeElement_returns encloses (guarded_ok closes).2).spares
      | some value =>
          simp only [perform, bind_eq_ok] at ok
          rcases ok with ⟨_, opened, opens, _, filled, wrote, closes⟩
          rcases openElement_encloses (guarded_ok opens).2 with ⟨room, went, encloses⟩
          have within := encloses.spares ((local_putText value).guarded wrote)
          exact (local_advance _ went).trans
            (closeElement_returns within (guarded_ok closes).2).spares
  | cdata text => exact (local_putCData text).guarded
  | comment text => exact (local_putComment text).guarded
  | instruction target text => exact (local_putInstruction target text).guarded
  | entity name =>
      exact Local.guarded (.bind (local_checkName _ name) fun _ => .bind (local_advance _) fun _ =>
        local_emitEntity name)
  | character code => exact (local_putCharacter code).guarded
  | surrogates low high => exact (local_putSurrogates low high).guarded
  | whitespace text =>
      exact Local.guarded (.ite (.throw _) (.bind (local_advance _) fun _ => local_emitText text))
  | text text => exact (local_putText text).guarded
  | raw text => exact Local.guarded (.bind (local_advance _) fun _ => local_emitVerbatim text)
  | base64 chunk => exact (local_putBase64 chunk).guarded
  | hexadecimal bytes =>
      exact Local.guarded (.bind (local_advance _) fun _ => local_emitVerbatim _)
  | name name =>
      exact Local.guarded (.bind (local_checkName _ name) fun _ => .bind (local_advance _) fun _ =>
        local_emitText name)
  | token name =>
      exact Local.guarded (.ite (.throw _) (.bind (local_advance _) fun _ => local_emitText name))
  | qualifiedName localName uri => exact (local_putQualifiedName localName uri).guarded
  | flush => exact Local.guarded (.onOutput _)

end Writer

end XmlStream
