import XmlStream.Proofs.Draft.Tiered
import XmlStream.Proofs.Reading.Sight

namespace XmlStream.Draft

/-! Reading the steps of a document. The text of a step is read up to a place at which the reader
sees what the step shows. -/

open Grammar Reading

variable {draft after : Draft} {event : Event} {text : String} {place : Place} {sight : Sight}
  {next : Phase} {quote : Quote} {token : Token}

def Watched (draft : Draft) (place : Place) (sight : Sight) (event : Event) (text : String)
    (after : Draft) : Prop :=
  ∃ seen : Sight, Sees after.settings.quote after.phase (read place text.toList).1 seen.view ∧
    seen.nesting = (read place text.toList).2.foldl Nesting.add sight.nesting ∧
    draft.Shows event sight after seen

theorem watched_between {items : List Item} (sees : Sees quote draft.phase place sight.view)
    (notElement : draft.phase ≠ .element) (notAttribute : draft.phase ≠ .attribute)
    (outside : after.phase ≠ .element ∧ after.phase ≠ .attribute)
    (reads : read (.text .content) text.toList = (.text .content, items))
    (shows_ : draft.Shows event ⟨.between, sight.nesting⟩ after
      ⟨.between, items.foldl Nesting.add sight.nesting⟩) :
    draft.Watched place sight event text after := by
  rcases sees.of_between notElement notAttribute with ⟨rfl, between⟩
  have whole : sight = ⟨.between, sight.nesting⟩ := by rw [← between]
  rw [Watched, reads, whole]
  exact ⟨_, .between outside.1 outside.2, rfl, shows_⟩

theorem watched_text {parts : List Part}
    (sees : Sees draft.settings.quote draft.phase place sight.view)
    (textual : token = .text ∨ token = .raw ∨ token = .whitespace ∨ token = .base64)
    (notElement : draft.phase ≠ .element) (leads : draft.mode.next? token draft.phase = some next)
    (phase : after.phase = next) (settings : after.settings = draft.settings)
    (spells : ∀ quote?, Suits (draft.position next) quote? → Spells quote? text.toList parts)
    (between : draft.phase ≠ .attribute → next ≠ .attribute →
      draft.Shows event ⟨.between, sight.nesting⟩ after ⟨.between, sight.nesting⟩)
    (fills : draft.phase = .attribute → next = .attribute → ∀ tag name earlier,
      draft.Shows event ⟨.value tag name earlier, sight.nesting⟩ after
        ⟨.value tag name (earlier ++ parts), sight.nesting⟩) :
    draft.Watched place sight event text after := by
  have moves := moves_of_text textual notElement leads
  by_cases inValue : draft.phase = .attribute
  · have stays : next = .attribute := by
      rcases moves with same | ⟨early, _⟩
      · rw [same, inValue]
      · simp [inValue] at early
    rw [inValue] at sees
    rcases sees.of_value with ⟨tag, name, earlier, isValue, rfl⟩
    have whole : sight = ⟨.value tag name earlier, sight.nesting⟩ := by rw [← isValue]
    have suits : Suits (draft.position next) (some draft.settings.quote) := by
      rw [stays]
      rintro quote ⟨⟩
      rfl
    rw [Watched, spells _ suits (.value tag name draft.settings.quote earlier) rfl, phase, stays,
      settings, whole]
    exact ⟨⟨.value tag name (earlier ++ parts), sight.nesting⟩,
      .value tag name (earlier ++ parts), rfl, fills inValue stays tag name earlier⟩
  · have outside : after.phase ≠ .element ∧ after.phase ≠ .attribute := by
      rw [phase]
      rcases moves with rfl | ⟨_, rfl | rfl | ⟨rfl, _⟩⟩
      · exact ⟨notElement, inValue⟩
      all_goals exact ⟨by simp, by simp⟩
    have suits : Suits (draft.position next) none := fun _ impossible => by cases impossible
    refine watched_between sees notElement inValue outside (spells _ suits .content rfl) ?_
    rw [foldl_add_text]
    exact between inValue (phase ▸ outside.2)

/-! ### Declarations that are owed -/

theorem read_declarationText {quote : Quote} {tag : StartTag} {name : List Char}
    (inTag : InTag tag place) (named : Grammar.Name name) (uri : String) :
    read place (' ' :: (name ++ ['=', quote.char]) ++
      ((TextPosition.attribute quote).escaped uri).toList ++ [quote.char]) =
        (.tag (tag.add name (uri.toList.map .character)) false, []) := by
  have suits : Suits (.attribute quote) (some quote) := by
    rintro other ⟨⟩
    rfl
  have value := spells_escaped suits uri (.value tag name quote []) rfl
  rw [read_append, read_append, read_attributeStart inTag named, value]
  simp only [Host.takeAll]
  rw [read_quote rfl]
  rfl

theorem addAll_nil (tag : StartTag) : tag.addAll [] = tag := by simp [StartTag.addAll]

theorem addAll_cons (tag : StartTag) (entry : List Char × List Part)
    (rest : List (List Char × List Part)) :
    tag.addAll (entry :: rest) = (tag.add entry.1 entry.2).addAll rest := by
  simp [StartTag.addAll, StartTag.add]

theorem addAll_addAll (tag : StartTag) (entries more : List (List Char × List Part)) :
    (tag.addAll entries).addAll more = tag.addAll (entries ++ more) := by
  simp [StartTag.addAll]

theorem toList_declarationName (nsPrefix : String) :
    declarationName (some nsPrefix) = (writtenName (some "xmlns") nsPrefix).toList := by
  simp [declarationName_some, writtenName]

theorem read_declarationTexts (quote : Quote) (entries : List (Binding × Nat))
    (named : ∀ entry ∈ entries, Name.isNCName entry.1.nsPrefix = true) {tag : StartTag}
    (inTag : InTag tag place) :
    ∃ next, read place ((entries.map fun entry =>
        declarationText quote entry.1).foldr (· ++ ·) "").toList = (next, []) ∧
      InTag (tag.addAll (entries.map fun entry =>
        (declarationName (some entry.1.nsPrefix), entry.1.uri.toList.map .character))) next := by
  induction entries generalizing place tag with
  | nil => exact ⟨place, rfl, by rwa [List.map_nil, addAll_nil]⟩
  | cons entry rest induction =>
      have first := named entry List.mem_cons_self
      have isName : Grammar.Name (declarationName (some entry.1.nsPrefix)) := by
        rw [toList_declarationName]
        exact name_writtenName (by rintro _ ⟨⟩; exact Terms.plain.xmlns) first
      have reads := @read_declarationText place quote tag _ inTag isName entry.1.uri
      have text : (declarationText quote entry.1).toList =
          ' ' :: (declarationName (some entry.1.nsPrefix) ++ ['=', quote.char]) ++
            ((TextPosition.attribute quote).escaped entry.1.uri).toList ++ [quote.char] := by
        simp [declarationText, declarationName_some, toList_text,
          Name.toList_escaped_of_isNCName _ first]
      have further : InTag (tag.add (declarationName (some entry.1.nsPrefix))
          (entry.1.uri.toList.map .character)) _ := .tag false
      rcases induction (fun other member => named other (List.mem_cons_of_mem _ member)) further
        with ⟨next, readsRest, within⟩
      refine ⟨next, ?_, ?_⟩
      · rw [List.map_cons, List.foldr_cons, String.toList_append, read_append, text, reads,
          readsRest]
        rfl
      · rw [List.map_cons, addAll_cons]
        exact within

theorem read_owedText {tag : StartTag} (inTag : InTag tag place) (fit : draft.Fit .plain) :
    ∃ next, read place draft.owedText.toList = (next, []) ∧
      InTag (tag.addAll draft.owedAttributes) next := by
  rcases read_declarationTexts draft.settings.quote (draft.scope.owed draft.top.bindingMark)
    (fun entry member => (fit.scope entry.1 (mem_of_mem_owed member).1).nsPrefix) inTag with
    ⟨middle, reads, within⟩
  rw [owedText, owedAttributes, String.toList_append, read_append, reads]
  split
  · have isName : Grammar.Name (declarationName none) := by
      have named := Terms.plain.xmlns
      exact name_of_isNCName named
    have readsDefault := @read_declarationText middle draft.settings.quote _ _ within isName
      draft.top.defaultUri
    have text : (defaultText draft.settings.quote draft.top.defaultUri).toList =
        ' ' :: (declarationName none ++ ['=', draft.settings.quote.char]) ++
          ((TextPosition.attribute draft.settings.quote).escaped draft.top.defaultUri).toList ++
            [draft.settings.quote.char] := by
      simp [defaultText, declarationName_none, toList_text]
    rw [text, readsDefault]
    refine ⟨_, rfl, ?_⟩
    rw [← addAll_addAll, addAll_cons, addAll_nil]
    exact .tag false
  · refine ⟨middle, rfl, ?_⟩
    rwa [List.append_nil]

/-! ### Steps -/

theorem layers_modifyTop (draft : Draft) {change : OpenElement → OpenElement}
    (mark : (change draft.top).bindingMark = draft.top.bindingMark)
    (uri : (change draft.top).defaultUri = draft.top.defaultUri) :
    (draft.modifyTop change).layers = draft.layers := by
  simp only [Draft.top, ElementStack.top] at mark uri
  cases found : draft.elements.opened <;>
    simp_all [layers, Draft.modifyTop, ElementStack.modifyTop]

theorem layers_enterText (draft : Draft) (next : Phase) :
    (draft.enterText next).layers = draft.layers := by
  unfold enterText
  split
  · exact draft.layers_modifyTop rfl rfl
  · rfl

theorem layers_eq_nil (outside : draft.depth = 0) : draft.layers = [] := by
  rw [layers, List.length_eq_zero_iff.mp outside, List.map_nil]

theorem enterText_attribute (inValue : draft.phase = .attribute) :
    draft.enterText .attribute = draft := by
  rw [enterText, if_neg (by simp), enter, ← inValue]

theorem Still.entered (leads : draft.mode.next? token draft.phase = some next)
    (scope : after.scope = draft.scope) (layers : after.layers = draft.layers)
    (phase : after.phase = next) : draft.Still after where
  scope := scope
  layers := layers
  start isStart := absurd (phase ▸ isStart) (next?_ne_start leads)

theorem watched_markup {item : Item} (sees : Sees quote draft.phase place sight.view)
    (markup : token = .doctype ∨ token = .comment ∨ token = .processingInstruction ∨ token = .cdata)
    (outside : draft.phase ≠ .element ∧ draft.phase ≠ .attribute)
    (leads : draft.mode.next? token draft.phase = some next) (phase : after.phase = next)
    (scope : after.scope = draft.scope) (layers : after.layers = draft.layers)
    (reads : read (.text .content) text.toList = (.text .content, [item]))
    (unnested : ∀ nesting : Nesting, nesting.add item = nesting) (quiet : event.Quiet) :
    draft.Watched place sight event text after := by
  have moves := moves_of_markup markup outside.1 outside.2 leads
  have outsideToo : after.phase ≠ .element ∧ after.phase ≠ .attribute := by
    rw [phase]
    rcases moves with rfl | ⟨_, rfl | rfl | ⟨rfl, _⟩⟩
    · exact outside
    all_goals exact ⟨by simp, by simp⟩
  refine watched_between sees outside.1 outside.2 outsideToo reads ?_
  rw [List.foldl_cons, List.foldl_nil, unnested]
  exact .between _ _ _ quiet (.entered leads scope layers phase)

theorem read_doctype_text {name ids : String} {publicId systemId subset : Option String}
    (named : Grammar.Name name.toList) (identified : draft.externalId? publicId systemId = some ids)
    (enclosed : ∀ text, subset = some text → Enclosed text.toList) :
    ∃ seen, read (.text .content) ("<!DOCTYPE " ++ name ++ ids ++
      (subset.map fun subset => "[" ++ subset ++ "]").getD "" ++ ">").toList =
        (.text .content, [.doctype seen]) := by
  have inner : Reading.Between
      ((subset.map fun subset => "[" ++ subset ++ "]").getD "").toList := by
    cases subset with
    | none => exact between_of_idle (by simp)
    | some text => simpa using between_subset (enclosed text rfl)
  have whole : ("<!DOCTYPE " ++ name ++ ids ++
      (subset.map fun subset => "[" ++ subset ++ "]").getD "" ++ ">").toList =
      "<!DOCTYPE".toList ++ (' ' :: (name.toList ++ ids.toList) ++
        ((subset.map fun subset => "[" ++ subset ++ "]").getD "").toList) ++ ['>'] := by
    simp
  rw [whole]
  exact ⟨_, read_doctypeDeclaration ((between_nameAndIds named identified).append inner)⟩

theorem watched_configure {setting : Setting}
    (sees : Sees draft.settings.quote draft.phase place sight.view)
    (unquoted : ∀ quote, setting = .quote quote →
      draft.phase ≠ .attribute ∧ draft.phase ≠ .topAttribute) :
    draft.Watched place sight (.configure setting) ""
      { draft with settings := setting.apply draft.settings } := by
  have reads : read place "".toList = (place, []) := rfl
  have seesStill : Sees (setting.apply draft.settings).quote draft.phase place sight.view := by
    cases setting with
    | quote chosen => exact sees.requote chosen (unquoted chosen rfl).1
    | _ => exact sees
  rw [Watched, reads]
  refine ⟨sight, seesStill, rfl, ?_⟩
  by_cases between : sight.view = .between
  · have whole : sight = ⟨.between, sight.nesting⟩ := by rw [← between]
    rw [whole]
    exact .between _ _ _ trivial ⟨rfl, rfl, id⟩
  · exact .configure setting sight between

theorem watched_instruction {target content : String}
    (sees : Sees draft.settings.quote draft.phase place sight.view) (between : draft.Between)
    (noEnd : occursIn "?>".toList content.toList = false)
    (usable : Name.isUsable .qualified draft.settings.namespaces target)
    (leads : draft.mode.next? .processingInstruction draft.phase = some next) :
    draft.Watched place sight (.instruction target content)
      ("<?" ++ target ++ (if content = "" then "" else " " ++ content) ++ "?>") (draft.enter next) := by
  have notQuestion : '?' ∉ target.toList := (name_of_isUsable usable).notMem (by decide)
  rcases @instruction_lead target content notQuestion with ⟨lead, whole, notInLead, _⟩
  have absent : ¬"?>".toList <:+: lead ++ content.toList := fun inside =>
    not_infix_of_occursIn noEnd (infix_of_infix_append notInLead inside)
  have reads := read_instruction absent
  rw [← whole, ← String.toList_append, ← String.toList_append, ← String.append_assoc] at reads
  exact watched_markup sees (by simp) ⟨between.1, between.2.1⟩ leads rfl rfl rfl reads
    (fun _ => rfl) trivial

/-! ### Tags and attributes -/

theorem watched_startElement {request : NameRequest} {nsPrefix : Option String} {found : Draft}
    (sees : Sees draft.settings.quote draft.phase place sight.view) (between : draft.Between)
    (fit : draft.Fit .plain) (plain : request.Meets .plain)
    (notXmlns : request.nsPrefix ≠ some "xmlns")
    (names : (draft.push.enter .element).NamesElement request nsPrefix found) :
    draft.Watched place sight (.startElement (draft.asked request) found.owesDefault)
      ("<" ++ writtenName nsPrefix request.localName)
      (found.modifyTop fun element => { element with name := request.localName, nsPrefix }) := by
  have frames := names.frames (draft.depth_push_pos .element)
  rcases names.fit (fit.push.congr rfl rfl) plain with ⟨_, prefixed⟩
  have isName : Grammar.Name (writtenName nsPrefix request.localName).toList :=
    name_writtenName prefixed plain.localName
  have phase : found.phase = .element := frames.phase
  rcases sees.of_between between.1 between.2.1 with ⟨rfl, isBetween⟩
  have whole : sight = ⟨.between, sight.nesting⟩ := by rw [← isBetween]
  rw [whole, Watched, String.toList_append]
  refine ⟨⟨.tag { name := (writtenName nsPrefix request.localName).toList }, sight.nesting⟩,
    ?_, ?_, .startElement request nsPrefix found _ sight.nesting notXmlns names⟩
  · rw [modifyTop, phase]
    exact .tag (read_startTag isName ▸ .name rfl)
  · exact read_startTag isName ▸ rfl

theorem watched_startAttribute {request : NameRequest} {nsPrefix : Option String}
    {kind : Option SpecialKind} {found : Draft}
    (sees : Sees draft.settings.quote draft.phase place sight.view) (placed : draft.Placed)
    (fit : draft.Fit .plain) (plain : request.Meets .plain) (notInside : draft.phase ≠ .attribute)
    (leads : draft.mode.next? .startAttribute draft.phase = some next)
    (names : (draft.enter next).NamesAttribute request nsPrefix kind found) :
    draft.Watched place sight (.startAttribute (draft.asked request) (draft.relies request))
      ((if draft.phase = .element then " " else "") ++
        writtenName nsPrefix request.localName ++ "=" ++ draft.settings.quote.text)
      { found.noteAttribute nsPrefix with special := kind.map fun kind => { kind } } := by
  have frames := names.frames.trans (found.frames_noteAttribute nsPrefix)
  rcases names.fit (fit.congr rfl rfl) plain with ⟨_, prefixed, _⟩
  have isName : Grammar.Name (writtenName nsPrefix request.localName).toList :=
    name_writtenName prefixed plain.localName
  have phase : (found.noteAttribute nsPrefix).phase = next := frames.phase
  have quote : (found.noteAttribute nsPrefix).settings.quote = draft.settings.quote :=
    congrArg Settings.quote frames.settings
  rcases next?_startAttribute notInside leads with ⟨inTag, rfl⟩ | ⟨_, start, rfl⟩
  · rw [inTag] at sees
    rcases sees.of_tag with ⟨tag, isTag, stands⟩
    have sight_ : sight = ⟨.tag tag, sight.nesting⟩ := by rw [← isTag]
    rw [sight_, Watched, if_pos inTag, toList_attributeStart, read_attributeStart stands isName]
    refine ⟨⟨.value tag (writtenName nsPrefix request.localName).toList [], sight.nesting⟩, ?_,
      rfl, .startAttribute request nsPrefix kind found _ tag sight.nesting names⟩
    dsimp only
    rw [phase, quote]
    exact .value _ _ _
  · have outside : draft.depth = 0 := placed.outside (.inl start)
    have spells : Spells none ((writtenName nsPrefix request.localName).toList ++
        ['=', draft.settings.quote.char]) _ := spells_plain fun character member =>
      have all := mem_attributeStart isName member
      ⟨all.2.1, all.2.2, by simp⟩
    have reads := spells .content rfl
    rw [← toList_topAttributeStart] at reads
    rw [if_neg (by simp [start])]
    refine watched_between sees (by simp [start]) (by simp [start])
      ⟨by simp [phase], by simp [phase]⟩ reads ?_
    rw [foldl_add_text]
    refine .topAttribute _ _ _ _ start (.entered leads ?_ ?_ phase)
    · exact (found.noteAttribute_scope nsPrefix).trans (names.scope_eq outside)
    · rw [layers_eq_nil outside]
      exact layers_eq_nil (frames.depth.trans outside)

theorem watched_endAttribute {found : Draft}
    (sees : Sees draft.settings.quote draft.phase place sight.view) (placed : draft.Placed)
    (leads : draft.mode.next? .endAttribute draft.phase = some next)
    (applies : match draft.special with
      | some special => Applies { draft with special := none } special found
      | none => found = draft) :
    draft.Watched place sight .endAttribute draft.settings.quote.text (found.enter next) := by
  rcases next?_endAttribute leads with ⟨inValue, rfl⟩ | ⟨_, onTop, rfl⟩
  · rw [inValue] at sees
    rcases sees.of_value with ⟨tag, name, parts, isValue, rfl⟩
    have whole : sight = ⟨.value tag name parts, sight.nesting⟩ := by rw [← isValue]
    rw [whole, Watched, toList_text, read_quote rfl]
    exact ⟨⟨.tag (tag.add name parts), sight.nesting⟩, .tag (.tag false), rfl,
      .endAttribute found tag name parts sight.nesting applies⟩
  · have outside : draft.depth = 0 := placed.outside (by simp [onTop])
    have plain : Spells none draft.settings.quote.text.toList _ :=
      spells_plain fun character member => by
        rw [toList_text, List.mem_singleton] at member
        subst member
        cases draft.settings.quote <;> decide
    refine watched_between sees (by simp [onTop]) (by simp [onTop]) ⟨by simp, by simp⟩
      (plain .content rfl) ?_
    rw [foldl_add_text]
    have ends : found.scope = draft.scope ∧ found.depth = draft.depth := by
      split at applies
      · exact ⟨applies.scope_eq outside, applies.frames.depth⟩
      · exact applies ▸ ⟨rfl, rfl⟩
    refine .between _ _ _ trivial (.entered leads ends.1 ?_ rfl)
    rw [layers_eq_nil outside]
    exact layers_eq_nil (ends.2.trans outside)

/-! ### Text -/

theorem watched_captured {parts : List Part} {value : String} (carry : Base64.Carry)
    (unflushed : Bool) (sees : Sees draft.settings.quote draft.phase place sight.view)
    (textual : token = .text ∨ token = .raw ∨ token = .whitespace ∨ token = .base64)
    (closed : draft.phase ≠ .element) (leads : draft.mode.next? token draft.phase = some next)
    (quiet : event.Quiet)
    (spells : ∀ quote?, Suits (draft.position next) quote? → Spells quote? text.toList parts)
    (valued : ∀ nsPrefix, draft.special.map (·.kind) = some (.declaration nsPrefix) →
      valueText parts = value) :
    draft.Watched place sight event text
      { (draft.enterText next).capture value with carry, unflushed } := by
  refine watched_text sees textual closed leads (by simp [capture]) (by simp [capture]) spells
    (fun _ _ => ?_) fun inValue stays tag name earlier => ?_
  · exact .between _ _ _ quiet
      (.entered leads (draft.enterText_scope next) (draft.layers_enterText next)
        (by simp [capture]))
  · subst stays
    exact .fill _ value _ _ _ _ _ _ quiet rfl rfl rfl valued

theorem watched_qualify {uri nsPrefix : String} {found : Draft} {kind : Option SpecialKind}
    (sees : Sees draft.settings.quote draft.phase place sight.view) (closed : draft.phase ≠ .element)
    (leads : draft.mode.next? .text draft.phase = some next)
    (finds : (draft.enterText next).QualifiesText uri nsPrefix found) :
    draft.Watched place sight (.qualify uri kind)
      (TextPosition.escaped (draft.position next) nsPrefix ++
        TextPosition.escaped (draft.position next) ":")
      ((if next = .attribute then found.notePrefix nsPrefix else found).capture
        (nsPrefix ++ ":")) := by
  have frames := finds.frames_noted next
  have phase := frames.phase.trans (draft.enterText_phase next)
  have settings := frames.settings.trans (draft.enterText_settings next)
  have spells (quote? : Option Quote) (suits : Suits (draft.position next) quote?) :
      Spells quote?
        ((draft.position next).escaped nsPrefix ++ (draft.position next).escaped ":").toList
        ((nsPrefix ++ ":").toList.map .character) := by
    rw [String.toList_append, String.toList_append, List.map_append]
    exact (spells_escaped suits nsPrefix).append (spells_escaped suits ":")
  refine watched_text sees (.inl rfl) closed leads phase settings spells (fun _ outside => ?_)
    fun inValue stays tag name earlier => ?_
  · have same := finds.eq_of_outside (by rwa [enterText_phase])
    subst same
    rw [if_neg outside]
    exact .between _ _ _ trivial (.entered leads (draft.enterText_scope next)
      (draft.layers_enterText next) (draft.enterText_phase next))
  · subst stays
    rw [enterText_attribute inValue] at finds
    exact .qualify uri nsPrefix _ found tag name earlier sight.nesting finds

/-! ### All steps -/

theorem watched_step (sees : Sees draft.settings.quote draft.phase place sight.view)
    (placed : draft.Placed) (fit : draft.Fit .plain)
    (indents : ∀ beforeEnd, event = .line beforeEnd → Terms.plain.Indents draft.settings.indentChar)
    (names : ∀ name ∈ draft.names, Grammar.Name name) (legible : event.Legible)
    (step : draft.Step event text after) : draft.Watched place sight event text after := by
  cases step with
  | xmlDeclaration encoding standalone start =>
      refine watched_between sees (by simp [start]) (by simp [start]) ⟨by simp, by simp⟩
        (read_xmlDeclaration legible standalone) ?_
      exact .between _ _ _ trivial ⟨rfl, rfl, by simp⟩
  | doctype name publicId systemId subset ids next usable identified leads =>
      rcases read_doctype_text (name_of_isUsable usable) identified legible with ⟨seen, reads⟩
      exact watched_markup sees (.inl rfl) (outside_of_doctype leads) leads rfl rfl rfl reads
        (fun _ => rfl) trivial
  | line beforeEnd between _ notStart plain =>
      have indent := indents beforeEnd rfl
      have spells : Spells none (draft.lineText beforeEnd).toList _ :=
        spells_plain fun character member => by
          rcases mem_lineText member with rfl | rfl
          · simp
          · exact ⟨indent.1, indent.2, by simp⟩
      refine watched_between sees between.1 between.2.1 ⟨between.1, between.2.1⟩
        (spells .content rfl) ?_
      rw [foldl_add_text]
      exact .between _ _ _ trivial ⟨rfl, rfl, id⟩
  | comment content next between noDashes noDash leads =>
      have reads := read_comment (not_infix_of_occursIn noDashes)
      rw [← String.toList_append, ← String.toList_append] at reads
      exact watched_markup sees (by simp) ⟨between.1, between.2.1⟩ leads rfl rfl rfl reads
        (fun _ => rfl) trivial
  | instruction _ _ next between noEnd _ usable leads =>
      exact watched_instruction sees between noEnd usable leads
  | cdata content next between noEnd leads =>
      have reads := read_cdata (not_infix_of_occursIn noEnd)
      rw [← String.toList_append, ← String.toList_append] at reads
      exact watched_markup sees (by simp) ⟨between.1, between.2.1⟩ leads rfl rfl
        (draft.layers_modifyTop rfl rfl) reads (fun _ => rfl) trivial
  | startElement _ _ _ between _ notXmlns _ _ _ written =>
      exact watched_startElement sees between fit legible notXmlns written
  | startAttribute _ _ _ _ _ notInside _ _ leads written =>
      exact watched_startAttribute sees placed fit legible notInside leads written
  | endAttribute _ _ leads _ applies => exact watched_endAttribute sees placed leads applies
  | endStartTag inTag =>
      rw [inTag] at sees
      rcases sees.of_tag with ⟨tag, isTag, stands⟩
      rcases read_owedText stands fit with ⟨last, reads, within⟩
      have whole : sight = ⟨.tag tag, sight.nesting⟩ := by rw [← isTag]
      have end_ := read_tagEnd within
      rw [whole, Watched, String.toList_append, read_append, reads,
        show (">" : String).toList = ['>'] from rfl, end_]
      exact ⟨_, .between (by simp) (by simp), rfl, .endStartTag tag sight.nesting⟩
  | endEmptyTag inTag inside =>
      rw [inTag] at sees
      rcases sees.of_tag with ⟨tag, isTag, stands⟩
      rcases read_owedText stands fit with ⟨last, reads, within⟩
      have whole : sight = ⟨.tag tag, sight.nesting⟩ := by rw [← isTag]
      have end_ := read_emptyTagEnd within
      have outside := draft.phaseAfterElement_between
      rw [whole, Watched, String.toList_append, read_append, reads, end_]
      exact ⟨_, .between outside.1 outside.2, rfl, .endEmptyTag tag sight.nesting⟩
  | endTag inContent inside =>
      have isName : Grammar.Name (tagName draft.top) :=
        names _ (by rw [names_eq_cons inside]; exact List.mem_cons_self)
      have outside := draft.phaseAfterElement_between
      have reads := read_endTag isName
      rw [tagName, ← String.toList_append, show ['>'] = (">" : String).toList from rfl,
        ← String.toList_append] at reads
      exact watched_between sees (by simp [inContent]) (by simp [inContent]) outside reads
        (Shows.endTag (writtenName draft.top.nsPrefix draft.top.name).toList sight.nesting inside)
  | write piece next closed leads blank named legal =>
      have textual : piece.token = .text ∨ piece.token = .raw ∨ piece.token = .whitespace ∨
          piece.token = .base64 := by
        cases piece <;> simp [Piece.token]
      exact watched_captured _ _ sees textual closed leads trivial
        (fun _ suits => spells_written legible named suits) fun _ => valueText_parts legible
  | qualify _ _ _ _ closed _ _ _ leads finds => exact watched_qualify sees closed leads finds
  | feed chunk next closed leads =>
      refine watched_captured _ _ sees (by simp) closed leads trivial (fun _ _ => ?_)
        fun _ _ => valueText_map_character _
      rw [String.toList_ofList]
      exact spells_of_plain plain_of_mem_feed
  | endPayload pending =>
      rcases next?_payload (placed.takesPayload pending) with ⟨stays, notElement⟩
      have spells (quote? : Option Quote) : Spells quote? draft.carry.lastGroup _ :=
        spells_of_plain plain_of_mem_lastGroup
      refine watched_text sees (by simp) notElement stays rfl rfl
        (fun quote? _ => by rw [String.toList_ofList]; exact spells quote?) (fun _ _ => ?_)
        fun inValue _ tag name earlier => ?_
      · exact .between _ _ _ trivial ⟨rfl, rfl, id⟩
      · exact .fill _ _ _ _ _ _ _ _ trivial rfl rfl rfl fun _ _ => valueText_map_character _
  | configure setting atStart unquoted => exact watched_configure sees unquoted
  | finish between outside =>
      have reads : read (.text .content) "".toList = (.text .content, []) := rfl
      exact watched_between sees between.1 between.2.1 ⟨by simp [reset], by simp [reset]⟩ reads
        (.finish _ outside)

end XmlStream.Draft
