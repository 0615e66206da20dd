import XmlStream.Proofs.Simulation.Exact
import XmlStream.Proofs.Text.Payloads
import XmlStream.Proofs.Wrap.Calls
import XmlStream.Proofs.Wrap.Naming
import XmlStream.Proofs.Wrap.Sources

namespace XmlStream

/-! The text of a document of files, to the character. -/

namespace Wrap

def Options.line (options : Options) (level : Nat) : String :=
  if options.indentation.isSome then
    String.ofList ('\n' :: List.replicate (level * (options.indentation.getD 2).toNat) ' ')
  else ""

def Options.attribute (options : Options) (name value : String) : String :=
  Draft.attributeText options.settings.quote name value

def Options.payloadText (options : Options) (bytes : List UInt8) : String :=
  String.ofList (if options.hexadecimal then Hexadecimal.encode bytes else Base64.encode bytes)

def Options.fileText (options : Options) (path : String) (content : ByteArray) : String :=
  options.line 1 ++ ("<" ++ options.tagName "file") ++
    options.attribute "name" ((lastName? path).getD path) ++
    options.attribute "size" (toString content.size) ++
    options.attribute "encoding" (if options.hexadecimal then "hex" else "base64") ++ ">" ++
    (if content.data.toList = [] then options.line 1
      else options.payloadText content.data.toList) ++
    ("</" ++ options.tagName "file" ++ ">")

def Options.declaration (options : Options) (encoding : Option String) : String :=
  let part := Draft.declarationPart options.settings.quote
  "<?xml" ++ part "version" "1.0" ++ (encoding.map (part "encoding")).getD "" ++
    (if options.standalone then part "standalone" "yes" else "") ++ "?>"

def Options.headText (options : Options) (encoding : Option String) : String :=
  options.declaration encoding ++ options.line 0 ++ ("<!--" ++ generatorNote ++ "-->") ++
    options.line 0 ++ ("<" ++ options.tagName options.root)

def Options.documentText (options : Options) (encoding : Option String)
    (files : List (String × ByteArray)) : String :=
  options.headText encoding ++ options.declarations ++
    if files = [] then " />"
    else ">" ++ (files.map fun file => options.fileText file.1 file.2).foldr (· ++ ·) "" ++
      options.line 0 ++ ("</" ++ options.tagName options.root ++ ">")

variable {options : Options} {draft : Draft}

/-! ## Payloads -/

def Options.fed (options : Options) (draft : Draft) (bytes : List UInt8) : Draft :=
  { draft.behindTag.enterText .content with
    carry := if options.hexadecimal then draft.carry else (draft.carry.feed bytes).2
    unflushed := if options.hexadecimal then draft.unflushed else true }

/-- The text of bytes of a file, as far as it can be written. -/
def Options.fedText (options : Options) (draft : Draft) (bytes : List UInt8) : String :=
  draft.tagEnd ++ String.ofList (if options.hexadecimal then Hexadecimal.encode bytes
    else (draft.carry.feed bytes).1)

theorem fed_phase (options : Options) (draft : Draft) (bytes : List UInt8) :
    (options.fed draft bytes).phase = .content := draft.behindTag.enterText_phase .content

theorem enterText_enterText (draft : Draft) :
    (draft.enterText .content).enterText .content = draft.enterText .content := by
  simp only [Draft.enterText, if_true, Draft.markMixed, Draft.enter, Draft.modifyTop,
    ElementStack.modifyTop_modifyTop]
  rfl

theorem behindTag_of_phase {phase : Phase} (is : draft.phase = phase) (other : phase ≠ .element) :
    draft.behindTag = draft := if_neg (by rwa [is])

theorem tagEnd_of_phase {phase : Phase} (is : draft.phase = phase) (other : phase ≠ .element) :
    draft.tagEnd = "" := if_neg (by rwa [is])

theorem fed_append (options : Options) (draft : Draft) (bytes more : List UInt8) :
    options.fed (options.fed draft bytes) more = options.fed draft (bytes ++ more) := by
  have behind := behindTag_of_phase (fed_phase options draft bytes) (by decide)
  have again : (options.fed draft bytes).enterText .content = options.fed draft bytes := by
    have twice := enterText_enterText draft.behindTag
    simp only [Draft.enterText, if_true] at twice ⊢
    exact congrArg (fun again : Draft =>
      { again with carry := (options.fed draft bytes).carry,
                   unflushed := (options.fed draft bytes).unflushed }) twice
  rw [Options.fed, behind, again]
  unfold Options.fed
  cases options.hexadecimal <;> simp [Base64.feed_append]

theorem fedText_append (options : Options) (draft : Draft) (bytes more : List UInt8) :
    options.fedText draft bytes ++ options.fedText (options.fed draft bytes) more =
      options.fedText draft (bytes ++ more) := by
  simp only [Options.fedText, tagEnd_of_phase (fed_phase options draft bytes) (by decide)]
  unfold Options.fed
  cases options.hexadecimal <;>
    simp [Base64.feed_append, Hexadecimal.encode, String.append_assoc]

variable {before after : Writer}

theorem payload_comes {chunk : ByteArray} {nothing : Unit} (sound : before.Sound)
    (inside : before.phase = .element ∨ before.phase = .content)
    (noSpecial : before.special = none)
    (paid : options.hexadecimal = true → before.payload = none)
    (ok : Writer.perform (options.payload chunk) before = .ok nothing after) :
    before.Comes (options.fedText before.draft chunk.data.toList)
      (options.fed before.draft chunk.data.toList) after := by
  unfold Options.fedText Options.fed
  cases hexadecimal : options.hexadecimal with
  | true =>
      simp only [Options.payload, hexadecimal, if_true] at ok
      have comes := Writer.putHexadecimal_comes sound inside (paid hexadecimal) noSpecial
        (Writer.guarded_ok ok).2
      have frames := before.draft.frames_behindTag
      have same : { before.draft.behindTag.enterText .content with
          carry := before.draft.carry, unflushed := before.draft.unflushed } =
            before.draft.behindTag.enterText .content := by
        rw [← frames.carry, ← frames.unflushed]
        rfl
      simp only [if_true]
      rwa [same]
  | false =>
      simp only [Options.payload, hexadecimal, Bool.false_eq_true, if_false] at ok
      exact Writer.putBase64_comes sound inside noSpecial (Writer.guarded_ok ok).2

theorem forM_payload_comes {chunks : List ByteArray} {nothing : PUnit} (sound : before.Sound)
    (inside : before.phase = .element ∨ before.phase = .content)
    (noSpecial : before.special = none)
    (paid : options.hexadecimal = true → before.payload = none) (some_ : chunks ≠ [])
    (ok : (chunks.map options.payload).forM Writer.perform before = .ok nothing after) :
    before.Comes
      (options.fedText before.draft (chunks.flatMap fun chunk => chunk.data.toList))
      (options.fed before.draft (chunks.flatMap fun chunk => chunk.data.toList)) after := by
  induction chunks generalizing before with
  | nil => exact absurd rfl some_
  | cons chunk rest induction =>
      simp only [List.map_cons, List.forM, bind_eq_ok] at ok
      rcases ok with ⟨_, middle, first, ok⟩
      have comes := payload_comes sound inside noSpecial paid first
      cases rest with
      | nil =>
          simp only [List.map_nil, List.forM, pure_eq_ok] at ok
          rw [ok.2] at comes
          simpa using comes
      | cons next rest =>
          have phase : middle.phase = .content :=
            (congrArg Draft.phase comes.draft).trans (fed_phase _ _ _)
          have special : middle.special = none := by
            rw [← Writer.draft_special, comes.draft]
            exact ((Draft.enterText_special _ _).trans before.draft.frames_behindTag.special).trans
              noSpecial
          have paid (hexadecimal : options.hexadecimal = true) : middle.payload = none := by
            rw [← paid hexadecimal]
            refine Writer.payload_congr ?_ ?_
            · rw [← Writer.draft_carry, comes.draft, Options.fed]
              simp [hexadecimal]
            · rw [← Writer.draft_unflushed, comes.draft, Options.fed]
              simp [hexadecimal]
          have later := induction comes.sound (.inr phase) special paid (by simp) ok
          rw [comes.draft] at later
          have whole := comes.trans later
          rw [fed_append, fedText_append] at whole
          exact whole

/-! ## Files -/

/-- A draft in the root element, where the elements of files are put. -/
structure Options.Inside (options : Options) (draft : Draft) : Prop where
  settings : draft.settings = options.settings
  phase : draft.phase = .content
  single : draft.depth = 1
  notMixed : draft.top.mixed = false
  name : draft.top.name = options.root
  nsPrefix : draft.top.nsPrefix = options.elementPrefix
  noPayload : draft.payload = none
  carried : draft.Carried
  noSpecial : draft.special = none
  settled : options.Settled draft

theorem lineBefore_eq (settings : draft.settings = options.settings) (beforeEnd : Bool)
    (inside : 0 < draft.depth) (notMixed : draft.top.mixed = false)
    (outer : (if beforeEnd then draft.depth - 1 else draft.depth) ≤ 1) :
    draft.lineBefore beforeEnd =
      options.line (if beforeEnd then draft.depth - 1 else draft.depth) := by
  have nonzero : draft.depth ≠ 0 := by omega
  cases indents : options.indentation.isSome <;>
    simp [Draft.lineBefore, Draft.lineText, Options.line, settings, Options.settings,
      Settings.indents, indents, nonzero, notMixed, Width.times_of_le_one outer]

theorem lineBefore_of_outside (settings : draft.settings = options.settings)
    (outside : draft.depth = 0) : draft.lineBefore false = options.line 0 := by
  cases indents : options.indentation.isSome <;>
    simp [Draft.lineBefore, Draft.lineText, Options.line, settings, Options.settings,
      Settings.indents, indents, outside]

structure Options.Opens (options : Options) (name : String) (draft next : Draft) : Prop where
  phase : next.phase = .element
  settings : next.settings = draft.settings
  noPayload : next.payload = none
  carried : next.Carried
  noSpecial : next.special = none
  depth : next.depth = draft.depth + 1
  mode : next.mode = draft.mode
  mixed : next.top.mixed = draft.top.mixed
  name : next.top.name = name
  nsPrefix : next.top.nsPrefix = options.elementPrefix
  owesNothing : next.settle = next
  noText : next.owedText = ""
  pop : (next.enterText .content).pop = draft.enter .content ∧ next.pop = draft.enter .element

theorem opens_of_names (inside : options.Inside draft) {name : String} {nsPrefix : Option String}
    {found : Draft}
    (names : (draft.push.enter .element).NamesElement (options.elementNamed name) nsPrefix found) :
    options.Opens name draft
      (found.modifyTop fun element => { element with name, nsPrefix }) := by
  have enabled : draft.settings.namespaces = true := by rw [inside.settings]; rfl
  rcases owes_nothing_of_settled enabled inside.settled names with ⟨rfl, noDefault, change, kept, rfl⟩
  let naming : OpenElement → OpenElement :=
    fun element => { element with name, nsPrefix := options.elementPrefix }
  have whole : ((draft.push.enter .element).modifyTop change).modifyTop naming =
      (draft.push.enter .element).modifyTop (naming ∘ change) := by
    rw [Draft.modifyTop, Draft.modifyTop, Draft.modifyTop, ElementStack.modifyTop_modifyTop]
  have owes : (((draft.push.enter .element).modifyTop change).modifyTop naming).owesDefault = _ :=
    Writer.owesDefault_modifyTop _ rfl rfl
  rw [noDefault] at owes
  have top : (((draft.push.enter .element).modifyTop change).modifyTop naming).top =
      naming (change draft.push.top) := by
    rw [whole, Draft.top_modifyTop]
    rfl
  have nothing : (((draft.push.enter .element).modifyTop change).modifyTop naming).scope.owed
      (((draft.push.enter .element).modifyTop change).modifyTop naming).top.bindingMark = [] := by
    rw [top, show (naming (change draft.push.top)).bindingMark = draft.scope.length from
      (kept draft.push.top).bindingMark]
    exact draft.scope.owed_length
  have marks (element : OpenElement) : ((naming ∘ change) element).bindingMark =
      element.bindingMark := (kept element).bindingMark
  refine
    { phase := rfl
      settings := rfl
      noPayload := inside.noPayload
      carried := inside.carried
      noSpecial := inside.noSpecial
      depth := ?_
      mode := rfl
      mixed := ?_
      name := by rw [top]
      nsPrefix := by rw [top]
      owesNothing := Draft.settle_eq_self nothing owes
      noText := Draft.owedText_eq_empty nothing owes
      pop := ?_ }
  · rw [Draft.depth_modifyTop, Draft.depth_modifyTop]
    exact draft.depth_push
  · rw [top]
    exact (kept draft.push.top).mixed
  · rw [whole]
    refine ⟨?_, draft.pop_modifyTop_push .element marks⟩
    have text : ((draft.push.enter .element).modifyTop (naming ∘ change)).enterText .content =
        (draft.push.enter .content).modifyTop
          ((fun element => { element with mixed := true }) ∘ naming ∘ change) := by
      simp only [Draft.enterText, if_true, Draft.markMixed, Draft.enter, Draft.modifyTop,
        ElementStack.modifyTop_modifyTop]
    rw [text]
    exact draft.pop_modifyTop_push .content marks

theorem forM_perform_append {calls more : List Call} {nothing : PUnit} :
    (calls ++ more).forM Writer.perform before = .ok nothing after ↔
      ∃ middle, calls.forM Writer.perform before = .ok () middle ∧
        more.forM Writer.perform middle = .ok () after := by
  rw [show (calls ++ more).forM Writer.perform =
    (calls.forM Writer.perform >>= fun _ => more.forM Writer.perform) from List.forM_append]
  rw [bind_eq_ok]
  constructor
  · rintro ⟨_, middle, first, rest⟩
    exact ⟨middle, first, rest⟩
  · rintro ⟨middle, first, rest⟩
    exact ⟨_, middle, first, rest⟩

theorem fedText_payloadEnd (options : Options) (carried : draft.Carried)
    (noPayload : draft.payload = none) (bytes : List UInt8) :
    options.fedText draft bytes ++ (options.fed draft bytes).payloadEnd =
      draft.tagEnd ++ options.payloadText bytes := by
  have paid := Draft.payload_eq_none.mp noPayload
  have empty := carried.carry_eq_empty noPayload
  unfold Options.fedText Options.fed Options.payloadText
  cases hexadecimal : options.hexadecimal with
  | true =>
      rw [Draft.payloadEnd_of_paid (by simpa using paid)]
      simp
  | false =>
      rw [Draft.payloadEnd_of_unflushed (by simp)]
      simp [empty, Base64.encode, String.append_assoc]

theorem Options.Inside.restored (inside : options.Inside draft) :
    (draft.enter .content).endPayload = draft := by
  rw [Draft.endPayload, ← inside.phase, ← Draft.payload_eq_none.mp inside.noPayload,
    ← inside.carried.carry_eq_empty inside.noPayload]
  rfl

theorem Options.Opens.phaseAfterElement {element : String} {next : Draft}
    (opens : options.Opens element draft next) (inside : options.Inside draft) :
    next.phaseAfterElement = .content := by
  simp [Draft.phaseAfterElement, opens.depth, inside.single]

theorem Options.Opens.tagEnd {element : String} {next : Draft}
    (opens : options.Opens element draft next) : next.tagEnd = ">" ∧ next.behindTag = next := by
  rw [Draft.tagEnd, Draft.behindTag, if_pos opens.phase, if_pos opens.phase, opens.noText,
    opens.owesNothing]
  exact ⟨rfl, rfl⟩

theorem emptyEnd_comes {element : String} {nothing : Unit} (inside : options.Inside draft)
    (opens : options.Opens element draft before.draft) (sound : before.Sound)
    (ok : Writer.perform .fullEndElement before = .ok nothing after) :
    before.Comes (">" ++ options.line 1 ++ ("</" ++ options.tagName element ++ ">")) draft after := by
  have comes := Writer.closeElement_comes sound.bindings opens.carried (.inl opens.phase)
    opens.noSpecial (Writer.guarded_ok ok).2
  have deeper : before.draft.depth = 2 := by rw [opens.depth, inside.single]
  have noEnd : before.draft.payloadEnd = "" := by
    rw [Draft.payloadEnd, opens.noPayload]
    rfl
  have line := lineBefore_eq (opens.settings.trans inside.settings) true (by omega)
    (opens.mixed.trans inside.notMixed) (by simp [deeper])
  rw [opens.phaseAfterElement inside, noEnd, Draft.elementEnd, if_neg (by simp), opens.tagEnd.1,
    opens.tagEnd.2, line, deeper, opens.name, opens.nsPrefix, opens.pop.2,
    String.empty_append] at comes
  rw [← inside.restored]
  exact comes

theorem payloadEnd_comes {element : String} {bytes : List UInt8} {opened : Draft} {nothing : Unit}
    (inside : options.Inside draft) (opens : options.Opens element draft opened)
    (here : before.draft = options.fed opened bytes) (sound : before.Sound)
    (ok : Writer.perform .fullEndElement before = .ok nothing after) :
    before.Comes ((options.fed opened bytes).payloadEnd ++ ("</" ++ options.tagName element ++ ">"))
      draft after := by
  have phase := fed_phase options opened bytes
  have special : before.special = none := by
    rw [← Writer.draft_special, here]
    exact ((Draft.enterText_special _ _).trans opened.frames_behindTag.special).trans opens.noSpecial
  have carried : (options.fed opened bytes).Carried := by
    intro some_
    unfold Options.fed at some_ ⊢
    cases hexadecimal : options.hexadecimal with
    | true => exact opens.carried (by simpa [hexadecimal] using some_)
    | false => rfl
  have comes := Writer.closeElement_comes sound.bindings (here ▸ carried)
    (.inr (by rw [← Writer.draft_phase, here, phase])) special (Writer.guarded_ok ok).2
  have text : (options.fed opened bytes).top =
      { opened.top with mixed := true } := by
    rw [show (options.fed opened bytes).top = (opened.behindTag.enterText .content).top from rfl,
      opens.tagEnd.2]
    simp [Draft.enterText, Draft.markMixed]
  have deeper : (options.fed opened bytes).depth = 2 := by
    rw [show (options.fed opened bytes).depth = (opened.behindTag.enterText .content).depth from rfl,
      Draft.enterText_depth, opens.tagEnd.2, opens.depth, inside.single]
  have noLine : (options.fed opened bytes).lineBefore true = "" := by
    simp [Draft.lineBefore, deeper, text]
  have next : (options.fed opened bytes).phaseAfterElement = .content := by
    simp [Draft.phaseAfterElement, deeper]
  have pop : ((options.fed opened bytes).pop.enter .content).endPayload =
      (draft.enter .content).endPayload := by
    rw [← opens.pop.1, Options.fed, opens.tagEnd.2]
    rfl
  rw [here, next, Draft.elementEnd, if_neg (by simp), tagEnd_of_phase phase (by decide),
    behindTag_of_phase phase (by decide), noLine, text, opens.name, opens.nsPrefix, pop, inside.restored,
    String.empty_append, String.empty_append] at comes
  exact comes

theorem attribute_comes {element name value : String} {nothing : Unit}
    (settings : draft.settings = options.settings)
    (opens : options.Opens element draft before.draft) (sound : before.Sound)
    (ordinary : name ≠ "xmlns")
    (ok : Writer.perform (.attributeString { localName := name } value) before = .ok nothing after) :
    before.Comes (options.attribute name value) before.draft after := by
  have same : before.settings = options.settings := opens.settings.trans settings
  have comes := Writer.attributeString_comes opens.phase sound.bindings (by rw [same]; rfl)
    opens.noPayload opens.noSpecial ordinary ok
  rwa [same] at comes

def Options.tagText (options : Options) (path : String) (size : Nat) : String :=
  options.line 1 ++ ("<" ++ options.tagName "file") ++
    options.attribute "name" ((lastName? path).getD path) ++
    options.attribute "size" (toString size) ++
    options.attribute "encoding" (if options.hexadecimal then "hex" else "base64")

theorem tag_comes {path : String} {size : Nat} {nothing : PUnit}
    (phases : before.phase = .element ∨ before.phase = .content)
    (here : before.draft.behindTag.enter .content = draft) (inside : options.Inside draft)
    (sound : before.Sound)
    (ok : (options.tagCalls path size).forM Writer.perform before = .ok nothing after) :
    before.Comes (before.draft.tagEnd ++ options.tagText path size) after.draft after ∧
      options.Opens "file" draft after.draft := by
  simp only [Options.tagCalls, List.forM, bind_eq_ok, pure_eq_ok] at ok
  rcases ok with ⟨_, opened, opens, _, named, names, _, sized, sizes, _, _, encodes, _, rfl⟩
  have noPayload : before.payload = none := by
    rw [← Writer.draft_payload, ← before.draft.frames_behindTag.payload]
    exact (congrArg Draft.payload here).trans inside.noPayload
  rcases Writer.openElement_comes sound noPayload
    (by rcases phases with phase | phase <;> simp [phase])
    (by rcases phases with phase | phase <;> simp [phase]) (Writer.guarded_ok opens).2 with
    ⟨nsPrefix, found, naming, comes⟩
  rw [show before.draft.behindTag.push.enter .element =
      (before.draft.behindTag.enter .content).push.enter .element from rfl, here] at naming
  rw [show before.draft.behindTag.lineBefore false =
      (before.draft.behindTag.enter .content).lineBefore false from rfl, here,
    lineBefore_eq inside.settings false (by simp [inside.single]) inside.notMixed
      (by simp [inside.single]), inside.single] at comes
  have tag : options.Opens "file" draft opened.draft := by
    rw [comes.draft]
    exact opens_of_names inside naming
  have prefixed : nsPrefix = options.elementPrefix := by
    have enabled : draft.settings.namespaces = true := by rw [inside.settings]; rfl
    exact (owes_nothing_of_settled enabled inside.settled naming).1
  rw [← comes.draft, prefixed] at comes
  have starts : before.Comes (before.draft.tagEnd ++ options.line 1 ++
      ("<" ++ options.tagName "file")) opened.draft opened := comes
  -- The attributes leave the draft as it is.
  have first := attribute_comes inside.settings tag comes.sound (by decide) names
  rw [← first.draft] at tag
  have second := attribute_comes inside.settings tag first.sound (by decide) sizes
  rw [← second.draft] at tag
  have third := attribute_comes inside.settings tag second.sound (by decide) encodes
  rw [← third.draft] at tag
  have whole := ((starts.trans first).trans second).trans third
  rw [← third.draft] at whole
  exact ⟨by simpa [Options.tagText, String.append_assoc] using whole, tag⟩

theorem file_comes {arrival : Arrival} {nothing : PUnit}
    (phases : before.phase = .element ∨ before.phase = .content)
    (here : before.draft.behindTag.enter .content = draft) (inside : options.Inside draft)
    (sound : before.Sound)
    (ok : (options.fileCalls arrival).forM Writer.perform before = .ok nothing after) :
    before.Comes (before.draft.tagEnd ++ options.fileText arrival.path arrival.content) draft
      after := by
  rw [Options.fileCalls, forM_perform_append] at ok
  rcases ok with ⟨filled, ok, last⟩
  rw [forM_perform_append] at ok
  rcases ok with ⟨tagged, first, payload⟩
  simp only [List.forM, bind_eq_ok, pure_eq_ok] at last
  rcases last with ⟨_, _, ends, _, rfl⟩
  rcases tag_comes phases here inside sound first with ⟨start, tag⟩
  by_cases none : arrival.chunks = []
  · have empty := arrival.chunks_eq_nil.mp none
    rw [none] at payload
    simp only [List.map_nil, List.forM, pure_eq_ok, true_and] at payload
    subst payload
    have whole := start.trans (emptyEnd_comes inside tag start.sound ends)
    simpa [Options.fileText, Options.tagText, empty, String.append_assoc] using whole
  · have notEmpty := arrival.chunks_eq_nil.not.mp none
    have fills := forM_payload_comes start.sound (.inl tag.phase) tag.noSpecial
      (fun _ => tag.noPayload) none payload
    rw [arrival.whole] at fills
    have ended := payloadEnd_comes inside tag fills.draft fills.sound ends
    have filling := fills.trans ended
    rw [← String.append_assoc, fedText_payloadEnd options tag.carried tag.noPayload, tag.tagEnd.1] at filling
    have whole := start.trans filling
    simpa [Options.fileText, Options.tagText, notEmpty, String.append_assoc] using whole

theorem files_come {arrivals : List Arrival} {nothing : PUnit}
    (inside : options.Inside before.draft) (sound : before.Sound)
    (ok : (arrivals.flatMap options.fileCalls).forM Writer.perform before = .ok nothing after) :
    before.Comes ((arrivals.map fun arrival =>
      options.fileText arrival.path arrival.content).foldr (· ++ ·) "") before.draft after := by
  induction arrivals generalizing before with
  | nil =>
      simp only [List.flatMap_nil, List.forM, pure_eq_ok, true_and] at ok
      subst ok
      exact ⟨.refl _, rfl, sound⟩
  | cons arrival rest induction =>
      rw [List.flatMap_cons, forM_perform_append] at ok
      rcases ok with ⟨middle, first, ok⟩
      have here : before.draft.behindTag.enter .content = before.draft := by
        rw [behindTag_of_phase inside.phase (by decide), ← inside.phase]
        rfl
      have comes := file_comes (.inr inside.phase) here inside sound first
      rw [tagEnd_of_phase inside.phase (by decide), String.empty_append] at comes
      have later := induction (by rwa [comes.draft]) comes.sound ok
      rw [comes.draft] at later
      exact comes.trans later

/-! ## Documents -/

structure Options.Rooted (options : Options) (draft : Draft) : Prop where
  phase : draft.phase = .element
  single : draft.depth = 1
  noPayload : draft.payload = none
  carried : draft.Carried
  noSpecial : draft.special = none
  owed : draft.owedText = options.declarations
  inside : options.Inside (draft.settle.enter .content)

structure Options.Heads (options : Options) (draft : Draft) : Prop where
  settings : draft.settings = options.settings
  phase : draft.phase = .prolog
  elements : draft.elements = {}
  bare : draft.scope = Scope.bare
  noPayload : draft.payload = none
  carried : draft.Carried
  noSpecial : draft.special = none

theorem rooted_of_names (heads : options.Heads draft) {nsPrefix : Option String} {found : Draft}
    (names : (draft.push.enter .element).NamesElement (options.elementNamed options.root) nsPrefix
      found) :
    nsPrefix = options.elementPrefix ∧ options.Rooted
      (found.modifyTop fun element => { element with name := options.root, nsPrefix }) := by
  have enabled : (draft.push.enter .element).settings.namespaces = true := by
    rw [show (draft.push.enter .element).settings = draft.settings from rfl, heads.settings]
    rfl
  rcases roots_of_names enabled heads.bare names with ⟨rfl, roots⟩
  have roots : options.Roots (draft.enter .element).push found := roots
  let naming : OpenElement → OpenElement :=
    fun element => { element with name := options.root, nsPrefix := options.elementPrefix }
  have frames := names.frames (draft.depth_push_pos .element)
  have outside : draft.top = {} := by
    rw [Draft.top, heads.elements]
    rfl
  have single : (draft.push.enter .element).depth = 1 := by
    rw [show (draft.push.enter .element).depth = draft.push.depth from rfl, draft.depth_push,
      Draft.depth, heads.elements]
    rfl
  have opened : (draft.push.enter .element).Carried := heads.carried
  have carried := opened.frames frames
  have settled := (found.modifyTop naming).frames_settle
  have owed : (found.modifyTop naming).owedText = found.owedText := by
    have owes : (found.modifyTop naming).owesDefault = found.owesDefault :=
      Writer.owesDefault_modifyTop _ rfl rfl
    simp only [Draft.owedText, owes, Draft.top_modifyTop]
    rfl
  refine ⟨rfl, ?_⟩
  exact
    { phase := frames.phase
      single := (Draft.depth_modifyTop _ _).trans (frames.depth.trans single)
      noPayload := frames.payload.trans heads.noPayload
      carried := carried
      noSpecial := frames.special.trans heads.noSpecial
      owed := owed.trans (roots.owedText heads.settings heads.bare (by simp [outside]))
      inside :=
        { settings := settled.settings.trans (frames.settings.trans heads.settings)
          phase := rfl
          single := settled.depth.trans
            ((Draft.depth_modifyTop _ _).trans (frames.depth.trans single))
          notMixed := by
            refine settled.top.mixed.trans ?_
            rw [Draft.top_modifyTop]
            refine frames.top.mixed.trans ?_
            rw [show (draft.push.enter .element).top.mixed = draft.top.mixed from rfl, outside]
          name := by
            refine settled.top.name.trans ?_
            rw [Draft.top_modifyTop]
          nsPrefix := by
            refine settled.top.nsPrefix.trans ?_
            rw [Draft.top_modifyTop]
          noPayload := settled.payload.trans (frames.payload.trans heads.noPayload)
          carried := by
            have naming : (found.modifyTop naming).Carried := carried
            have closed := naming.frames settled
            exact closed
          noSpecial := settled.special.trans (frames.special.trans heads.noSpecial)
          settled := by
            refine roots.settled heads.bare ?_ ?_ .content <;> exact fun _ => rfl } }

theorem xmlDeclaration_eq (settings : draft.settings = options.settings)
    (encoding : Option String) :
    draft.xmlDeclaration encoding (if options.standalone then some true else none) =
      options.declaration encoding := by
  cases standalone : options.standalone <;>
    simp [Draft.xmlDeclaration, Options.declaration, settings, standalone]

theorem scope_initial : Bindings.initial.scope = Scope.bare := by decide +kernel

theorem opening_comes {encoder : Option Encoder} {nothing : PUnit}
    (ok : options.openingCalls.forM Writer.perform (options.writer encoder) = .ok nothing after) :
    options.Rooted after.draft ∧ after.Sound ∧
      (options.writer encoder).output.Extends
        (options.headText ((options.writer encoder).output.encoding?)) after.output := by
  simp only [Options.openingCalls, List.forM, bind_eq_ok, pure_eq_ok] at ok
  rcases ok with ⟨_, begun, begins, _, noted, notes, _, _, opens, _, rfl⟩
  have ready := Writer.ready_create { sink := {}, encoder } options.settings
  have first := Writer.beginDocument_comes ready.sound.bindings (Writer.guarded_ok begins).2
  have phase : begun.draft.phase = .prolog := congrArg Draft.phase first.draft
  have mode : begun.mode = .document := congrArg Draft.mode first.draft
  have payload : begun.payload = none := congrArg Draft.payload first.draft
  have special : begun.special = none := congrArg Draft.special first.draft
  have settings : begun.draft.settings = options.settings := congrArg Draft.settings first.draft
  have outside : begun.draft.depth = 0 := congrArg Draft.depth first.draft
  have notInTag : begun.phase ≠ .attribute ∧ begun.phase ≠ .start := by
    rw [← Writer.draft_phase, phase]
    decide
  rcases Writer.putComment_comes first.sound payload special notInTag.1 notInTag.2
    (Writer.guarded_ok notes).2 with ⟨second, leads⟩
  have next : noted.phase = .prolog := by
    rw [← begun.draft_phase, phase, mode] at leads
    exact (Option.some.inj leads).symm
  rw [behindTag_of_phase phase (by decide), tagEnd_of_phase phase (by decide), String.empty_append,
    next, lineBefore_of_outside settings outside] at second
  -- The root element.
  have heads : options.Heads noted.draft := by
    rw [second.draft, first.draft]
    exact ⟨rfl, rfl, rfl, scope_initial, rfl, fun some => absurd rfl some, rfl⟩
  have outside : noted.draft.depth = 0 := by rw [Draft.depth, heads.elements]; rfl
  have notInTag : noted.phase ≠ .attribute ∧ noted.phase ≠ .start := by
    rw [← Writer.draft_phase, heads.phase]
    decide
  rcases Writer.openElement_comes second.sound heads.noPayload notInTag.1 notInTag.2
    (Writer.guarded_ok opens).2 with ⟨nsPrefix, found, naming, third⟩
  rw [behindTag_of_phase heads.phase (by decide)] at naming third
  rw [tagEnd_of_phase heads.phase (by decide), String.empty_append,
    lineBefore_of_outside heads.settings outside] at third
  rcases rooted_of_names heads naming with ⟨rfl, rooted⟩
  refine ⟨third.draft ▸ rooted, third.sound, ?_⟩
  have whole := (first.output.trans second.output).trans third.output
  rw [show (Writer.create { sink := {}, encoder } options.settings) = options.writer encoder from rfl,
    xmlDeclaration_eq (by rfl)] at whole
  rw [Options.headText, Options.tagName]
  simpa [Options.elementNamed, String.append_assoc] using whole

/-- The text of a document that has been written to its end. -/
theorem document_comes {encoder : Option Encoder} {arrivals : List Arrival} {opened filled : Writer}
    {nothing : Unit}
    (opens : options.openingCalls.forM Writer.perform (options.writer encoder) = .ok () opened)
    (fills : (arrivals.flatMap options.fileCalls).forM Writer.perform opened = .ok () filled)
    (ends : Writer.perform .endDocument filled = .ok nothing after) :
    (options.writer encoder).output.Extends
      (options.documentText ((options.writer encoder).output.encoding?)
        (arrivals.map fun arrival => (arrival.path, arrival.content))) after.output := by
  rcases opening_comes opens with ⟨rooted, sound, head⟩
  cases arrivals with
  | nil =>
      simp only [List.flatMap_nil, List.forM, pure_eq_ok, true_and] at fills
      subst fills
      have last := Writer.finishDocument_comes sound.bindings rooted.carried (.inl rooted.phase)
        rooted.single rooted.noPayload rooted.noSpecial (Writer.guarded_ok ends).2
      rw [Draft.elementEnd, if_pos ⟨rooted.phase, rfl⟩, rooted.owed] at last
      have whole := head.trans last
      simpa [Options.documentText, String.append_assoc] using whole
  | cons arrival rest =>
      rw [List.flatMap_cons, forM_perform_append] at fills
      rcases fills with ⟨middle, first, fills⟩
      have here : opened.draft.behindTag.enter .content = opened.draft.settle.enter .content := by
        rw [Draft.behindTag, if_pos rooted.phase]
      have comes := file_comes (.inl rooted.phase) here rooted.inside sound first
      rw [Draft.tagEnd, if_pos rooted.phase, rooted.owed] at comes
      have inside : options.Inside middle.draft := by
        rw [comes.draft]
        exact rooted.inside
      have more := files_come inside comes.sound fills
      have insideStill : options.Inside filled.draft := by rwa [more.draft]
      have last := Writer.finishDocument_comes more.sound.bindings insideStill.carried
        (.inr insideStill.phase) insideStill.single insideStill.noPayload insideStill.noSpecial (Writer.guarded_ok ends).2
      have line := lineBefore_eq insideStill.settings true (by simp [insideStill.single])
        insideStill.notMixed (by simp [insideStill.single])
      have notInTag : filled.draft.phase ≠ .element := by
        rw [insideStill.phase]
        decide
      rw [Draft.elementEnd, if_neg fun both => notInTag both.1,
        tagEnd_of_phase insideStill.phase (by decide),
        behindTag_of_phase insideStill.phase (by decide), line, insideStill.name,
        insideStill.nsPrefix, insideStill.single] at last
      have whole := ((head.trans comes.output).trans more.output).trans last
      simpa [Options.documentText, Options.tagName, String.append_assoc, Function.comp_def] using whole

end Wrap

end XmlStream
