import XmlStream.Proofs.Grammar.Documents
import XmlStream.Proofs.Output.Alongside
import XmlStream.Proofs.Reading.Following

namespace XmlStream

/-! A writer whose output is in a character set beside one without an encoder. A reader is told
the same by both, as long as what the set lacks stands in text and in attribute values only,
where references to characters may stand. -/

open Charset Grammar Reading

namespace Reading

/-- The same item, or two declarations of a document of which only the second one names the
encoding. -/
inductive Alike (charset : Charset) : Item → Item → Prop
  | same (item : Item) : Alike charset item item
  | declaration (quote : Quote) (standing : List Char) :
      Alike charset (.instruction "xml".toList (versionText quote ++ standing))
        (.instruction "xml".toList (versionText quote ++
          (Draft.declarationPart quote "encoding" charset.name).toList ++ standing))

def Item.declares : Item → Bool
  | .instruction target _ => target = "xml".toList
  | _ => false

/-- A reader is told alike by two texts. It has come to the same place in both, where nothing
has been wrong. -/
structure ReadAlike (charset : Charset) (text textToo : List Char) : Prop where
  items : List.Forall₂ (Alike charset) (read (.text .content) text).2
    (read (.text .content) textToo).2
  place : (read (.text .content) textToo).1 = (read (.text .content) text).1
  wellFormed : (read (.text .content) text).1 ≠ .broken

variable {charset : Charset} {text textToo more : List Char} {Holds : Place → Prop}

theorem alike_refl (items : List Item) : List.Forall₂ (Alike charset) items items := by
  induction items with
  | nil => exact .nil
  | cons item rest induction => exact .cons (.same item) induction

theorem Alike.eq {item itemToo : Item} (alike : Alike charset item itemToo)
    (plain : item.declares = false) : itemToo = item := by
  cases alike with
  | same => rfl
  | declaration => simp [Item.declares] at plain

theorem ReadAlike.eq (alike : ReadAlike charset text textToo)
    (plain : ∀ item ∈ (read (.text .content) text).2, item.declares = false) :
    read (.text .content) textToo = read (.text .content) text := by
  have same {items itemsToo : List Item} (alike : List.Forall₂ (Alike charset) items itemsToo)
      (plain : ∀ item ∈ items, item.declares = false) : itemsToo = items := by
    induction alike with
    | nil => rfl
    | cons first rest induction =>
        rw [first.eq (plain _ List.mem_cons_self),
          induction fun item member => plain item (List.mem_cons_of_mem _ member)]
  exact Prod.ext alike.place (same alike.items plain)

theorem ReadAlike.append (alike : ReadAlike charset text textToo)
    (carries : Carries charset (read (.text .content) text).1 more Holds)
    (wellFormed : ∀ place, Holds place → place ≠ .broken) :
    ReadAlike charset (text ++ more) (textToo ++ more.flatMap charset.shown) where
  items := by
    rw [read_append, read_append, alike.place, carries.same]
    exact List.rel_append alike.items (alike_refl _)
  place := by rw [read_append, read_append, alike.place, carries.same]
  wellFormed := by
    rw [read_append]
    exact wellFormed _ carries.leads

theorem ReadAlike.trans {rest restToo : List Char} (alike : ReadAlike charset text textToo)
    (later : ReadAlike charset rest restToo)
    (between : (read (.text .content) text).1 = .text .content) :
    ReadAlike charset (text ++ rest) (textToo ++ restToo) where
  items := by
    rw [read_append, read_append, alike.place, between]
    exact List.rel_append alike.items later.items
  place := by rw [read_append, read_append, alike.place, between, later.place]
  wellFormed := by
    rw [read_append, between]
    exact later.wellFormed

end Reading

namespace Draft

variable {charset : Charset} {draft : Draft}

theorem readAlike_xmlDeclaration (charset : Charset) (standalone : Option Bool) :
    ReadAlike charset (draft.xmlDeclaration none standalone).toList
        ((draft.xmlDeclaration (some charset.name) standalone).toList.flatMap charset.shown) ∧
      (read (.text .content) (draft.xmlDeclaration none standalone).toList).1 = .text .content := by
  have plain := @read_xmlDeclaration draft none (by simp) standalone
  have named : ∀ name, some charset.name = some name → ∃ charset : Charset, name = charset.name := by
    rintro name ⟨⟩
    exact ⟨charset, rfl⟩
  have full := @read_xmlDeclaration draft _ named standalone
  have common := @isCommon_of_mem_xmlDeclaration draft _ named standalone
  rw [flatMap_shown_of_has fun character member => (common character member).has]
  refine ⟨⟨?_, ?_, ?_⟩, ?_⟩
  · rw [plain, full]
    simp only [declaredText, Option.map_none, Option.map_some, Option.getD_none, Option.getD_some,
      String.toList_empty, List.nil_append]
    rw [← List.append_assoc]
    exact .cons (.declaration _ _) .nil
  · rw [plain, full]
  · rw [plain]
    simp
  · rw [plain]

theorem Legible.ne_broken {place : Place} (legible : draft.Legible charset place) :
    place ≠ .broken := by
  have stands := legible.stands
  rintro rfl
  cases phase : draft.phase <;> rw [phase] at stands
  case element =>
    rcases stands with ⟨tag, inTag⟩
    cases inTag
  all_goals
    rcases stands with ⟨host, impossible, _⟩
    cases impossible

theorem legible_of_start (layered : draft.Layered) (placed : draft.Placed)
    (start : draft.phase = .start) (indent : (Terms.encodable charset).Indents draft.settings.indentChar) :
    draft.Legible charset (.text .content) where
  live := by simp [Live, start]
  stands := by
    rw [start]
    exact inText_content
  placed := placed
  wholesome := wholesome_of_start layered placed start indent
  names := by
    rw [names, (layered.start start).1]
    simp

theorem Legible.xmlDeclaration {place : Place} (legible : draft.Legible charset place)
    (start : draft.phase = .start) (standalone : Option Bool) :
    place = .text .content ∧
      ({ draft with phase := .prolog, mode := .document } : Draft).Legible charset place := by
  have stands := legible.stands
  have between := stands.content (by simp [start]) (by simp [start])
  have step : draft.Step (.xmlDeclaration none standalone) _ _ := .xmlDeclaration none standalone start
  have meets : (Event.xmlDeclaration none standalone).Meets (.encodable charset) := trivial
  refine ⟨between, legible.live.step step, ?_, legible.placed.step step,
    legible.wholesome.step meets step, legible.names⟩
  rw [between]
  exact inText_content

end Draft

namespace Writer

variable {charset : Charset} {first second after : Writer}

/-! ## Calls -/

structure Shadows (charset : Charset) (first second : Writer) : Prop where
  beside : first.Beside second
  ready : first.Ready
  told : ∃ text textToo, ({ sink := {} } : OutputBuffer).Extends text first.output ∧
    ({ sink := {}, encoder := some { charset } } : OutputBuffer).Extends textToo second.output ∧
    ReadAlike charset text.toList (textToo.toList.flatMap charset.shown) ∧
    first.draft.Legible charset (read (.text .content) text.toList).1

theorem encodable_of_own {events own : List Event} (owned : events.filter (!·.completes) = own)
    (encodable : ∀ event ∈ own, event.Encodable charset) :
    ∀ event ∈ events, event.Encodable charset := by
  intro event member
  by_cases completes : event.completes = true
  · exact event.encodable_of_completes completes
  · refine encodable event ?_
    rw [← owned]
    exact List.mem_filter.mpr ⟨member, by simpa using completes⟩

theorem readAlike_path {text textToo more : String} {events : List Event} {draft last : Draft}
    (alike : ReadAlike charset text.toList (textToo.toList.flatMap charset.shown))
    (legible : draft.Legible charset (read (.text .content) text.toList).1)
    (path : draft.Path events more last) (encodable : ∀ event ∈ events, event.Encodable charset) :
    ReadAlike charset (text ++ more).toList ((textToo ++ more).toList.flatMap charset.shown) ∧
      last.Legible charset (read (.text .content) (text ++ more).toList).1 := by
  have carries := legible.path path encodable
  rw [String.toList_append, String.toList_append, List.flatMap_append]
  refine ⟨alike.append carries fun _ => Draft.Legible.ne_broken, ?_⟩
  rw [read_append]
  exact carries.leads

theorem Shadows.startDocument {standalone : Option Bool} {nothing : Unit}
    (shadows : Shadows charset first second)
    (ok : perform (.startDocument standalone) first = .ok nothing after) :
    ∃ afterToo, perform (.startDocument standalone) second = .ok () afterToo ∧
      Shadows charset after afterToo := by
  rcases shadows with ⟨beside, ready, text, textToo, extended, extendedToo, alike, legible⟩
  rcases beside.startDocument ok with
    ⟨afterToo, okToo, still, declared, declaredToo, start, isDraft⟩
  rcases perform_ok ready (by simp) ok with ⟨_, _, does⟩
  have noName : first.output.encoding? = none := by
    simp [OutputBuffer.encoding?, show first.output.encoder = none from extended.encoder]
  have name : second.output.encoding? = some charset.name := by
    have charsetToo := (({ charset } : Encoder).reads_transcribe textToo).charset
    simp [OutputBuffer.encoding?, show second.output.encoder = _ from extendedToo.encoder,
      OutputBuffer.encoded, charsetToo]
  rw [noName] at declared
  rw [name] at declaredToo
  rcases legible.xmlDeclaration start standalone with ⟨between, legibleAfter⟩
  rcases first.draft.readAlike_xmlDeclaration charset standalone with ⟨alikeToo, leads⟩
  refine ⟨afterToo, okToo, still, does.ready ready, _, _, extended.trans declared,
    extendedToo.trans declaredToo, ?_, ?_⟩
  · rw [String.toList_append, String.toList_append, List.flatMap_append]
    exact alike.trans alikeToo between
  · rw [String.toList_append, read_append, between, leads, isDraft]
    rwa [between] at legibleAfter

theorem Shadows.perform {call : Call} {nothing : Unit} (shadows : Shadows charset first second)
    (stays : call ≠ .close) (encodable : call.Encodable charset)
    (ok : perform call first = .ok nothing after) :
    ∃ afterToo, Writer.perform call second = .ok () afterToo ∧ Shadows charset after afterToo := by
  by_cases declares : ∃ standalone, call = .startDocument standalone
  · rcases declares with ⟨standalone, rfl⟩
    exact shadows.startDocument ok
  rcases shadows with ⟨beside, ready, text, textToo, extended, extendedToo, alike, legible⟩
  have undeclared : ∀ standalone, call ≠ .startDocument standalone :=
    fun standalone same => declares ⟨standalone, same⟩
  rcases beside.performs stays undeclared ok with ⟨afterToo, okToo, still, more, grown, grownToo⟩
  rcases perform_ok ready stays ok with ⟨own, owns, does⟩
  have readyAfter := does.ready ready
  rcases does with ⟨events, written, runs, owned⟩
  have noEncoder : first.output.encoder = none := extended.encoder
  have same : more = written := grown.text_eq runs.output noEncoder rfl
  subst same
  rcases readAlike_path alike legible runs.path
    (encodable_of_own owned (owns.encodable encodable undeclared)) with ⟨alikeAfter, legibleAfter⟩
  exact ⟨afterToo, okToo, still, readyAfter, _, _, extended.trans grown, extendedToo.trans grownToo,
    alikeAfter, legibleAfter⟩

/-! ## Ends -/

theorem readAlike_completed {text textToo more : String} (ready : first.Ready)
    (unfailing : first.output.sink.Unfailing) (noEncoder : first.output.encoder = none)
    (alike : ReadAlike charset text.toList (textToo.toList.flatMap charset.shown))
    (legible : first.draft.Legible charset (read (.text .content) text.toList).1)
    (grown : first.output.Extends more first.completed.output) :
    ReadAlike charset (text ++ more).toList ((textToo ++ more).toList.flatMap charset.shown) := by
  have live : ¬first.Spent := not_or.mpr legible.live
  rcases concludes_completed ready live unfailing with ⟨events, written, last, concludes⟩
  have whole := grown.text_eq concludes.output noEncoder rfl
  subst whole
  exact (readAlike_path alike legible concludes.path fun event member =>
    event.encodable_of_completes (concludes.events event member)).1

inductive Transparent (charset : Charset) (bytes bytesToo : ByteArray) : Prop
  | mk {text textToo : List Char} (decodes : Charset.utf8.decode bytes = some text)
      (decodesToo : charset.decode bytesToo = some textToo)
      (alike : ReadAlike charset text textToo) : Transparent charset bytes bytesToo

structure Published (charset : Charset) (first second : Writer) : Prop where
  beside : first.Beside second
  closed : first.phase = .closed
  empty : first.output.pending = .empty
  emptyToo : second.output.pending = .empty
  told : Transparent charset first.output.sink.received second.output.sink.received

theorem Shadows.shut (shadows : Shadows charset first second) :
    ∃ closed closedToo, Writer.shut first = .ok () closed ∧ Writer.shut second = .ok () closedToo ∧
      Published charset closed closedToo := by
  rcases shadows with ⟨beside, ready, text, textToo, extended, extendedToo, alike, legible⟩
  rcases beside.completed with ⟨still, more, grown, grownToo⟩
  have notClosed : first.phase ≠ .closed := legible.live.2
  have notClosedToo : second.phase ≠ .closed := by
    rw [beside.same] at notClosed
    exact notClosed
  rcases shut_of_unfailing notClosed still.unfailing with
    ⟨output, shuts, unfailing, empty, received⟩
  rcases shut_of_unfailing notClosedToo still.unfailingToo with
    ⟨outputToo, shutsToo, unfailingToo, emptyToo, receivedToo⟩
  refine ⟨_, _, shuts, shutsToo, ⟨?_, unfailing, unfailingToo⟩, rfl, empty, emptyToo, ?_⟩
  · rw [still.same]
  · have alikeLast := readAlike_completed ready beside.unfailing extended.encoder alike legible grown
    refine .mk ?_ ?_ alikeLast
    · dsimp only
      rw [received]
      exact OutputBuffer.decode_of_extends (extended.trans grown)
    · dsimp only
      rw [receivedToo]
      exact OutputBuffer.decode_of_extends_encoder (extendedToo.trans grownToo)

theorem Published.closedToo (published : Published charset first second) :
    second.phase = .closed := by
  have closed := published.closed
  rw [published.beside.same] at closed
  exact closed

theorem Published.perform {call : Call} {nothing : Unit} (published : Published charset first second)
    (ok : perform call first = .ok nothing after) :
    ∃ afterToo, Writer.perform call second = .ok () afterToo ∧
      Published charset after afterToo := by
  rcases closed_of_perform published.closed ok with ⟨harmless, closed, same, _⟩
  have okToo : ∃ afterToo, Writer.perform call second = .ok () afterToo ∧ after.Beside afterToo := by
    rcases harmless with idle | rfl
    · rcases published.beside.performs (by rintro rfl; cases idle) (by rintro _ rfl; cases idle) ok
        with ⟨afterToo, okToo, still, _⟩
      exact ⟨afterToo, okToo, still⟩
    · have shuts : Writer.shut first = .ok nothing after := ok
      rw [shut_eq, if_pos published.closed] at shuts
      cases shuts
      refine ⟨second, ?_, published.beside⟩
      show Writer.shut second = _
      rw [shut_eq, if_pos published.closedToo]
  rcases okToo with ⟨afterToo, okToo, still⟩
  rcases closed_of_perform published.closedToo okToo with ⟨_, _, sameToo, _⟩
  refine ⟨afterToo, okToo, still, closed, ?_, ?_, ?_⟩
  · rw [same]
    exact published.empty
  · rw [sameToo]
    exact published.emptyToo
  · rw [same, sameToo]
    exact published.told

/-! ## Runs -/

theorem isOk_step {call : Call} {writer : Writer} {nothing : Unit}
    (ok : perform call writer = .ok nothing after) :
    (writer.step call).1.isOk = true ∧ (writer.step call).2 = after := by
  rcases step_eq writer call with ⟨answer, steps⟩
  rw [steps, ok]
  exact ⟨rfl, rfl⟩

theorem shadows_run {calls : List Call}
    (alike : Shadows charset first second ∨ Published charset first second)
    (accepts : first.Accepts calls) (encodable : ∀ call ∈ calls, call.Encodable charset) :
    second.Accepts calls ∧
      (Shadows charset (first.run calls).2 (second.run calls).2 ∨
        Published charset (first.run calls).2 (second.run calls).2) := by
  induction calls generalizing first second with
  | nil => exact ⟨by simp [Accepts, run], alike⟩
  | cons call rest induction =>
      rcases accepts_cons.mp accepts with ⟨ok, acceptsRest⟩
      have performed := step_ok ok
      have step : ∃ afterToo, Writer.perform call second = .ok () afterToo ∧
          (Shadows charset (first.step call).2 afterToo ∨
            Published charset (first.step call).2 afterToo) := by
        -- Closing publishes what both have written. After that they only answer.
        rcases alike with shadows | published
        · by_cases closes : call = .close
          · subst closes
            rcases shadows.shut with ⟨closed, closedToo, shuts, shutsToo, published⟩
            have same : closed = (first.step .close).2 := by
              have performed : Writer.shut first = .ok () (first.step .close).2 := performed
              rw [shuts] at performed
              cases performed
              rfl
            exact ⟨closedToo, shutsToo, .inr (same ▸ published)⟩
          · rcases shadows.perform closes (encodable call List.mem_cons_self) performed with
              ⟨afterToo, okToo, shadows⟩
            exact ⟨afterToo, okToo, .inl shadows⟩
        · rcases published.perform performed with ⟨afterToo, okToo, published⟩
          exact ⟨afterToo, okToo, .inr published⟩
      rcases step with ⟨afterToo, okToo, alikeAfter⟩
      rcases isOk_step okToo with ⟨isOk, rfl⟩
      rcases induction alikeAfter acceptsRest fun other member =>
        encodable other (List.mem_cons_of_mem _ member) with ⟨acceptsToo, alikeLast⟩
      exact ⟨accepts_cons.mpr ⟨isOk, acceptsToo⟩, alikeLast⟩

theorem Published.release (published : Published charset first second) :
    Transparent charset first.release.output.sink.received
      second.release.output.sink.received := by
  have shuts : Writer.shut first = .ok () first := by rw [shut_eq, if_pos published.closed]
  have shutsToo : Writer.shut second = .ok () second := by rw [shut_eq, if_pos published.closedToo]
  rw [received_of_release shuts published.empty, received_of_release shutsToo published.emptyToo]
  exact published.told

theorem Shadows.release (shadows : Shadows charset first second) :
    Transparent charset first.release.output.sink.received
      second.release.output.sink.received := by
  rcases shadows.shut with ⟨closed, closedToo, shuts, shutsToo, published⟩
  rw [received_of_release shuts published.empty, received_of_release shutsToo published.emptyToo]
  exact published.told

theorem shadows_create {settings : Settings}
    (indent : (Terms.encodable charset).Indents settings.indentChar) :
    Shadows charset (create { sink := {} } settings)
      (create { sink := {}, encoder := some { charset } } settings) where
  beside := ⟨rfl, ⟨rfl, rfl⟩, ⟨rfl, rfl⟩⟩
  ready := ready_create { sink := {} } settings
  told := by
    have ready := ready_create { sink := {} } settings
    refine ⟨"", "", .refl _, .refl _, ⟨?_, rfl, by simp [read_nil]⟩,
      Draft.legible_of_start ready.layered ready.placed rfl indent⟩
    exact .nil

/-- Encoding is transparent. The calls that succeed without an encoder succeed with one, and
once the writers are given up the same is read from the bytes that were encoded as from the
others, apart from the name of the encoding, if text and attribute values are legal and the
set has all other characters. -/
theorem transparent_of_run (charset : Charset) (settings : Settings) (calls : List Call)
    (accepts : (create { sink := {} } settings).Accepts calls)
    (encodable : ∀ call ∈ calls, call.Encodable charset)
    (indent : (Terms.encodable charset).Indents settings.indentChar) :
    let plain := create { sink := {} } settings
    let encoded := create { sink := {}, encoder := some { charset } } settings
    encoded.Accepts calls ∧
      Transparent charset (plain.run calls).2.release.output.sink.received
        (encoded.run calls).2.release.output.sink.received := by
  intro plain encoded
  rcases shadows_run (.inl (shadows_create indent)) accepts encodable with ⟨acceptsToo, alike⟩
  refine ⟨acceptsToo, ?_⟩
  rcases alike with shadows | published
  · exact shadows.release
  · exact published.release

theorem transparent_of_run_references :
    let calls : List Call :=
      [.startDocument none, .comment "é", .startElement { localName := "a" },
        .attributeString { localName := "b" } "あ", .text "<あ>"]
    let plain := create { sink := {} }
    let encoded := create { sink := {}, encoder := some { charset := .windows1252 } }
    plain.Accepts calls ∧ encoded.Accepts calls ∧
      Transparent .windows1252 (plain.run calls).2.release.output.sink.received
        (encoded.run calls).2.release.output.sink.received := by
  intro calls
  have accepts : (create { sink := {} }).Accepts calls := by
    unfold Accepts
    decide +kernel
  have covers (text : String) (all : text.toList.all fun character =>
      (Charset.missing? .windows1252 character).isNone) : Charset.Covers .windows1252 text := by
    simpa [Charset.Covers, Charset.Has] using all
  have named (name : String) (isName : Name.isNCName name = true)
      (all : name.toList.all fun character => (Charset.missing? .windows1252 character).isNone) :
      NameRequest.Meets (.encodable .windows1252) { localName := name } :=
    ⟨⟨isName, covers name all⟩, by simp [nonEmpty?], by simp⟩
  have encodable : ∀ call ∈ calls, call.Encodable .windows1252 := by
    simp only [calls, List.mem_cons, List.not_mem_nil, or_false, forall_eq_or_imp, forall_eq]
    exact ⟨trivial, covers "é" (by decide +kernel),
      named "a" (by decide +kernel) (by decide +kernel),
      ⟨named "b" (by decide +kernel) (by decide +kernel), legal_of_all (by decide +kernel)⟩,
      legal_of_all (by decide +kernel)⟩
  have indent : (Terms.encodable .windows1252).Indents ({} : Settings).indentChar := by
    refine ⟨?_, by decide, by decide⟩
    unfold IsChar
    decide
  exact ⟨accepts, transparent_of_run .windows1252 {} calls accepts encodable indent⟩

/-- In names, comments, sections, instructions and document types there are no references. There a
character that the set lacks is read differently. -/
theorem not_transparent_of_verbatim :
    let plain := create { sink := {} }
    let encoded := create { sink := {}, encoder := some { charset := .windows1252 } }
    let runs : List (List Call × String × String) :=
      [([.comment "あ"], "<!--あ-->", "<!--&#12354;-->"),
        ([.instruction "a" "あ"], "<?a あ?>", "<?a &#12354;?>"),
        ([.doctype "あ" none none none], "<!DOCTYPE あ>", "<!DOCTYPE &#12354;>"),
        ([.doctype "a" none (some "あ") none], "<!DOCTYPE a SYSTEM \"あ\">",
          "<!DOCTYPE a SYSTEM \"&#12354;\">"),
        ([.startElement { localName := "あ" }], "<あ />", "<&#12354; />"),
        ([.startElement { localName := "a" }, .cdata "あ"], "<a><![CDATA[あ]]></a>",
          "<a><![CDATA[&#12354;]]></a>"),
        ([.startElement { localName := "a" }, .entity "あ"], "<a>&あ;</a>", "<a>&&#12354;;</a>")]
    ∀ entry ∈ runs, plain.Accepts entry.1 ∧ encoded.Accepts entry.1 ∧
      (plain.run entry.1).2.release.output.sink.received = entry.2.1.toUTF8 ∧
      (encoded.run entry.1).2.release.output.sink.received = entry.2.2.toUTF8 ∧
      ¬Transparent .windows1252 entry.2.1.toUTF8 entry.2.2.toUTF8 := by
  intro plain encoded runs entry member
  have accepts : ∀ entry ∈ runs, plain.Accepts entry.1 ∧ encoded.Accepts entry.1 := by
    unfold Accepts
    decide +kernel
  have received : ∀ entry ∈ runs,
      (plain.run entry.1).2.release.output.sink.received = entry.2.1.toUTF8 ∧
        (encoded.run entry.1).2.release.output.sink.received = entry.2.2.toUTF8 := by
    decide +kernel
  have readable : ∀ entry ∈ runs,
      Charset.windows1252.decode entry.2.2.toUTF8 = some entry.2.2.toList ∧
        (∀ item ∈ (read (.text .content) entry.2.1.toList).2, item.declares = false) ∧
        read (.text .content) entry.2.2.toList ≠ read (.text .content) entry.2.1.toList := by
    decide +kernel
  refine ⟨(accepts entry member).1, (accepts entry member).2, (received entry member).1,
    (received entry member).2, ?_⟩
  rcases readable entry member with ⟨shown, undeclared, differ⟩
  rintro ⟨decodes, decodesToo, alike⟩
  rw [Charset.decode_toUTF8] at decodes
  rw [shown] at decodesToo
  cases decodes
  cases decodesToo
  exact differ (alike.eq undeclared)

end Writer

end XmlStream
