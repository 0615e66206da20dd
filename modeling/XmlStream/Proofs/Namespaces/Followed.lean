import XmlStream.Proofs.Grammar.Documents
import XmlStream.Proofs.Namespaces.Accounts
import XmlStream.Proofs.Output.Trails
import XmlStream.Proofs.Reading.Following

namespace XmlStream

/-! A reader that follows a run of calls. What it sees of the start tags is what the calls have asked
for. -/

open Grammar Reading

namespace Draft

variable {draft after last : Draft} {text more own : String} {requests : Requests}
  {sight seen : Sight} {event : Event} {events : List Event} {indents : Char → Prop}

/-- A reader has read what a draft says. Only certain characters indent. -/
structure ReadWith (indents : Char → Prop) (draft : Draft) (text : String) (sight : Sight) :
    Prop where
  live : draft.Live
  sees : Sees draft.settings.quote draft.phase (read (.text .content) text.toList).1 sight.view
  nesting : sight.nesting = nesting text.toList
  placed : draft.Placed
  wholesome : draft.Wholesome (.indenting indents)
  names : ∀ name ∈ draft.names, Grammar.Name name
  layered : draft.Layered
  enabled : draft.settings.namespaces = true
  lawful : Lawful draft.scope

structure ReadBy (draft : Draft) (text : String) (sight : Sight) : Prop
    extends draft.ReadWith Terms.plain.Indents text sight

/-- A reader has followed the text of a draft, and what it has seen is as it has been asked for. -/
structure Followed (draft : Draft) (text : String) (requests : Requests) (sight : Sight) : Prop
    extends draft.ReadBy text sight where
  account : draft.Account requests sight

theorem namespaces_step (enabled : draft.settings.namespaces = true)
    (stays : event ≠ .configure (.namespaces false)) (step : draft.Step event text after) :
    after.settings.namespaces = true := by
  cases step with
  | configure setting =>
      cases setting with
      | namespaces chosen =>
          cases chosen with
          | true => rfl
          | false => exact absurd rfl stays
      | _ => exact enabled
  | startElement _ _ _ _ _ _ _ _ _ names =>
      exact (congrArg Settings.namespaces
        (names.frames (draft.depth_push_pos .element)).settings).trans enabled
  | startAttribute _ nsPrefix _ _ found _ _ _ _ names =>
      have frames := names.frames.trans (found.frames_noteAttribute nsPrefix)
      exact (congrArg Settings.namespaces frames.settings).trans enabled
  | endAttribute _ found _ _ applies =>
      have settings : found.settings = draft.settings := by
        split at applies
        · exact applies.frames.settings
        · rw [applies]
      exact (congrArg Settings.namespaces settings).trans enabled
  | write _ next | feed _ next =>
      exact (congrArg Settings.namespaces (draft.enterText_settings next)).trans enabled
  | qualify _ _ next _ _ _ _ _ _ finds =>
      have settings := (finds.frames_noted next).settings.trans (draft.enterText_settings next)
      exact (congrArg Settings.namespaces settings).trans enabled
  | _ => exact enabled

theorem lawful_settle (lawful : Lawful draft.scope) : Lawful draft.settle.scope := by
  have kept (owed : List (Binding × Nat)) {scope : Scope} (lawful : Lawful scope) :
      Lawful (owed.foldl (fun scope entry => scope.declare entry.2) scope) := by
    induction owed generalizing scope with
    | nil => exact lawful
    | cons entry rest induction =>
        refine induction fun binding member => ?_
        rcases descends_of_mem_declare member with ⟨older, there, descends⟩
        rw [descends.nsPrefix, descends.uri]
        exact lawful older there
  exact kept _ lawful

theorem Lawful.take (lawful : Lawful draft.scope) (mark : Nat) : Lawful (draft.scope.take mark) :=
  fun binding member => lawful binding (List.mem_of_mem_take member)

theorem lawful_step (lawful : Lawful draft.scope) (step : draft.Step event text after) :
    Lawful after.scope := by
  cases step with
  | startElement _ _ _ _ _ _ _ _ _ names => exact names.lawful lawful
  | startAttribute _ nsPrefix _ _ found _ _ _ _ names =>
      have kept := (names.keeps lawful).2
      rwa [← found.noteAttribute_scope nsPrefix] at kept
  | endAttribute next found leads noPayload applies =>
      split at applies
      · exact (applies.keeps lawful).2
      · rwa [applies]
  | endStartTag => exact lawful_settle lawful
  | endEmptyTag => exact Lawful.take (lawful_settle lawful) _
  | endTag | finish => exact lawful.take _
  | write piece next | feed chunk next =>
      have entered : (draft.enterText next).scope = draft.scope := draft.enterText_scope next
      exact entered ▸ lawful
  | qualify uri nsPrefix next found _ _ _ _ _ finds =>
      have entered : Lawful (draft.enterText next).scope := by rwa [enterText_scope]
      have kept := (finds.keeps entered).2.1
      split <;> exact kept
  | _ => exact lawful

theorem ReadWith.step (read_ : draft.ReadWith indents text sight)
    (stays : event ≠ .configure (.namespaces false)) (meets : event.Meets (.indenting indents))
    (step : draft.Step event more after)
    (sees : Sees after.settings.quote after.phase
      (read (read (.text .content) text.toList).1 own.toList).1 seen.view)
    (nests : seen.nesting =
      (read (read (.text .content) text.toList).1 own.toList).2.foldl Nesting.add sight.nesting) :
    after.ReadWith indents (text ++ own) seen where
  live := read_.live.step step
  sees := by
    rw [String.toList_append, read_append]
    exact sees
  nesting := by
    rw [nests, read_.nesting, Reading.nesting, Reading.nesting, String.toList_append, read_append,
      List.foldl_append]
  placed := read_.placed.step step
  wholesome := read_.wholesome.step meets step
  names := names_step (fun _ _ => Grammar.name_writtenName) read_.names read_.wholesome meets step
  layered := read_.layered.step step
  enabled := namespaces_step read_.enabled stays step
  lawful := lawful_step read_.lawful step

theorem ReadBy.step (read_ : draft.ReadBy text sight) (legible : event.Legible)
    (step : draft.Step event more after) :
    ∃ seen, draft.Shows event sight after seen ∧ after.ReadBy (text ++ more) seen := by
  have wholesome : draft.Wholesome .plain := read_.wholesome
  rcases watched_step read_.sees read_.placed wholesome.fit (fun _ _ => wholesome.indent)
    read_.names legible step with ⟨seen, sees, nests, shows_⟩
  exact ⟨seen, shows_, ⟨read_.toReadWith.step legible.ne_namespaces legible.meets step sees nests⟩⟩

theorem Followed.step (followed : draft.Followed text requests sight) (readable : event.Readable)
    (step : draft.Step event more after) :
    ∃ seen, draft.Shows event sight after seen ∧
      after.Followed (text ++ more) (requests.see event) seen := by
  rcases followed.toReadBy.step readable.legible step with ⟨seen, shows_, readAfter⟩
  exact ⟨seen, shows_, readAfter, followed.account.step followed.lawful followed.enabled
    followed.wholesome.fit followed.layered readable.named shows_⟩

/-- What goes on to hold while a reader follows a draft. -/
def Kept (Holds : Draft → Requests → Sight → Prop) : Prop :=
  ∀ {draft after : Draft} {text : String} {requests : Requests} {sight seen : Sight} {event : Event},
    draft.Followed text requests sight → event.Readable → draft.Shows event sight after seen →
      Holds draft requests sight → Holds after (requests.see event) seen

theorem Followed.path {Holds : Draft → Requests → Sight → Prop} (kept : Kept Holds)
    (followed : draft.Followed text requests sight) (holds : Holds draft requests sight)
    (path : draft.Path events more last) (readable : ∀ event ∈ events, event.Readable) :
    ∃ seen, last.Followed (text ++ more) (events.foldl Requests.see requests) seen ∧
      Holds last (events.foldl Requests.see requests) seen := by
  induction path generalizing text requests sight with
  | nil draft => exact ⟨sight, by simpa using followed, holds⟩
  | cons step rest induction =>
      have first := readable _ List.mem_cons_self
      rcases followed.step first step with ⟨middle, shows_, followedToo⟩
      rcases induction followedToo (kept followed first shows_ holds) fun event member =>
        readable event (List.mem_cons_of_mem _ member) with ⟨seen, followedLast, holdsLast⟩
      exact ⟨seen, by rwa [String.append_assoc] at followedLast, holdsLast⟩

theorem see_of_completes (requests : Requests) (completes : event.completes) :
    requests.see event = requests := by
  cases event <;> first | rfl | cases completes

theorem foldl_see_filter (events : List Event) (requests : Requests) :
    events.foldl Requests.see requests =
      (events.filter (!·.completes)).foldl Requests.see requests := by
  induction events generalizing requests with
  | nil => rfl
  | cons event rest induction =>
      rw [List.foldl_cons, induction, List.filter_cons]
      cases completes : event.completes with
      | true => simp [see_of_completes requests completes]
      | false => simp

/-- The attribute that is being written, if any, is no declaration. -/
def Undeclaring (draft : Draft) : Prop :=
  ∀ nsPrefix, draft.special.map (·.kind) ≠ some (.declaration nsPrefix)

theorem Undeclaring.of_eq (undeclaring : draft.Undeclaring) (same : after.special.map (·.kind) = draft.special.map (·.kind)) :
    after.Undeclaring := by
  intro nsPrefix
  rw [same]
  exact undeclaring nsPrefix

theorem kind_capture (draft : Draft) (text : String) :
    (draft.capture text).special.map (·.kind) = draft.special.map (·.kind) := by
  rw [capture, Option.map_map]
  rfl

theorem Undeclaring.step (undeclaring : draft.Undeclaring) (enabled : draft.settings.namespaces = true)
    (ordinary : ∀ asked relied, event = .startAttribute asked relied →
      asked.request.declares? = none)
    (step : draft.Step event text after) : after.Undeclaring := by
  cases step with
  | startElement _ _ found _ _ _ _ _ _ names =>
      have special : found.special = draft.special :=
        (names.frames (draft.depth_push_pos .element)).special
      exact undeclaring.of_eq (congrArg _ special)
  | startAttribute request nsPrefix kind next found _ _ _ _ names =>
      intro declared isKind
      have isKind : (kind.map fun kind => ({ kind } : SpecialAttribute)).map (·.kind) = _ := isKind
      rw [Option.map_map] at isKind
      have isKind : kind = some (.declaration declared) := by simpa [Function.comp_def] using isKind
      have notDeclares : request.declares? = none := ordinary _ _ rfl
      rcases names.kind_eq enabled with whole | ⟨_, not⟩
      · rw [isKind, notDeclares] at whole
        cases whole
      · exact not declared isKind
  | endAttribute _ found _ _ applies =>
      have none : found.special = none := by
        split at applies
        · exact applies.frames.special
        · rename_i none
          rwa [applies]
      intro declared isKind
      have isKind : found.special.map (·.kind) = _ := isKind
      rw [none] at isKind
      cases isKind
  | write piece next =>
      have same : (draft.enterText next).special = draft.special := draft.enterText_special next
      exact undeclaring.of_eq ((kind_capture _ _).trans (congrArg _ same))
  | feed chunk next =>
      have same : (draft.enterText next).special = draft.special := draft.enterText_special next
      exact undeclaring.of_eq ((kind_capture _ _).trans (congrArg _ same))
  | qualify _ _ next _ _ _ _ _ _ finds =>
      have same := (finds.frames_noted next).special.trans (draft.enterText_special next)
      exact undeclaring.of_eq ((kind_capture _ _).trans (congrArg _ same))
  | endPayload => exact undeclaring.of_eq (kind_capture _ _)
  | _ => exact undeclaring

theorem Undeclaring.path (undeclaring : draft.Undeclaring) (enabled : draft.settings.namespaces = true)
    (path : draft.Path events text last)
    (stays : ∀ event ∈ events, event ≠ .configure (.namespaces false))
    (ordinary : ∀ asked relied, .startAttribute asked relied ∈ events →
      asked.request.declares? = none) : last.Undeclaring := by
  induction path with
  | nil draft => exact undeclaring
  | cons step rest induction =>
      refine induction (undeclaring.step enabled ?_ step)
        (namespaces_step enabled (stays _ List.mem_cons_self) step)
        (fun event member => stays event (List.mem_cons_of_mem _ member))
        fun asked relied member => ordinary asked relied (List.mem_cons_of_mem _ member)
      rintro asked relied rfl
      exact ordinary asked relied List.mem_cons_self

end Draft

/-- A call asks for names without a colon, writes nothing raw, and leaves namespaces enabled. -/
def Call.Legible : Call → Prop
  | .setNamespaces enabled => enabled = true
  | .setIndentChar chosen => Terms.plain.Indents chosen
  | .doctype _ _ _ subset => ∀ text, subset = some text → Enclosed text.toList
  | .startElement request | .elementString request _ | .startAttribute request
  | .attributeString request _ => request.Meets .plain
  | .raw _ => False
  | _ => True

/-- A call asks for names without a colon, writes nothing raw, and leaves namespaces enabled.
Namespaces are declared in one call, and no attribute is taken for a declaration by mistake. -/
def Call.Readable : Call → Prop
  | .setNamespaces enabled => enabled = true
  | .setIndentChar chosen => Terms.plain.Indents chosen
  | .doctype _ _ _ subset => ∀ text, subset = some text → Enclosed text.toList
  | .startElement request | .elementString request _ => request.Meets .plain
  | .startAttribute request =>
    request.Meets .plain ∧ ¬request.Disguised ∧ request.declares? = none
  | .attributeString request _ => request.Meets .plain ∧ ¬request.Disguised
  | .raw _ => False
  | _ => True

theorem Call.Readable.legible {call : Call} (readable : call.Readable) : call.Legible := by
  cases call with
  | startAttribute | attributeString => exact readable.1
  | _ => exact readable

def Call.Undisguised : Call → Prop
  | .startAttribute request | .attributeString request _ => ¬request.Disguised
  | _ => True

theorem Call.Readable.undisguised {call : Call} (readable : call.Readable) : call.Undisguised := by
  cases call with
  | startAttribute => exact readable.2.1
  | attributeString => exact readable.2
  | _ => trivial

namespace Writer

variable {before after : Writer} {call : Call} {own : List Event} {requests : Requests}

/-- A call can be read where it is made. If a declaration is being written there, the call refers to no
entity that a reader would resolve. -/
structure Reads (writer : Writer) (call : Call) : Prop where
  legible : call.Legible
  undisguised : call.Undisguised
  unresolved : ∀ name nsPrefix, call = .entity name →
    writer.special.map (·.kind) = some (.declaration nsPrefix) → predefined? name.toList = none

def ReadsAll (writer : Writer) : List Call → Prop
  | [] => True
  | call :: calls => writer.Reads call ∧ (writer.step call).2.ReadsAll calls

theorem readsAll_append {calls more : List Call} :
    before.ReadsAll (calls ++ more) ↔ before.ReadsAll calls ∧ (before.run calls).2.ReadsAll more := by
  induction calls generalizing before with
  | nil => simp [ReadsAll, run]
  | cons call rest induction => simp [ReadsAll, run, induction, and_assoc]

theorem readsAll_of_legible {calls : List Call}
    (legible : ∀ call ∈ calls, call.Legible ∧ call.Undisguised ∧ ∀ name, call ≠ .entity name) :
    before.ReadsAll calls := by
  induction calls generalizing before with
  | nil => trivial
  | cons call rest induction =>
      rcases legible call List.mem_cons_self with ⟨legibleCall, undisguised, noEntity⟩
      exact ⟨⟨legibleCall, undisguised, fun name _ same => absurd same (noEntity name)⟩,
        induction fun other member => legible other (List.mem_cons_of_mem _ member)⟩

def roomFor (writer : Writer) (token : Token) : Writer :=
  match advance token writer with
  | .ok _ room => room
  | .error _ stuck => stuck

def ask (writer : Writer) (requests : Requests) : Call → Requests
  | .startElement request | .elementString request _ =>
    requests.element ((writer.roomFor .startElement).draft.asked request)
  | .startAttribute request | .attributeString request _ =>
    requests.addAttribute ((writer.roomFor .startAttribute).draft.asked request)
  | .endDocument => requests.finish
  | _ => requests

def asks (writer : Writer) (requests : Requests) : List Call → Requests
  | [] => requests
  | call :: calls => (writer.step call).2.asks (writer.ask requests call) calls

theorem asks_append (writer : Writer) (requests : Requests) (calls more : List Call) :
    writer.asks requests (calls ++ more) =
      (writer.run calls).2.asks (writer.asks requests calls) more := by
  induction calls generalizing writer requests with
  | nil => rfl
  | cons call rest induction => exact induction _ _

theorem roomFor_of_ok {token : Token} {room : Writer} (went : advance token before = .ok () room) :
    before.roomFor token = room := by
  rw [roomFor, went]

theorem Owns.ask (owns : Owns before call own) (requests : Requests) :
    own.foldl Requests.see requests = before.ask requests call := by
  cases owns with
  | setting _ _ sets => cases sets <;> rfl
  | piece _ _ _ gives => cases gives <;> rfl
  | startElement request room opened went =>
      rw [Writer.ask, roomFor_of_ok went]
      rfl
  | startAttribute request room went =>
      rw [Writer.ask, roomFor_of_ok went]
      rfl
  | attributeString request value room pieces went adds =>
      rw [Writer.ask, roomFor_of_ok went]
      rcases adds with rfl | ⟨kind, rfl⟩ <;> rfl
  | elementString request value room opened pieces went opens adds =>
      rw [Writer.ask, roomFor_of_ok went]
      rcases adds with rfl | ⟨text, _, rfl⟩ <;> rfl
  | _ => rfl

theorem Owns.legible (owns : Owns before call own) (legible : call.Legible)
    (unresolved : ∀ name nsPrefix, call = .entity name →
      before.special.map (·.kind) = some (.declaration nsPrefix) → predefined? name.toList = none) :
    ∀ event ∈ own, event.Legible := by
  cases owns with
  | setting _ _ sets =>
      refine List.forall_mem_singleton.mpr ?_
      cases sets with
      | namespaces enabled =>
          have enabled : enabled = true := legible
          exact ⟨by simp [enabled], by simp⟩
      | indentChar chosen => exact ⟨by simp, fun _ same => Setting.indentChar.inj same ▸ legible⟩
      | _ => exact ⟨by simp, by simp⟩
  | document standalone =>
      refine List.forall_mem_singleton.mpr fun name named => ?_
      rcases Option.map_eq_some_iff.mp named with ⟨encoder, _, rfl⟩
      exact ⟨encoder.charset, rfl⟩
  | piece call piece kind gives stands =>
      refine List.forall_mem_singleton.mpr ?_
      cases gives with
      | raw => exact legible.elim
      | entity name =>
          intro nsPrefix declares
          rcases stands with rfl | rfl
          · cases declares
          · exact unresolved name nsPrefix rfl declares
      | _ => trivial
  | qualified localName uri kind =>
      simp [Event.Legible, Event.Readable, Piece.Readable]
  | attributeString request value room pieces went adds =>
      refine List.forall_mem_cons.mpr ⟨legible, ?_⟩
      rcases adds with rfl | ⟨kind, rfl⟩
      · simp
      · exact List.forall_mem_singleton.mpr trivial
  | elementString request value room opened pieces went opens adds =>
      refine List.forall_mem_cons.mpr ⟨legible, ?_⟩
      rcases adds with rfl | ⟨text, _, rfl⟩
      · simp
      · exact List.forall_mem_singleton.mpr trivial
  | query | flush | noText | endElement | fullEndElement | endAttribute => simp
  | doctype | startElement | startAttribute => exact List.forall_mem_singleton.mpr legible
  | cdata | comment | instruction | finish | base64 => exact List.forall_mem_singleton.mpr trivial

theorem Owns.asked (owns : Owns before call own) {asked : AskedName} {relied : Bool}
    (member : .startAttribute asked relied ∈ own) :
    call = .startAttribute asked.request ∨ ∃ value, call = .attributeString asked.request value := by
  cases owns with
  | startAttribute request room =>
      cases List.mem_singleton.mp member
      exact .inl rfl
  | attributeString request value room pieces went adds =>
      rcases adds with rfl | ⟨kind, rfl⟩
      · cases List.mem_singleton.mp member
        exact .inr ⟨value, rfl⟩
      · have same : .startAttribute asked relied =
            Event.startAttribute (room.draft.asked request) (room.draft.relies request) := by
          simpa using member
        cases same
        exact .inr ⟨value, rfl⟩
  | elementString _ _ _ _ _ _ _ adds => rcases adds with rfl | ⟨_, _, rfl⟩ <;> simp at member
  | _ => simp at member

theorem Owns.readable (owns : Owns before call own) (reads : before.Reads call) :
    ∀ event ∈ own, event.Readable := by
  intro event member
  have legible := owns.legible reads.legible reads.unresolved event member
  cases event with
  | startAttribute asked relied =>
      refine ⟨legible, ?_⟩
      rcases owns.asked member with rfl | ⟨value, rfl⟩ <;> exact reads.undisguised
  | _ => exact legible

theorem phase_of_attributeString {request : NameRequest} {value : String} {nothing : Unit}
    (ready : before.Ready) (ok : perform (.attributeString request value) before = .ok nothing after) :
    after.phase ≠ .attribute ∧ after.phase ≠ .topAttribute := by
  simp only [perform, bind_eq_ok] at ok
  rcases ok with ⟨_, opened, opens, _, filled, wrote, closes⟩
  rcases openAttribute_ok ready.sound (guarded_ok opens).2 with ⟨_, _, first, _⟩
  rcases text_ok first.sound wrote with ⟨_, _, second⟩
  rcases advance_endAttribute_ok second.sound.bindings (guarded_ok closes).2 with
    ⟨_, _, _, _, leads, _⟩
  rcases Draft.next?_endAttribute leads with ⟨_, phase⟩ | ⟨_, _, phase⟩ <;> simp [phase]

theorem undeclaring_perform {events : List Event} {more : String} {nothing : Unit}
    (ready : before.Ready) (readyAfter : after.Ready) (undeclaring : before.draft.Undeclaring)
    (enabled : before.settings.namespaces = true) (owns : Owns before call own)
    (path : before.draft.Path events more after.draft) (owned : events.filter (!·.completes) = own)
    (stays : ∀ event ∈ events, event ≠ .configure (.namespaces false))
    (ordinary : ∀ request, call = .startAttribute request → request.declares? = none)
    (ok : perform call before = .ok nothing after) : after.draft.Undeclaring := by
  by_cases whole : ∃ request value, call = .attributeString request value
  · rcases whole with ⟨request, value, rfl⟩
    rcases phase_of_attributeString ready ok with ⟨notAttribute, notTop⟩
    have none : after.special = none := readyAfter.placed.special_eq_none notAttribute notTop
    intro nsPrefix
    simp [none]
  · refine undeclaring.path enabled path stays fun asked relied member => ?_
    have member : .startAttribute asked relied ∈ own := by
      rw [← owned]
      exact List.mem_filter.mpr ⟨member, rfl⟩
    rcases owns.asked member with rfl | ⟨value, rfl⟩
    · exact ordinary _ rfl
    · exact absurd ⟨_, value, rfl⟩ whole

variable {Holds : Draft → Requests → Sight → Prop} {text : String} {sight : Sight}

theorem followed_perform {nothing : Unit} (kept : Draft.Kept Holds) (ready : before.Ready)
    (followed : before.draft.Followed text requests sight) (holds : Holds before.draft requests sight)
    (stays : call ≠ .close) (reads : before.Reads call) (ok : perform call before = .ok nothing after) :
    ∃ more seen, before.output.Extends more after.output ∧ after.Ready ∧
      after.draft.Followed (text ++ more) (before.ask requests call) seen ∧
      Holds after.draft (before.ask requests call) seen := by
  rcases perform_ok ready stays ok with ⟨own, owns, does⟩
  have readyAfter := does.ready ready
  have readableOwn := owns.readable reads
  rcases does with ⟨events, more, runs, owned⟩
  have readableAll := all_of_own owned readableOwn fun _ => Event.readable_of_completes
  rcases followed.path kept holds runs.path readableAll with ⟨seen, followedAfter, holdsAfter⟩
  rw [Draft.foldl_see_filter, owned, owns.ask] at followedAfter holdsAfter
  exact ⟨more, seen, runs.output, readyAfter, followedAfter, holdsAfter⟩

theorem followed_completes {draft last : Draft} {events : List Event} {more : String}
    (kept : Draft.Kept Holds) (followed : draft.Followed text requests sight)
    (holds : Holds draft requests sight) (path : draft.Path events more last)
    (completes : ∀ event ∈ events, event.completes) :
    ∃ seen, last.Followed (text ++ more) requests seen ∧ Holds last requests seen := by
  rcases followed.path kept holds path fun event member =>
    event.readable_of_completes (completes event member) with ⟨seen, followedLast, holdsLast⟩
  rw [Draft.foldl_see_filter, filter_completes completes] at followedLast holdsLast
  exact ⟨seen, followedLast, holdsLast⟩

end Writer

end XmlStream
