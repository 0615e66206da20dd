import XmlStream.Proofs.Namespaces.Asides
import XmlStream.Proofs.Namespaces.Runs

namespace XmlStream

/-! Runs of calls as paths, up to where the writer is closed. What the calls hand over is not looked
into. -/

/-- A call asks for names without a colon, and leaves namespaces enabled. Namespaces are declared in
one call, and no attribute is taken for a declaration by mistake. -/
def Call.Named : Call → Prop
  | .setNamespaces enabled => enabled = true
  | .startElement request | .elementString request _ => request.Meets .plain
  | .startAttribute request =>
    request.Meets .plain ∧ ¬request.Disguised ∧ request.declares? = none
  | .attributeString request _ => request.Meets .plain ∧ ¬request.Disguised
  | _ => True

theorem Call.Readable.named {call : Call} (readable : call.Readable) : call.Named := by
  cases call with
  | raw | setIndentChar | doctype => trivial
  | _ => exact readable

namespace Draft

variable {draft last : Draft} {events : List Event} {text : String}

theorem namespaces_path (enabled : draft.settings.namespaces = true)
    (path : draft.Path events text last)
    (stays : ∀ event ∈ events, event ≠ .configure (.namespaces false)) :
    last.settings.namespaces = true := by
  induction path with
  | nil => exact enabled
  | cons step _ induction =>
      exact induction (namespaces_step enabled (stays _ List.mem_cons_self) step)
        fun event member => stays event (List.mem_cons_of_mem _ member)

end Draft

namespace Writer

variable {before after origin writer : Writer} {call : Call} {calls : List Call} {own : List Event}
  {requests : Requests}

theorem Owns.followable (owns : Owns before call own) (named : call.Named) (member : call ∈ calls)
    (undeclaring : before.draft.Undeclaring) : ∀ event ∈ own, event.Followable calls := by
  have elsewhere {kind : Option SpecialKind} (piece : Piece)
      (stands : kind = none ∨ kind = before.special.map (·.kind)) (nsPrefix : Option String)
      (declares : kind = some (.declaration nsPrefix)) : piece.Readable kind := by
    rcases stands with rfl | rfl
    · cases declares
    · exact absurd declares (undeclaring nsPrefix)
  have text (value : String) (kind : Option SpecialKind) :
      (Event.write (.text value) kind).Followable calls := ⟨fun _ _ => trivial, trivial⟩
  cases owns with
  | setting _ _ sets =>
      refine List.forall_mem_singleton.mpr ?_
      cases sets with
      | namespaces enabled =>
          have enabled : enabled = true := named
          exact ⟨by simp [Event.Named, enabled], trivial⟩
      | indentChar chosen => exact ⟨by simp [Event.Named], member⟩
      | _ => exact ⟨by simp [Event.Named], trivial⟩
  | document standalone =>
      refine List.forall_mem_singleton.mpr ⟨fun name isName => ?_, trivial⟩
      rcases Option.map_eq_some_iff.mp isName with ⟨encoder, _, rfl⟩
      exact ⟨encoder.charset, rfl⟩
  | piece call piece kind gives stands =>
      refine List.forall_mem_singleton.mpr ⟨elsewhere piece stands, ?_⟩
      cases gives with
      | raw text => exact member
      | _ => trivial
  | qualified localName uri kind =>
      exact List.forall_mem_cons.mpr ⟨⟨trivial, trivial⟩, List.forall_mem_singleton.mpr (text _ _)⟩
  | attributeString request value room pieces went adds =>
      refine List.forall_mem_cons.mpr ⟨⟨named, trivial⟩, ?_⟩
      rcases adds with rfl | ⟨kind, rfl⟩
      · simp
      · exact List.forall_mem_singleton.mpr (text _ _)
  | elementString request value room opened pieces went opens adds =>
      refine List.forall_mem_cons.mpr ⟨⟨named, trivial⟩, ?_⟩
      rcases adds with rfl | ⟨value, _, rfl⟩
      · simp
      · exact List.forall_mem_singleton.mpr (text _ _)
  | query | flush | noText | endElement | fullEndElement | endAttribute => simp
  | doctype => exact List.forall_mem_singleton.mpr ⟨trivial, member⟩
  | startElement => exact List.forall_mem_singleton.mpr ⟨named, trivial⟩
  | startAttribute => exact List.forall_mem_singleton.mpr ⟨⟨named.1, named.2.1⟩, trivial⟩
  | cdata | comment | instruction | finish | base64 =>
      exact List.forall_mem_singleton.mpr ⟨trivial, trivial⟩

/-- The steps that have led from one writer to another one, or to where that one was closed. -/
inductive Course (calls : List Call) (origin : Writer) (requests : Requests) (writer : Writer) : Prop
  | live (events : List Event) (text : String) (path : origin.draft.Path events text writer.draft)
      (followable : ∀ event ∈ events, event.Followable calls)
      (asks : events.foldl Requests.see {} = requests)
      (extended : origin.output.Extends text writer.output)
      (steady : writer.output.Steady origin.output.sink.canFlush) (ready : writer.Ready)
      (undeclaring : writer.draft.Undeclaring)
  | closed (events : List Event) (text : String) (last : Draft)
      (path : origin.draft.Path events text last)
      (followable : ∀ event ∈ events, event.Followable calls)
      (asks : events.foldl Requests.see {} = requests)
      (gets : origin.output.Gets text writer.output) (closed : writer.phase = .closed)

theorem Course.undeclaring (course : Course calls origin requests writer)
    (goesOn : writer.phase ≠ .closed) : writer.draft.Undeclaring := by
  cases course with
  | live _ _ _ _ _ _ _ _ undeclaring => exact undeclaring
  | closed _ _ _ _ _ _ _ closed => exact absurd closed goesOn

theorem Course.reads {nothing : Unit} (course : Course calls origin requests before)
    (readable : call.Readable) (ok : perform call before = .ok nothing after) :
    before.Reads call := by
  refine ⟨readable.legible, readable.undisguised, ?_⟩
  rintro name nsPrefix rfl declares
  refine absurd declares (course.undeclaring (fun closed => ?_) nsPrefix)
  rcases (closed_of_perform closed ok).1 with idle | isClose
  · cases idle
  · cases isClose

theorem Course.perform {nothing : Unit} (course : Course calls origin requests before)
    (live : origin.draft.Live) (enabled : origin.settings.namespaces = true) (named : call.Named)
    (member : call ∈ calls) (ok : perform call before = .ok nothing after) :
    Course calls origin (before.ask requests call) after := by
  cases course with
  | closed events text last path followable asks gets closed =>
      rcases closed_of_perform closed ok with ⟨idle, closedToo, same, _⟩
      rw [ask_of_idle idle]
      exact .closed events text last path followable asks (same ▸ gets) closedToo
  | live events text path followable asks extended steady ready undeclaring =>
      by_cases isClose : call = .close
      · subst isClose
        have goesOn : ¬before.Spent := not_or.mpr (live.path path)
        rcases concludes_shut ready goesOn steady ok with
          ⟨closing, more, last, concludes, finishes, _⟩
        refine .closed (events ++ closing) _ last (path.append concludes.path) ?_ ?_
          (OutputBuffer.gets_of_finish (extended.trans concludes.output) finishes) (shut_ok ok)
        · exact List.forall_mem_append.mpr ⟨followable, fun event member =>
            event.followable_of_completes calls (concludes.events event member)⟩
        · rw [List.foldl_append, asks, Draft.foldl_see_filter, filter_completes concludes.events]
          rfl
      · rcases perform_ok ready isClose ok with ⟨own, owns, does⟩
        have readyAfter := does.ready ready
        have followableOwn := owns.followable named member undeclaring
        rcases does with ⟨further, more, runs, owned⟩
        have followableAll := all_of_own owned followableOwn fun event =>
          event.followable_of_completes calls
        have stays := fun event member => (followable event member).named.ne_namespaces
        have performs := ((scripted_perform isClose).mono False.elim).endsIn
          OutputBuffer.Steady.order steady
        rw [ok] at performs
        refine .live (events ++ further) _ (path.append runs.path)
          (List.forall_mem_append.mpr ⟨followable, followableAll⟩) ?_ (extended.trans runs.output)
          performs readyAfter ?_
        · rw [List.foldl_append, asks, Draft.foldl_see_filter, owned, owns.ask]
        · refine undeclaring_perform ready readyAfter undeclaring
            (Draft.namespaces_path enabled path stays) owns runs.path owned
            (fun event member => (followableAll event member).named.ne_namespaces) ?_ ok
          rintro request rfl
          exact named.2.2

theorem Course.run {later : List Call} (course : Course calls origin requests before)
    (live : origin.draft.Live) (enabled : origin.settings.namespaces = true)
    (accepts : before.Accepts later) (named : ∀ call ∈ later, call.Named)
    (members : ∀ call ∈ later, call ∈ calls) :
    Course calls origin (before.asks requests later) (before.run later).2 := by
  induction later generalizing before requests with
  | nil => exact course
  | cons call rest induction =>
      rcases accepts_cons.mp accepts with ⟨ok, acceptsRest⟩
      have next := course.perform live enabled (named call List.mem_cons_self)
        (members call List.mem_cons_self) (step_ok ok)
      exact induction next acceptsRest
        (fun other member => named other (List.mem_cons_of_mem _ member))
        fun other member => members other (List.mem_cons_of_mem _ member)

theorem Course.readsAll {later : List Call} (course : Course calls origin requests before)
    (live : origin.draft.Live) (enabled : origin.settings.namespaces = true)
    (accepts : before.Accepts later) (readable : ∀ call ∈ later, call.Readable)
    (members : ∀ call ∈ later, call ∈ calls) : before.ReadsAll later := by
  induction later generalizing before requests with
  | nil => trivial
  | cons call rest induction =>
      rcases accepts_cons.mp accepts with ⟨ok, acceptsRest⟩
      have readableCall := readable call List.mem_cons_self
      have next := course.perform live enabled readableCall.named (members call List.mem_cons_self)
        (step_ok ok)
      exact ⟨course.reads readableCall (step_ok ok), induction next acceptsRest
        (fun other member => readable other (List.mem_cons_of_mem _ member))
        fun other member => members other (List.mem_cons_of_mem _ member)⟩

section Start

variable {limit : Option Nat} {canFlush : Bool} {encoder : Option Encoder} {settings : Settings}

theorem live_create (output : OutputBuffer) : (create output settings).draft.Live :=
  ⟨by simp [create], by simp [create]⟩

theorem course_create : Course calls (create { sink := { limit, canFlush }, encoder } settings) {}
    (create { sink := { limit, canFlush }, encoder } settings) := by
  refine .live [] "" (.nil _) (by simp) rfl (.refl _) (steady_create limit canFlush encoder)
    (ready_create _ _) fun nsPrefix => ?_
  simp [create]

theorem course_of_run (enabled : settings.namespaces = true)
    (accepts : (create { sink := { limit, canFlush }, encoder } settings).Accepts calls)
    (named : ∀ call ∈ calls, call.Named) :
    let writer := create { sink := { limit, canFlush }, encoder } settings
    Course calls writer (writer.asks {} calls) (writer.run calls).2 :=
  course_create.run (live_create _) enabled accepts named fun _ => id

theorem readsAll_of_run (enabled : settings.namespaces = true)
    (accepts : (create { sink := { limit, canFlush }, encoder } settings).Accepts calls)
    (readable : ∀ call ∈ calls, call.Readable) :
    (create { sink := { limit, canFlush }, encoder } settings).ReadsAll calls :=
  course_create.readsAll (live_create _) enabled accepts readable fun _ => id

end Start

end Writer

end XmlStream
