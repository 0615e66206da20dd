import XmlStream.Proofs.Namespaces.Followed

namespace XmlStream

/-! What a writer puts into a document without knowing what it is: raw text, the subset of a document
type, and what indents a line. A reader can follow what is left when this is left out. -/

open Grammar Reading

/-- A text, and what is left of it without some pieces, which stand in it one after another. -/
inductive Omits : List String → String → String → Prop
  | nil : Omits [] "" ""
  | keep (kept : String) {asides : List String} {text own : String} (omits : Omits asides text own) :
      Omits asides (kept ++ text) (kept ++ own)
  | leave (aside : String) {asides : List String} {text own : String}
      (omits : Omits asides text own) : Omits (aside :: asides) (aside ++ text) own

namespace Omits

variable {asides others : List String} {text own more rest : String}

theorem whole (text : String) : Omits [] text text := by
  simpa using keep text nil

theorem single (aside : String) : Omits [aside] aside "" := by
  simpa using leave aside nil

theorem append (omits : Omits asides text own) (omitsToo : Omits others more rest) :
    Omits (asides ++ others) (text ++ more) (own ++ rest) := by
  induction omits with
  | nil => simpa using omitsToo
  | keep kept _ induction =>
      rw [String.append_assoc, String.append_assoc]
      exact .keep kept induction
  | leave aside _ induction =>
      rw [List.cons_append, String.append_assoc]
      exact .leave aside induction

theorem brackets (lead inner : String) :
    Omits [inner] (lead ++ ("[" ++ inner ++ "]") ++ ">") (lead ++ "[]" ++ ">") := by
  have omits := ((Omits.whole (lead ++ "[")).append (.single inner)).append (.whole ("]" ++ ">"))
  have left : lead ++ "[" ++ "" ++ ("]" ++ ">") = lead ++ "[]" ++ ">" := by
    simp [← String.toList_inj]
  rw [left] at omits
  simpa [String.append_assoc] using omits

end Omits

def Settings.Chosen (settings : Settings) (calls : List Call) (character : Char) : Prop :=
  character = settings.indentChar ∨ .setIndentChar character ∈ calls

/-- What is left out: what some calls hand over to be written as it is, and lines. -/
inductive LeftOut (settings : Settings) (calls : List Call) : String → Prop
  | raw (text : String) (given : .raw text ∈ calls) : LeftOut settings calls text
  | subset (name : String) (publicId systemId : Option String) (text : String)
      (given : .doctype name publicId systemId (some text) ∈ calls) : LeftOut settings calls text
  | line (width : Nat) (character : Char) (chosen : settings.Chosen calls character) :
      LeftOut settings calls (String.ofList ('\n' :: List.replicate width character))

def Event.HandedOver (calls : List Call) : Event → Prop
  | .write (.raw text) _ => .raw text ∈ calls
  | .doctype name publicId systemId subset => .doctype name publicId systemId subset ∈ calls
  | .configure (.indentChar character) => .setIndentChar character ∈ calls
  | _ => True

structure Event.Followable (calls : List Call) (event : Event) : Prop where
  named : event.Named
  handedOver : event.HandedOver calls

theorem Event.followable_of_completes {event : Event} (calls : List Call)
    (completes : event.completes) : event.Followable calls := by
  refine ⟨(event.readable_of_completes completes).named, ?_⟩
  cases event with
  | line | endAttribute | endStartTag | endEmptyTag | endTag | endPayload => trivial
  | _ => simp [Event.completes] at completes

theorem NameRequest.Meets.indenting {request : NameRequest} {indents : Char → Prop}
    (plain : request.Meets .plain) : request.Meets (.indenting indents) :=
  ⟨plain.localName, plain.nsPrefix, plain.uri⟩

theorem Event.Followable.meets {event : Event} {settings : Settings} {calls : List Call}
    (followable : event.Followable calls) : event.Meets (.indenting (settings.Chosen calls)) := by
  have named := followable.named
  cases event with
  | startElement => exact NameRequest.Meets.indenting named
  | startAttribute => exact NameRequest.Meets.indenting named.1
  | configure setting =>
      cases setting with
      | indentChar character => exact .inr followable.handedOver
      | _ => trivial
  | _ => trivial

namespace Draft

variable {draft after last : Draft} {place : Place} {sight : Sight} {text own more : String}
  {event : Event} {events : List Event} {settings : Settings} {calls : List Call}
  {requests : Requests} {next : Phase}

theorem Fit.plain {indents : Char → Prop} (fit : draft.Fit (.indenting indents)) :
    draft.Fit .plain :=
  ⟨fun binding member => ⟨(fit.scope binding member).nsPrefix, (fit.scope binding member).uri⟩,
    fit.defaults⟩

/-! ## Leaving out -/

theorem watched_without_line {beforeEnd : Bool}
    (sees : Sees draft.settings.quote draft.phase place sight.view) (between : draft.Between) :
    draft.Watched place sight (.line beforeEnd) "" draft := by
  have reads : read (.text .content) "".toList = (.text .content, []) := rfl
  exact watched_between sees between.1 between.2.1 ⟨between.1, between.2.1⟩ reads
    (.between _ _ _ trivial ⟨rfl, rfl, id⟩)

theorem watched_without_raw {content : String}
    (sees : Sees draft.settings.quote draft.phase place sight.view) (closed : draft.phase ≠ .element)
    (leads : draft.mode.next? .raw draft.phase = some next)
    (undeclaring : ∀ nsPrefix, draft.special.map (·.kind) ≠ some (.declaration nsPrefix)) :
    draft.Watched place sight (.write (.raw content) (draft.special.map (·.kind))) ""
      ((draft.enterText next).capture content) := by
  exact watched_captured _ _ sees (by simp) closed leads trivial (fun _ _ => spells_nil)
    fun nsPrefix declares => absurd declares (undeclaring nsPrefix)

theorem watched_without_subset {name ids subset : String} {publicId systemId : Option String}
    (sees : Sees draft.settings.quote draft.phase place sight.view)
    (usable : Name.isUsable .qualified draft.settings.namespaces name)
    (identified : draft.externalId? publicId systemId = some ids)
    (leads : draft.mode.next? .doctype draft.phase = some next) :
    draft.Watched place sight (.doctype name publicId systemId (some subset))
      ("<!DOCTYPE " ++ name ++ ids ++ "[]" ++ ">") (draft.enter next) := by
  have empty : ∀ text, some "" = some text → Enclosed text.toList := by
    rintro _ ⟨⟩
    exact ⟨[], rfl⟩
  rcases read_doctype_text (name_of_isUsable usable) identified empty with ⟨seen, reads⟩
  exact watched_markup sees (.inl rfl) (outside_of_doctype leads) leads rfl rfl rfl reads
    (fun _ => rfl) trivial

theorem leftOut_lineText (chosen : settings.Chosen calls draft.settings.indentChar)
    (beforeEnd : Bool) : LeftOut settings calls (draft.lineText beforeEnd) := by
  unfold lineText
  dsimp only
  split
  · exact .line 0 _ chosen
  · exact .line _ _ chosen

/-! ## Steps -/

theorem ReadWith.advance (read_ : draft.ReadWith (settings.Chosen calls) text sight)
    (followable : event.Followable calls) (step : draft.Step event more after) :
    ∃ asides own seen, (∀ aside ∈ asides, LeftOut settings calls aside) ∧ Omits asides more own ∧
      draft.Shows event sight after seen ∧
      after.ReadWith (settings.Chosen calls) (text ++ own) seen := by
  have named := followable.named
  have goesOn {asides : List String} {own : String} (all : ∀ aside ∈ asides, LeftOut settings calls aside)
      (omits : Omits asides more own)
      (watched : draft.Watched (read (.text .content) text.toList).1 sight event own after) :
      ∃ asides own seen, (∀ aside ∈ asides, LeftOut settings calls aside) ∧ Omits asides more own ∧
        draft.Shows event sight after seen ∧
        after.ReadWith (settings.Chosen calls) (text ++ own) seen := by
    rcases watched with ⟨seen, sees, nests, shows_⟩
    exact ⟨asides, own, seen, all, omits, shows_,
      read_.step named.ne_namespaces followable.meets step sees nests⟩
  have whole (legible : event.Legible) (noLine : ∀ beforeEnd, event ≠ .line beforeEnd) :=
    goesOn (by simp) (.whole more) (watched_step read_.sees read_.placed read_.wholesome.fit.plain
      (fun beforeEnd isLine => absurd isLine (noLine beforeEnd)) read_.names legible step)
  cases event with
  | line beforeEnd =>
      cases step with
      | line _ between =>
          refine goesOn ?_ (.single _) (watched_without_line read_.sees between)
          exact List.forall_mem_singleton.mpr (leftOut_lineText read_.wholesome.indent beforeEnd)
  | doctype name publicId systemId subset =>
      cases subset with
      | none => exact whole (by simp [Event.Legible, Event.Readable]) (by simp)
      | some subset =>
          cases step with
          | doctype _ _ _ _ ids next usable identified leads =>
              have given : Call.doctype name publicId systemId (some subset) ∈ calls :=
                followable.handedOver
              refine goesOn ?_ (.brackets _ subset)
                (watched_without_subset read_.sees usable identified leads)
              exact List.forall_mem_singleton.mpr (.subset name publicId systemId subset given)
  | write piece kind =>
      cases piece with
      | raw content =>
          cases step with
          | write _ next closed leads =>
              have given : Call.raw content ∈ calls := followable.handedOver
              refine goesOn ?_ (.single _) (watched_without_raw read_.sees closed leads ?_)
              · exact List.forall_mem_singleton.mpr (.raw content given)
              · exact fun nsPrefix declares => named nsPrefix declares
      | entity name =>
          exact whole (fun nsPrefix declares => named nsPrefix declares nsPrefix declares) (by simp)
      | text | character | hexadecimal | whitespace => exact whole trivial (by simp)
  | configure setting =>
      cases step with
      | configure _ atStart unquoted =>
          exact goesOn (by simp) (.whole "") (watched_configure read_.sees unquoted)
  | xmlDeclaration | startElement => exact whole named (by simp)
  | startAttribute => exact whole named.1 (by simp)
  | _ => exact whole trivial (by simp)

structure FollowedWith (indents : Char → Prop) (draft : Draft) (text : String) (requests : Requests)
    (sight : Sight) : Prop extends draft.ReadWith indents text sight where
  account : draft.Account requests sight

theorem FollowedWith.path
    (followed : draft.FollowedWith (settings.Chosen calls) text requests sight)
    (path : draft.Path events more last) (followable : ∀ event ∈ events, event.Followable calls) :
    ∃ asides own seen, (∀ aside ∈ asides, LeftOut settings calls aside) ∧ Omits asides more own ∧
      last.FollowedWith (settings.Chosen calls) (text ++ own) (events.foldl Requests.see requests)
        seen := by
  induction path generalizing text requests sight with
  | nil draft => exact ⟨[], "", sight, by simp, .nil, by simpa using followed⟩
  | cons step rest induction =>
      have first := followable _ List.mem_cons_self
      rcases followed.toReadWith.advance first step with
        ⟨asides, own, middle, all, omits, shows_, readAfter⟩
      have account := followed.account.step followed.lawful followed.enabled
        followed.wholesome.fit.plain followed.layered first.named shows_
      rcases induction ⟨readAfter, account⟩ fun event member =>
        followable event (List.mem_cons_of_mem _ member) with
        ⟨others, further, seen, allToo, omitsToo, followedLast⟩
      refine ⟨asides ++ others, own ++ further, seen, ?_, omits.append omitsToo, ?_⟩
      · exact List.forall_mem_append.mpr ⟨all, allToo⟩
      · rwa [← String.append_assoc]

end Draft

end XmlStream
