import XmlStream.Proofs.Draft.Paid
import XmlStream.Proofs.Namespaces.Courses
import XmlStream.Proofs.Namespaces.Soundness
import XmlStream.Proofs.Simulation.Invariant

namespace XmlStream

/-! Declarations are added only where they are needed. Each one that a writer adds to a start tag changes
what a prefix, or its absence, stands for around the tag, and when a tag is complete nothing is owed any
more. -/

open Reading

namespace Reading

/-- Declarations are added to the explicit attributes of a start tag. None is added twice, each one
makes a prefix, or its absence, stand for what it does not stand for around the tag, and none repeats an
explicit one. -/
structure Needed (explicit added : List (List Char × List Part)) (tag : StartTag)
    (around : List StartTag) : Prop where
  nodup : (added.map Prod.fst).Nodup
  changes : ∀ entry ∈ added, ∃ nsPrefix, entry.1 = declarationName nsPrefix ∧
    uriOf? around nsPrefix ≠ some (valueText entry.2) ∧
      uriOf? (tag :: around) nsPrefix = some (valueText entry.2)
  fresh : ∀ entry ∈ added, ∀ other ∈ explicit, other.1 = entry.1 →
    valueText other.2 ≠ valueText entry.2

variable {tag : StartTag} {added : List (List Char × List Part)} {around : List StartTag}

theorem Adds.needed (adds : Adds tag added around) :
    Needed tag.attributes added (tag.addAll added) around where
  nodup := adds.nodup
  changes := by
    intro entry member
    rcases adds.declares entry member with ⟨nsPrefix, named, differs⟩
    refine ⟨nsPrefix, named, differs, uriOf?_addAll around ⟨entry, member, named⟩ ?_⟩
    intro other memberToo namedToo
    rw [List.inj_on_of_nodup_map adds.nodup memberToo member (namedToo.trans named.symm)]
  fresh := by
    intro entry member other memberToo sameName sameValue
    rcases adds.repeats entry member other memberToo sameName with ⟨nsPrefix, named, repeats⟩
    rcases adds.declares entry member with ⟨declared, namedToo, differs⟩
    rw [declarationName_injective (namedToo.symm.trans named), repeats] at differs
    exact differs (congrArg some sameValue)

end Reading

theorem AskedTag.Honoured.needed {asked : AskedTag} {tag : StartTag} {around : List StartTag}
    (honoured : asked.Honoured (tag :: around)) :
    Needed (tag.attributes.take asked.attributes.length)
      (tag.attributes.drop asked.attributes.length) tag around := by
  cases honoured with
  | mk tag added around written adds =>
      have needed := adds.needed
      rwa [written.attributes.length_eq, StartTag.addAll, List.take_left, List.drop_left]

namespace Draft

variable {draft : Draft} {requests : Requests} {sight : Sight}

theorem Account.length_le (account : draft.Account requests sight) :
    requests.earlier.length ≤ sight.nesting.tags.length := by
  cases account with
  | between _ _ _ honoured =>
      rw [← honoured.length_eq, Requests.all, List.length_append]
      exact Nat.le_add_right _ _
  | tag _ _ _ _ _ _ honoured => exact honoured.length_eq.le
  | value _ _ _ _ _ _ _ _ _ _ _ honoured => exact honoured.length_eq.le

end Draft

namespace Writer

/-- No open element owes a declaration, unless its start tag is open: all bindings but those of this
tag are declared, and the default namespace of an element that owes it is that of the element around. -/
structure Settled (writer : Writer) : Prop where
  prefixes : ∀ (position : Nat) (binding : Binding),
    writer.bindings.scope[position]? = some binding → binding.declared = false →
      (writer.phase = .element ∨ writer.phase = .attribute) ∧ writer.top.bindingMark ≤ position
  enclosing : writer.elements.outwards.tail.IsChain OpenElement.SettledIn
  complete : writer.phase ≠ .element → writer.phase ≠ .attribute →
    writer.elements.outwards.IsChain OpenElement.SettledIn

variable {writer : Writer} {origin : Writer} {calls : List Call} {requests : Requests}

theorem Ready.settled (ready : writer.Ready) (tiered : writer.draft.Tiered)
    (paid : writer.draft.Paid) : writer.Settled where
  prefixes := (ready.consistent tiered).undeclared
  enclosing := paid.enclosing
  complete := paid.complete

theorem Course.settled (course : Course calls origin requests writer) (ready : origin.Ready)
    (tiered : origin.draft.Tiered) (paid : origin.draft.Paid) (live : writer.phase ≠ .closed) :
    writer.Settled := by
  cases course with
  | live _ _ path _ _ _ _ readyHere =>
      exact readyHere.settled (tiered.path ready.placed path) (paid.path ready.placed path)
  | closed _ _ _ _ _ _ _ closed => exact absurd closed live

theorem Course.path (course : Course calls origin requests writer) :
    ∃ events text last, origin.draft.Path events text last ∧
      (∀ event ∈ events, event.Followable calls) ∧ events.foldl Requests.see {} = requests ∧
        origin.output.Gets text writer.output := by
  cases course with
  | live events text path followable asks extended =>
      exact ⟨events, text, _, path, followable, asks, extended.gets⟩
  | closed events text last path followable asks gets =>
      exact ⟨events, text, last, path, followable, asks, gets⟩

/-- Declarations are added only where they are needed. What a run writes, without the raw text, the
subset of a document type and the lines in it, has for each start tag the explicit attributes first.
Of the declarations behind them none is there twice, each one declares a namespace that the prefix, or
names without one, did not have around the tag, and none repeats an explicit one. Between calls no
element owes a declaration whose start tag is complete. -/
theorem additions_needed_of_run (limit : Option Nat) (canFlush : Bool) (encoder : Option Encoder)
    (settings : Settings) (calls : List Call) (enabled : settings.namespaces = true)
    (accepts : (create { sink := { limit, canFlush }, encoder } settings).Accepts calls)
    (named : ∀ call ∈ calls, call.Named) :
    let output : OutputBuffer := { sink := { limit, canFlush }, encoder }
    let writer := create output settings
    let reached := (writer.run calls).2
    (reached.phase ≠ .closed → reached.Settled) ∧
      ∃ (text own : String) (asides : List String), output.Gets text reached.output ∧
        Omits asides text own ∧ (∀ aside ∈ asides, LeftOut settings calls aside) ∧
        (writer.asks {} calls).earlier.length ≤ (nesting own.toList).tags.length ∧
        ∀ (index : Nat) (tag : StartTag) (around : List StartTag),
          (nesting own.toList).tags[index]? = some (tag :: around) →
            ∃ asked : AskedTag, (writer.asks {} calls).all[index]? = some asked ∧
              Needed (tag.attributes.take asked.attributes.length)
                (tag.attributes.drop asked.attributes.length) tag around := by
  intro output writer reached
  have course : Course calls writer (writer.asks {} calls) reached :=
    course_of_run enabled accepts named
  have ready := ready_create output settings
  refine ⟨course.settled ready (tiered_create output settings) (Draft.paid_of_outside rfl), ?_⟩
  rcases course.path with ⟨events, text, last, path, followable, asks, gets⟩
  have start : writer.draft.FollowedWith (settings.Chosen calls) "" {} ⟨.between, {}⟩ :=
    ⟨readWith_create output enabled (.inl rfl), account_create output settings⟩
  rcases start.path path followable with ⟨asides, own, seen, all, omits, followed⟩
  rw [asks, String.empty_append] at followed
  refine ⟨text, own, asides, gets, omits, all, ?_, fun index tag around found => ?_⟩
  · rw [← followed.nesting]
    exact followed.account.length_le
  · rw [← followed.nesting] at found
    rcases followed.account.honoured found with ⟨asked, stands, honoured⟩
    exact ⟨asked, stands, honoured.needed⟩

theorem additions_needed_of_run_beside_raw :
    let calls : List Call :=
      [.startElement { nsPrefix := some "p", localName := "a", uri := some "urn:p" },
        .attributeString { nsPrefix := some "xmlns", localName := "q" } "urn:q",
        .startElement { nsPrefix := some "q", localName := "b", uri := some "urn:q" }, .raw "<",
        .startElement { nsPrefix := some "p", localName := "c", uri := some "urn:r" }, .close]
    let output : OutputBuffer := { sink := {} }
    let writer := create output
    let reached := (writer.run calls).2
    writer.Accepts calls ∧ reached.output.delivered =
        ("<p:a xmlns:q=\"urn:q\" xmlns:p=\"urn:p\"><q:b><<p:c xmlns:p=\"urn:r\" />" ++
          "</q:b></p:a>").toUTF8 ∧
      (reached.phase ≠ .closed → reached.Settled) ∧
      ∃ (text own : String) (asides : List String), output.Gets text reached.output ∧
        Omits asides text own ∧ (∀ aside ∈ asides, LeftOut {} calls aside) ∧
        (writer.asks {} calls).earlier.length ≤ (nesting own.toList).tags.length ∧
        ∀ (index : Nat) (tag : StartTag) (around : List StartTag),
          (nesting own.toList).tags[index]? = some (tag :: around) →
            ∃ asked : AskedTag, (writer.asks {} calls).all[index]? = some asked ∧
              Needed (tag.attributes.take asked.attributes.length)
                (tag.attributes.drop asked.attributes.length) tag around := by
  intro calls output writer reached
  have accepts : writer.Accepts calls := by
    unfold Accepts
    decide +kernel
  have named : ∀ call ∈ calls, call.Named := by
    simp only [calls, List.mem_cons, List.not_mem_nil, or_false, forall_eq_or_imp, forall_eq]
    refine ⟨?_, ⟨?_, ?_⟩, ?_, trivial, ?_, trivial⟩
    all_goals
      first
        | exact NameRequest.meets_plain (by decide +kernel) (by decide +kernel)
        | simp [NameRequest.Disguised]
  have delivered : (writer.run calls).2.output.delivered =
      ("<p:a xmlns:q=\"urn:q\" xmlns:p=\"urn:p\"><q:b><<p:c xmlns:p=\"urn:r\" />" ++
        "</q:b></p:a>").toUTF8 := by
    decide +kernel
  refine ⟨accepts, delivered, ?_⟩
  clear_value calls
  exact additions_needed_of_run none true none {} calls rfl accepts named

/-- An attribute that is asked for with a prefix and no namespace loses the prefix, and may then look
like a declaration of the default namespace without being noted as one. That declaration is repeated
in the elements within. -/
theorem disguised_declaration :
    let calls : List Call :=
      [.startElement { localName := "a" },
        .attributeString { nsPrefix := some "p", localName := "xmlns", uri := some "" } "urn:v",
        .startElement { localName := "b", uri := some "urn:v" }, .close]
    let writer := create { sink := {} }
    let text := "<a xmlns=\"urn:v\"><b xmlns=\"urn:v\" /></a>"
    let tags := (nesting text.toList).tags[1]?.getD []
    writer.Accepts calls ∧ (writer.run calls).2.output.delivered = text.toUTF8 ∧
      (writer.asks {} calls).all.map (·.attributes.length) = [1, 0] ∧
      tags.head?.map (·.attributes) =
        some [(declarationName none, "urn:v".toList.map .character)] ∧
      uriOf? tags.tail none = some "urn:v" := by
  intro calls writer text tags
  refine ⟨?_, by decide +kernel, by decide +kernel, by decide +kernel, by decide +kernel⟩
  unfold Accepts
  decide +kernel

end Writer

end XmlStream
