import XmlStream.Proofs.Bindings.Latest
import XmlStream.Proofs.Bindings.Lookup

namespace XmlStream

/-! Bindings under any sequence of changes. However often their number passes the limit
from which on they are indexed, they are the plain list that the same changes make of a
list, and what is looked up is what stands newest in that list. -/

namespace Bindings

inductive Change where
  | push (nsPrefix uri : String) (declared : Bool)
  | declare (position : Nat)
  | drop (mark : Nat)

def change (bindings : Bindings) : Change → Bindings
  | .push nsPrefix uri declared => bindings.push nsPrefix uri declared
  | .declare position => bindings.setDeclared position
  | .drop mark => bindings.popTo mark

def changed (changes : List Change) : Bindings := changes.foldl change initial

end Bindings

namespace Scope

def change (scope : Scope) : Bindings.Change → Scope
  | .push nsPrefix uri declared => scope ++ [{ nsPrefix, uri, declared }]
  | .declare position => scope.declare position
  | .drop mark => scope.take mark

def changed (changes : List Bindings.Change) : Scope :=
  changes.foldl change [Draft.xmlBinding]

def IsNewest (scope : Scope) (wanted : Nat → Binding → Prop) (position : Nat) : Prop :=
  (∃ binding, scope[position]? = some binding ∧ wanted position binding) ∧
    ∀ (place : Nat) (other : Binding), scope[place]? = some other → wanted place other →
      place ≤ position

def IsOpen (scope : Scope) (position : Nat) (binding : Binding) : Prop :=
  ∀ (place : Nat) (other : Binding), scope[place]? = some other →
    other.nsPrefix = binding.nsPrefix → place ≤ position

variable {scope : Scope} {nsPrefix uri : String} {position mark : Nat}

/-! ## What a scan from the end finds -/

theorem getElem?_concat_eq_some {binding last : Binding} :
    (scope ++ [last])[position]? = some binding ↔
      scope[position]? = some binding ∨ position = scope.length ∧ binding = last := by
  rw [List.getElem?_append]
  split
  · rename_i inside
    exact ⟨.inl, fun either => either.resolve_right fun there => by omega⟩
  · rename_i outside
    have beyond : scope[position]? = none := List.getElem?_eq_none (by omega)
    rw [beyond, List.getElem?_singleton]
    constructor
    · intro here
      split at here
      · exact .inr ⟨by omega, (Option.some.inj here).symm⟩
      · cases here
    · rintro (inside | ⟨rfl, rfl⟩)
      · cases inside
      · simp

theorem isNewest_congr {wanted other : Nat → Binding → Prop}
    (same : ∀ (place : Nat) (binding : Binding), scope[place]? = some binding →
      (wanted place binding ↔ other place binding)) :
    scope.IsNewest wanted position ↔ scope.IsNewest other position := by
  refine and_congr (exists_congr fun binding => and_congr_right fun stands =>
    same position binding stands) ?_
  exact forall_congr' fun place => forall_congr' fun binding => forall_congr' fun stands =>
    imp_congr_left (same place binding stands)

theorem isNewest_concat {wanted : Nat → Binding → Prop} {last : Binding}
    (unwanted : ¬ wanted scope.length last) :
    IsNewest (scope ++ [last]) wanted position ↔ scope.IsNewest wanted position := by
  have same (place : Nat) (binding : Binding) :
      (scope ++ [last])[place]? = some binding ∧ wanted place binding ↔
        scope[place]? = some binding ∧ wanted place binding := by
    rw [getElem?_concat_eq_some, or_and_right, or_iff_left]
    rintro ⟨⟨rfl, rfl⟩, want⟩
    exact unwanted want
  simp only [IsNewest, ← and_imp, same]

theorem find?_eq_some_iff {wanted : Binding × Nat → Bool} {entry : Binding × Nat} :
    scope.zipIdx.reverse.find? wanted = some entry ↔ scope[entry.2]? = some entry.1 ∧
      scope.IsNewest (fun place binding => wanted (binding, place)) entry.2 := by
  induction scope using List.reverseRecOn with
  | nil => simp
  | append_singleton older last induction =>
      rw [List.zipIdx_append, List.reverse_append]
      simp only [List.zipIdx_singleton, Nat.zero_add, List.reverse_singleton,
        List.singleton_append, List.find?_cons]
      by_cases want : wanted (last, older.length) = true
      · have last_stands : (older ++ [last])[older.length]? = some last :=
          List.getElem?_concat_length
        simp only [want, Option.some.injEq]
        constructor
        · rintro rfl
          refine ⟨last_stands, ⟨last, last_stands, want⟩, fun place other there _ => ?_⟩
          rcases getElem?_concat_eq_some.mp there with before | ⟨at_end, _⟩
          · exact Nat.le_of_lt (List.getElem?_eq_some_iff.mp before).1
          · exact Nat.le_of_eq at_end
        · rintro ⟨stands, _, newest⟩
          have later := newest _ _ last_stands want
          rcases getElem?_concat_eq_some.mp stands with before | ⟨at_end, same⟩
          · have inside := (List.getElem?_eq_some_iff.mp before).1
            omega
          · exact Prod.ext same.symm at_end.symm
      · simp only [want]
        rw [induction, isNewest_concat want]
        refine and_congr_left fun newest => ?_
        rcases newest with ⟨⟨binding, stands, _⟩, _⟩
        have inside := (List.getElem?_eq_some_iff.mp stands).1
        rw [List.getElem?_append_left inside]

theorem position?_eq_some_iff : scope.position? nsPrefix = some position ↔
    scope.IsNewest (fun _ binding => binding.nsPrefix = nsPrefix) position := by
  rw [position?, Option.map_eq_some_iff]
  constructor
  · rintro ⟨⟨binding, place⟩, found, rfl⟩
    rcases latest?_eq_some_iff.mp found with ⟨stands, named, last⟩
    exact ⟨⟨binding, stands, named⟩, last⟩
  · rintro ⟨⟨binding, stands, named⟩, last⟩
    exact ⟨(binding, position), latest?_eq_some_iff.mpr ⟨stands, named, last⟩, rfl⟩

theorem position?_from_eq_some_iff :
    (scope.position? nsPrefix).filter (mark ≤ ·) = some position ↔
      scope.IsNewest (fun place binding => mark ≤ place ∧ binding.nsPrefix = nsPrefix)
        position := by
  rw [Option.filter_eq_some_iff, decide_eq_true_iff, position?_eq_some_iff]
  constructor
  · rintro ⟨⟨⟨binding, stands, named⟩, last⟩, within⟩
    exact ⟨⟨binding, stands, within, named⟩, fun place other there want =>
      last place other there want.2⟩
  · rintro ⟨⟨binding, stands, within, named⟩, last⟩
    refine ⟨⟨⟨binding, stands, named⟩, fun place other there same => ?_⟩, within⟩
    by_cases after : mark ≤ place
    · exact last place other there ⟨after, same⟩
    · omega

theorem position?_eq_some_iff_isOpen {binding : Binding}
    (stands : scope[position]? = some binding) :
    scope.position? binding.nsPrefix = some position ↔ scope.IsOpen position binding := by
  rw [position?_eq_some_iff]
  exact ⟨fun newest => newest.2, fun last => ⟨⟨binding, stands, rfl⟩, last⟩⟩

theorem prefixOf?_eq_some_iff : scope.prefixOf? uri = some nsPrefix ↔
    ∃ position binding,
      scope.IsNewest (fun place other => other.uri = uri ∧ scope.IsOpen place other) position ∧
        scope[position]? = some binding ∧ binding.nsPrefix = nsPrefix := by
  have wanted (position : Nat) :
      scope.IsNewest (fun place binding =>
          (binding.uri == uri && scope.position? binding.nsPrefix == some place) = true) position ↔
        scope.IsNewest (fun place other => other.uri = uri ∧ scope.IsOpen place other) position :=
    isNewest_congr fun place binding stands => by
      rw [Bool.and_eq_true, beq_iff_eq, beq_iff_eq, position?_eq_some_iff_isOpen stands]
  rw [prefixOf?, Option.map_eq_some_iff]
  simp only [find?_eq_some_iff, wanted]
  constructor
  · rintro ⟨⟨binding, position⟩, ⟨stands, newest⟩, named⟩
    exact ⟨position, binding, newest, stands, named⟩
  · rintro ⟨position, binding, newest, stands, named⟩
    exact ⟨(binding, position), ⟨stands, newest⟩, named⟩

end Scope

namespace Bindings

variable {bindings : Bindings}

theorem Sound.change (sound : bindings.Sound) (change : Change) :
    (bindings.change change).Sound := by
  cases change with
  | push nsPrefix uri declared => exact sound.push nsPrefix uri declared
  | declare position => exact sound.setDeclared position
  | drop mark => exact sound.popTo mark

theorem scope_change (bindings : Bindings) (change : Change) :
    (bindings.change change).scope = bindings.scope.change change := by
  cases change with
  | push nsPrefix uri declared => exact scope_push bindings nsPrefix uri declared
  | declare position => exact scope_setDeclared bindings position
  | drop mark => exact scope_popTo bindings mark

theorem sound_changed (changes : List Change) : (changed changes).Sound := by
  induction changes using List.reverseRecOn with
  | nil =>
      have bare : ({} : Bindings).Sound := sound_of_index_eq_none rfl
      exact bare.push _ _ _
  | append_singleton changes last induction =>
      rw [changed, List.foldl_append]
      exact induction.change last

theorem scope_changed (changes : List Change) :
    (changed changes).scope = Scope.changed changes := by
  induction changes using List.reverseRecOn with
  | nil => exact scope_push {} _ _ _
  | append_singleton changes last induction =>
      rw [changed, List.foldl_append, Scope.changed, List.foldl_append]
      exact (scope_change _ last).trans (congrArg (·.change last) induction)

/-- Whatever happened to bindings, they are those of the plain list, a prefix leads to the
newest of them that has it, from a mark on to the newest one there, a namespace to the
prefix of the newest open binding to it, and what is dropped leaves those below the mark. -/
theorem lookups_of_changes (changes : List Change) :
    (changed changes).scope = Scope.changed changes ∧
      (∀ nsPrefix position, (changed changes).lookup? nsPrefix = some position ↔
        (Scope.changed changes).IsNewest (fun _ binding => binding.nsPrefix = nsPrefix)
          position) ∧
      (∀ mark nsPrefix position, (changed changes).lookupFrom? mark nsPrefix = some position ↔
        (Scope.changed changes).IsNewest
          (fun place binding => mark ≤ place ∧ binding.nsPrefix = nsPrefix) position) ∧
      (∀ uri nsPrefix, (changed changes).findPrefix? uri = some nsPrefix ↔
        ∃ position binding,
          (Scope.changed changes).IsNewest
            (fun place other => other.uri = uri ∧ (Scope.changed changes).IsOpen place other)
            position ∧
          (Scope.changed changes)[position]? = some binding ∧ binding.nsPrefix = nsPrefix) ∧
      ∀ mark, ((changed changes).popTo mark).scope = (Scope.changed changes).take mark := by
  have sound := sound_changed changes
  rw [← scope_changed changes]
  refine ⟨rfl, fun nsPrefix position => ?_, fun mark nsPrefix position => ?_,
    fun uri nsPrefix => ?_, scope_popTo _⟩
  · rw [sound.lookup?_eq, Scope.position?_eq_some_iff]
  · rw [sound.lookupFrom?_eq, Scope.position?_from_eq_some_iff]
  · rw [sound.findPrefix?_eq, Scope.prefixOf?_eq_some_iff]

/-- The sixteenth binding beside that of `xml` makes an index. It stays when few are left. -/
example :
    let many := List.replicate scanLimit (Change.push "p" "urn:p" true)
    (changed many.tail).isIndexed = false ∧ (changed many).isIndexed = true ∧
      (changed (many ++ [.drop 1])).isIndexed = true := by decide +kernel

end Bindings

end XmlStream
