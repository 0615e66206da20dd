import Mathlib.Data.List.Nodup
import XmlStream.Proofs.Bindings.Tiers

namespace XmlStream.Scope

/-! The newest bindings of prefixes, which say what prefixes stand for, and what is owed. -/

variable {scope after : Scope} {nsPrefix uri : String} {binding : Binding} {index mark : Nat}

theorem latest?_eq_some_iff : scope.latest? nsPrefix = some (binding, index) ↔
    scope[index]? = some binding ∧ binding.nsPrefix = nsPrefix ∧
      ∀ (place : Nat) (other : Binding), scope[place]? = some other →
        other.nsPrefix = nsPrefix → place ≤ index := by
  constructor
  · intro found
    rcases latest?_eq_some found with ⟨stands, named⟩
    refine ⟨stands, named, fun place other there same => ?_⟩
    rcases le_position? there with ⟨position, latest, later⟩
    rw [same, position?, found] at latest
    cases latest
    exact later
  · rintro ⟨stands, rfl, last⟩
    rcases le_position? stands with ⟨position, latest, later⟩
    rcases Option.map_eq_some_iff.mp latest with ⟨⟨newest, _⟩, found, rfl⟩
    rcases latest?_eq_some found with ⟨there, same⟩
    have equal := Nat.le_antisymm later (last _ newest there same)
    dsimp only at equal
    subst equal
    rw [stands] at there
    rw [found, Option.some.inj there]

theorem latest?_eq_none_iff :
    scope.latest? nsPrefix = none ↔ ∀ binding ∈ scope, binding.nsPrefix ≠ nsPrefix := by
  rw [latest?, List.find?_eq_none]
  constructor
  · intro absent binding member
    rcases List.mem_iff_getElem?.mp member with ⟨index, stands⟩
    have there : (binding, index) ∈ scope.zipIdx.reverse := by
      rw [List.mem_reverse, List.mem_zipIdx_iff_getElem?]
      exact stands
    simpa using absent _ there
  · intro absent entry member
    rw [List.mem_reverse, List.mem_zipIdx_iff_getElem?] at member
    simpa using absent entry.1 (List.mem_of_getElem? member)

theorem latest?_changed {change : Nat → Binding → Binding}
    (stands : ∀ index : Nat, after[index]? = (scope[index]?).map (change index))
    (kept : ∀ index binding, (change index binding).nsPrefix = binding.nsPrefix) :
    after.latest? nsPrefix =
      (scope.latest? nsPrefix).map fun entry => (change entry.2 entry.1, entry.2) := by
  cases found : scope.latest? nsPrefix with
  | none =>
      rw [latest?_eq_none_iff] at found
      rw [Option.map_none, latest?_eq_none_iff]
      intro binding member
      rcases List.mem_iff_getElem?.mp member with ⟨index, there⟩
      rw [stands] at there
      rcases Option.map_eq_some_iff.mp there with ⟨older, stood, rfl⟩
      rw [kept]
      exact found older (List.mem_of_getElem? stood)
  | some entry =>
      rcases latest?_eq_some_iff.mp found with ⟨stood, named, last⟩
      rw [Option.map_some, latest?_eq_some_iff]
      refine ⟨by rw [stands, stood, Option.map_some], by rw [kept, named], ?_⟩
      intro place other there same
      rw [stands] at there
      rcases Option.map_eq_some_iff.mp there with ⟨older, stoodThere, rfl⟩
      rw [kept] at same
      exact last place older stoodThere same

theorem latest?_declare (scope : Scope) (position : Nat) (nsPrefix : String) :
    (scope.declare position).latest? nsPrefix = (scope.latest? nsPrefix).map fun entry =>
      (if position = entry.2 then { entry.1 with declared := true } else entry.1, entry.2) :=
  latest?_changed (getElem?_declare scope position) fun _ _ => by split <;> rfl

theorem uri?_declare (scope : Scope) (position : Nat) (nsPrefix : String) :
    (scope.declare position).uri? nsPrefix = scope.uri? nsPrefix := by
  rw [uri?, latest?_declare, uri?, Option.map_map]
  congr 1
  funext entry
  simp only [Function.comp]
  split <;> rfl

theorem uri?_foldl_declare (owed : List (Binding × Nat)) (scope : Scope) (nsPrefix : String) :
    uri? (owed.foldl (fun scope entry => scope.declare entry.2) scope) nsPrefix =
      scope.uri? nsPrefix := by
  induction owed generalizing scope with
  | nil => rfl
  | cons entry rest induction => rw [List.foldl_cons, induction, uri?_declare]

theorem latest?_take (found : scope.latest? nsPrefix = some (binding, index))
    (older : index < mark) : latest? (scope.take mark) nsPrefix = some (binding, index) := by
  rcases latest?_eq_some_iff.mp found with ⟨stands, named, last⟩
  rw [latest?_eq_some_iff]
  refine ⟨by rw [List.getElem?_take_of_lt older, stands], named, fun place other there same => ?_⟩
  have within : place < mark := by
    by_contra beyond
    rw [List.getElem?_take_eq_none (by omega)] at there
    cases there
  rw [List.getElem?_take_of_lt within] at there
  exact last place other there same

theorem latest?_take_eq_none (absent : scope.latest? nsPrefix = none) :
    latest? (scope.take mark) nsPrefix = none := by
  rw [latest?_eq_none_iff] at absent ⊢
  exact fun binding member => absent binding (List.mem_of_mem_take member)

theorem uri?_take_of_free (free : (scope.position? nsPrefix).filter (mark ≤ ·) = none) :
    uri? (scope.take mark) nsPrefix = scope.uri? nsPrefix := by
  cases latest : scope.latest? nsPrefix with
  | none => rw [uri?, uri?, latest, latest?_take_eq_none latest]
  | some entry =>
      have older : entry.2 < mark := by
        rw [position?, latest, Option.map_some, Option.filter_eq_none_iff] at free
        simpa using free entry.2 rfl
      rw [uri?, uri?, latest, latest?_take latest older]

theorem uri?_of_prefixOf? (stands : scope.prefixOf? uri = some nsPrefix) :
    scope.uri? nsPrefix = some uri := by
  rcases Option.map_eq_some_iff.mp stands with ⟨entry, found, rfl⟩
  have member := List.mem_of_find?_eq_some found
  have wanted := List.find?_some found
  rw [List.mem_reverse, List.mem_zipIdx_iff_getElem?] at member
  simp only [Bool.and_eq_true, beq_iff_eq] at wanted
  rcases Option.map_eq_some_iff.mp wanted.2 with ⟨latest, there, same⟩
  have newest := (latest?_eq_some there).1
  rw [same, member] at newest
  rw [uri?, there, Option.map_some, ← Option.some.inj newest, wanted.1]

theorem mem_drop_zipIdx {entry : Binding × Nat} :
    entry ∈ scope.zipIdx.drop mark ↔ mark ≤ entry.2 ∧ scope[entry.2]? = some entry.1 := by
  rw [List.mem_iff_getElem?]
  constructor
  · rintro ⟨offset, there⟩
    rw [List.getElem?_drop, List.getElem?_zipIdx, Option.map_eq_some_iff] at there
    rcases there with ⟨binding, stands, rfl⟩
    simp only [Nat.zero_add]
    exact ⟨Nat.le_add_right _ _, stands⟩
  · rintro ⟨within, stands⟩
    refine ⟨entry.2 - mark, ?_⟩
    rw [List.getElem?_drop, Nat.add_sub_cancel' within, List.getElem?_zipIdx, stands]
    simp

theorem mem_owed_iff {entry : Binding × Nat} : entry ∈ scope.owed mark ↔
    scope.latest? entry.1.nsPrefix = some entry ∧ mark ≤ entry.2 ∧ entry.1.declared = false := by
  have newest (stands : scope[entry.2]? = some entry.1) :
      scope.position? entry.1.nsPrefix = some entry.2 ↔
        scope.latest? entry.1.nsPrefix = some entry := by
    constructor
    · intro found
      rcases Option.map_eq_some_iff.mp found with ⟨latest, there, same⟩
      have newest := (latest?_eq_some there).1
      rw [same, stands] at newest
      rw [there, Option.some_inj]
      exact Prod.ext (Option.some.inj newest).symm same
    · intro found
      rw [position?, found, Option.map_some]
  rw [owed, List.mem_filter, List.mem_reverse, Bool.and_eq_true, beq_iff_eq, Bool.not_eq_true',
    mem_drop_zipIdx]
  constructor
  · rintro ⟨⟨within, stands⟩, undeclared, found⟩
    exact ⟨(newest stands).mp found, within, undeclared⟩
  · rintro ⟨found, within, undeclared⟩
    have stands := (latest?_eq_some_iff.mp found).1
    exact ⟨⟨within, stands⟩, undeclared, (newest stands).mpr found⟩

theorem nodup_owed (scope : Scope) (mark : Nat) :
    ((scope.owed mark).map fun entry => entry.1.nsPrefix).Nodup := by
  have places : ((scope.owed mark).map Prod.snd).Nodup := by
    have all : (scope.zipIdx.map Prod.snd).Nodup := by
      rw [List.zipIdx_map_snd]
      exact List.nodup_range'
    have owed : ((scope.owed mark).map Prod.snd).Sublist
        ((scope.zipIdx.drop mark).reverse.map Prod.snd) := List.filter_sublist.map _
    refine List.Nodup.sublist owed ?_
    rw [List.map_reverse, List.nodup_reverse]
    exact all.sublist ((List.drop_sublist mark _).map _)
  refine List.Nodup.map_on (fun entry member other memberToo same => ?_) places.of_map
  have found := (mem_owed_iff.mp member).1
  rw [same, (mem_owed_iff.mp memberToo).1] at found
  exact (Option.some.inj found).symm

/-- The prefixes that are bound from a mark on stand for something else before it. -/
def ChangesFrom (scope : Scope) (mark : Nat) : Prop :=
  ∀ (index : Nat) (binding : Binding), mark ≤ index → scope[index]? = some binding →
    uri? (scope.take mark) binding.nsPrefix ≠ some binding.uri

theorem changesFrom_length (scope : Scope) : scope.ChangesFrom scope.length := by
  intro index binding within stands
  rw [List.getElem?_eq_none within] at stands
  cases stands

theorem ChangesFrom.declare (changes : scope.ChangesFrom mark) (position : Nat) :
    ChangesFrom (scope.declare position) mark := by
  intro index binding within stands
  rw [getElem?_declare, Option.map_eq_some_iff] at stands
  rcases stands with ⟨older, stood, rfl⟩
  have differs := changes index older within stood
  rw [take_declare, uri?_declare]
  split <;> exact differs

theorem ChangesFrom.concat (changes : scope.ChangesFrom mark) (fits : mark ≤ scope.length)
    (differs : uri? (scope.take mark) binding.nsPrefix ≠ some binding.uri) :
    ChangesFrom (scope ++ [binding]) mark := by
  intro index other within stands
  rw [List.take_append_of_le_length fits]
  rw [List.getElem?_append] at stands
  split at stands
  · exact changes index other within stands
  · rw [List.getElem?_singleton] at stands
    split at stands
    · rwa [← Option.some.inj stands]
    · cases stands

end XmlStream.Scope
