import Mathlib.Data.List.Induction
import Mathlib.Data.List.Nodup
import XmlStream.Proofs.Draft.Frame

namespace XmlStream

/-! The bindings of a scope in tiers, one for each open element. Marks say where a tier
begins: the first mark is that of the innermost element. -/

namespace Scope

theorem le_position? {scope : Scope} {index : Nat} {binding : Binding}
    (stands : scope[index]? = some binding) :
    ∃ position, scope.position? binding.nsPrefix = some position ∧ index ≤ position := by
  induction scope using List.reverseRecOn with
  | nil => simp at stands
  | append_singleton older last induction =>
      have inside := (List.getElem?_eq_some_iff.mp stands).1
      rw [position?_concat]
      split
      · exact ⟨older.length, rfl, by simp at inside; omega⟩
      · rename_i different
        apply induction
        rwa [List.getElem?_append_left] at stands
        by_contra beyond
        have last_ : index = older.length := by simp at inside; omega
        subst last_
        simp at stands
        exact different (by rw [stands])

theorem getElem?_position? {scope : Scope} {nsPrefix : String} {position : Nat}
    (found : scope.position? nsPrefix = some position) :
    ∃ binding, scope[position]? = some binding ∧ binding.nsPrefix = nsPrefix := by
  obtain ⟨entry, latest, rfl⟩ := Option.map_eq_some_iff.mp found
  exact ⟨entry.1, latest?_eq_some latest⟩

theorem position?_eq_of_nodup {scope : Scope} {mark index : Nat} {binding : Binding}
    (distinct : ((scope.drop mark).map (·.nsPrefix)).Nodup) (within : mark ≤ index)
    (stands : scope[index]? = some binding) :
    scope.position? binding.nsPrefix = some index := by
  obtain ⟨position, found, later⟩ := le_position? stands
  obtain ⟨newest, there, same⟩ := getElem?_position? found
  have names (place : Nat) (after : mark ≤ place) :
      ((scope.drop mark).map (·.nsPrefix))[place - mark]? = (scope[place]?).map (·.nsPrefix) := by
    rw [List.getElem?_map, List.getElem?_drop, Nat.add_sub_cancel' after]
  have equal : ((scope.drop mark).map (·.nsPrefix))[index - mark]? =
      ((scope.drop mark).map (·.nsPrefix))[position - mark]? := by
    rw [names index within, names position (by omega), stands, there]
    simp [same]
  have inside : index - mark < ((scope.drop mark).map (·.nsPrefix)).length := by
    have bound := (List.getElem?_eq_some_iff.mp stands).1
    simp only [List.length_map, List.length_drop]
    omega
  have places := (List.getElem?_inj inside distinct).mp equal
  rw [found]
  congr 1
  omega

theorem getElem?_declare (scope : Scope) (position index : Nat) :
    (scope.declare position)[index]? = (scope[index]?).map fun binding =>
      if position = index then { binding with declared := true } else binding := by
  rw [declare, List.getElem?_modify, Option.map_eq_map]

theorem declare_of_declared {scope : Scope} (declared : ∀ binding ∈ scope, binding.declared = true)
    (position : Nat) : scope.declare position = scope := by
  apply List.ext_getElem?
  intro index
  rw [getElem?_declare]
  cases found : scope[index]? with
  | none => rfl
  | some binding =>
      have isDeclared := declared binding (List.mem_of_getElem? found)
      rw [Option.map_some]
      split
      · rw [← isDeclared]
      · rfl

theorem map_nsPrefix_declare (scope : Scope) (position : Nat) :
    (scope.declare position).map (·.nsPrefix) = scope.map (·.nsPrefix) := by
  apply List.ext_getElem?
  intro index
  rw [List.getElem?_map, getElem?_declare, List.getElem?_map, Option.map_map]
  congr 1
  funext binding
  simp only [Function.comp]
  split <;> rfl

theorem take_declare (scope : Scope) (position mark : Nat) :
    (scope.declare position).take mark = Scope.declare (scope.take mark) position := by
  apply List.ext_getElem?
  intro index
  simp only [declare, List.getElem?_take, List.getElem?_modify]
  split <;> simp

/-- The tiers of a scope, innermost first. The last one belongs to no element. -/
def tiers (scope : Scope) : List Nat → List Scope
  | [] => [scope]
  | mark :: outer => scope.drop mark :: tiers (scope.take mark) outer

/-- Every tier binds a prefix once, all tiers but the innermost one are declared, and the
outermost one has the binding of `xml` only. -/
def Tiered (scope : Scope) : List Nat → Prop
  | [] => scope = [Draft.xmlBinding]
  | mark :: outer =>
    mark ≤ scope.length ∧ ((scope.drop mark).map (·.nsPrefix)).Nodup ∧
      (∀ binding ∈ scope.take mark, binding.declared = true) ∧ Tiered (scope.take mark) outer

variable {scope : Scope} {marks : List Nat}

theorem Tiered.declare (tiered : Tiered scope marks) (position : Nat) :
    Tiered (scope.declare position) marks := by
  cases marks with
  | nil =>
      have only : scope = [Draft.xmlBinding] := tiered
      have declared : ∀ binding ∈ scope, binding.declared = true := by
        simp [only, Draft.xmlBinding]
      rwa [declare_of_declared declared]
  | cons mark outer =>
      obtain ⟨fits, distinct, declared, rest⟩ := tiered
      have outside : (scope.declare position).take mark = scope.take mark := by
        rw [take_declare, declare_of_declared declared]
      refine ⟨by simpa [Scope.declare] using fits, ?_, by rwa [outside], by rwa [outside]⟩
      rwa [List.map_drop, map_nsPrefix_declare, ← List.map_drop]

theorem Tiered.foldl_declare (tiered : Tiered scope marks) (owed : List (Binding × Nat)) :
    Tiered (owed.foldl (fun scope entry => scope.declare entry.2) scope) marks := by
  induction owed generalizing scope with
  | nil => exact tiered
  | cons entry rest induction => exact induction (tiered.declare entry.2)

theorem Tiered.concat {mark : Nat} {outer : List Nat} (tiered : Tiered scope (mark :: outer))
    {binding : Binding} (unused : (scope.position? binding.nsPrefix).filter (mark ≤ ·) = none) :
    Tiered (scope ++ [binding]) (mark :: outer) := by
  obtain ⟨fits, distinct, declared, rest⟩ := tiered
  have outside : (scope ++ [binding]).take mark = scope.take mark :=
    List.take_append_of_le_length fits
  refine ⟨by simp; omega, ?_, by rwa [outside], by rwa [outside]⟩
  rw [List.drop_append_of_le_length fits, List.map_append]
  refine List.Nodup.append distinct (List.nodup_singleton _) ?_
  intro name member fresh
  rw [List.map_singleton, List.mem_singleton] at fresh
  subst fresh
  obtain ⟨other, there, same⟩ := List.mem_map.mp member
  obtain ⟨offset, stands⟩ := List.mem_iff_getElem?.mp there
  rw [List.getElem?_drop] at stands
  obtain ⟨position, found, later⟩ := le_position? stands
  rw [same] at found
  rw [found] at unused
  have within : mark ≤ position := by omega
  simp [Option.filter_some, within] at unused

theorem Tiered.push (tiered : Tiered scope marks)
    (declared : ∀ binding ∈ scope, binding.declared = true) :
    Tiered scope (scope.length :: marks) := by
  refine ⟨Nat.le_refl _, by simp, ?_, ?_⟩ <;> rw [List.take_length]
  · exact declared
  · exact tiered

theorem getElem?_foldl_declare (owed : List (Binding × Nat)) (scope : Scope) (index : Nat) :
    (owed.foldl (fun scope entry => scope.declare entry.2) scope)[index]? =
      (scope[index]?).map fun binding =>
        if index ∈ owed.map (·.2) then { binding with declared := true } else binding := by
  induction owed generalizing scope with
  | nil => simp
  | cons entry rest induction =>
      rw [List.foldl_cons, induction, getElem?_declare, Option.map_map]
      congr 1
      funext binding
      simp only [Function.comp, List.map_cons, List.mem_cons]
      by_cases again : index ∈ rest.map (·.2)
      · by_cases first : entry.2 = index <;> simp [first, again]
      · by_cases first : entry.2 = index
        · simp [first]
        · have other : index ≠ entry.2 := fun same => first same.symm
          rw [if_neg first, if_neg again, if_neg (by simp [other, again])]

theorem declared_of_settled {mark : Nat} {outer : List Nat} (tiered : Tiered scope (mark :: outer))
    {binding : Binding}
    (member : binding ∈ (scope.owed mark).foldl (fun scope entry => scope.declare entry.2) scope) :
    binding.declared = true := by
  obtain ⟨fits, distinct, declared, rest⟩ := tiered
  obtain ⟨index, stands⟩ := List.mem_iff_getElem?.mp member
  rw [getElem?_foldl_declare] at stands
  obtain ⟨older, there, rfl⟩ := Option.map_eq_some_iff.mp stands
  split
  · rfl
  · rename_i notOwed
    by_contra undeclared
    rw [Bool.not_eq_true] at undeclared
    apply notOwed
    have within : mark ≤ index := by
      by_contra before
      have outside : older ∈ scope.take mark :=
        List.mem_of_getElem? (i := index) (by rw [List.getElem?_take_of_lt (by omega), there])
      rw [declared older outside] at undeclared
      cases undeclared
    refine List.mem_map.mpr ⟨(older, index), ?_, rfl⟩
    rw [owed, List.mem_filter, List.mem_reverse]
    refine ⟨?_, ?_⟩
    · apply List.mem_of_getElem? (i := index - mark)
      rw [List.getElem?_drop, Nat.add_sub_cancel' within, List.getElem?_zipIdx, there]
      simp
    · simp [undeclared, position?_eq_of_nodup distinct within there]

end Scope

end XmlStream
