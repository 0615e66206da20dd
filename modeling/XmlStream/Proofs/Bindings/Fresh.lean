import Mathlib.Data.List.Nodup
import Mathlib.Data.List.Perm.Subperm
import XmlStream.Proofs.Bindings.Lookup

namespace XmlStream.Bindings

/-! Prefixes that are made up. Each number gives another prefix, so among one more
number than there are bindings there is one whose prefix is not bound. -/

theorem generatedPrefix_toList (depth number : Nat) :
    (generatedPrefix depth number).toList =
      'd' :: (Nat.toDigits 10 depth ++ 'p' :: Nat.toDigits 10 number) := by
  simp [generatedPrefix, Nat.repr_eq_ofList_toDigits, toString]

theorem generatedPrefix_inj {depth number other : Nat}
    (same : generatedPrefix depth number = generatedPrefix depth other) : number = other := by
  have lists := congrArg String.toList same
  simp only [generatedPrefix_toList, List.cons.injEq, true_and, List.append_cancel_left_eq]
    at lists
  have numbers := congrArg (Nat.ofDigitChars 10 · 0) lists
  simpa using numbers

theorem isSome_of_freshNumber (bindings : Bindings) (depth count tries : Nat)
    (bound : (bindings.lookup? (generatedPrefix depth
      (bindings.freshNumber depth count tries))).isSome) :
    ∀ offset ≤ tries, (bindings.lookup? (generatedPrefix depth (count + 1 + offset))).isSome := by
  induction tries generalizing count with
  | zero =>
      intro offset within
      rw [Nat.le_zero.mp within]
      exact bound
  | succ tries induction =>
      rw [freshNumber] at bound
      cases first : bindings.lookup? (generatedPrefix depth (count + 1)) with
      | none => simp [first] at bound
      | some position =>
          simp only [first, Option.isNone_some, Bool.false_eq_true, if_false] at bound
          intro offset within
          cases offset with
          | zero => simp [first]
          | succ offset =>
              have later := induction (count + 1) bound offset (by omega)
              rwa [show count + 1 + (offset + 1) = count + 1 + 1 + offset by omega]

theorem mem_of_position? {scope : Scope} {nsPrefix : String}
    (bound : (scope.position? nsPrefix).isSome) : nsPrefix ∈ scope.map (·.nsPrefix) := by
  obtain ⟨position, found⟩ := Option.isSome_iff_exists.mp bound
  obtain ⟨entry, latest, _⟩ := Option.map_eq_some_iff.mp found
  obtain ⟨stands, rfl⟩ := Scope.latest?_eq_some latest
  exact List.mem_map_of_mem (List.mem_of_getElem? stands)

theorem Sound.lookup?_nextNumber {bindings : Bindings} (sound : bindings.Sound)
    (depth count : Nat) :
    bindings.lookup? (generatedPrefix depth (bindings.nextNumber depth count)) = none := by
  by_contra bound
  rw [← Option.isNone_iff_eq_none, Bool.not_eq_true, Option.isNone_eq_false_iff] at bound
  have all := isSome_of_freshNumber bindings depth count bindings.size bound
  let made := (List.range (bindings.size + 1)).map fun offset =>
    generatedPrefix depth (count + 1 + offset)
  have distinct : made.Nodup := by
    apply List.nodup_range.map
    intro first second same
    have numbers := generatedPrefix_inj same
    omega
  have inside : made ⊆ bindings.scope.map (·.nsPrefix) := by
    intro nsPrefix member
    obtain ⟨offset, within, rfl⟩ := List.mem_map.mp member
    apply mem_of_position?
    rw [← sound.lookup?_eq]
    exact all offset (Nat.le_of_lt_succ (List.mem_range.mp within))
  have lengths := (List.subperm_of_subset distinct inside).length_le
  simp only [made, List.length_map, List.length_range, length_scope] at lengths
  omega

end XmlStream.Bindings
