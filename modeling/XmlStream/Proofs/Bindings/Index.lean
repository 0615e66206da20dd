import Mathlib.Data.List.Induction
import XmlStream.Proofs.Bindings.Scope

namespace XmlStream

/-! Keeping the index over bindings right. Every operation on bindings is one on
their plain list, and when the index was sound before, it is sound afterwards. -/

namespace Scope

theorem position?_eq_of_prefixes {left right : Scope}
    (same : left.map (·.nsPrefix) = right.map (·.nsPrefix)) (nsPrefix : String) :
    left.position? nsPrefix = right.position? nsPrefix := by
  have onPrefixes : ∀ scope : Scope, scope.position? nsPrefix =
      ((scope.map (·.nsPrefix)).zipIdx.reverse.find? (·.1 == nsPrefix)).map Prod.snd := by
    intro scope
    induction scope using List.reverseRecOn with
    | nil => rfl
    | append_singleton scope last induction =>
        rw [position?_concat, induction]
        by_cases equal : last.nsPrefix = nsPrefix <;> simp [List.zipIdx_append, equal]
  rw [onPrefixes, onPrefixes, same]

theorem position?_map_bare (scope : Scope) (nsPrefix : String) :
    position? (scope.map Binding.bare) nsPrefix = scope.position? nsPrefix :=
  position?_eq_of_prefixes (by simp [Function.comp_def]) nsPrefix

end Scope

namespace Bindings

def scope (bindings : Bindings) : Scope := bindings.entries.toList.map Binding.bare

/-- An index gives the newest position of each prefix, and each binding knows the
one it hides. -/
structure Indexes (entries : List Binding) (index : Std.HashMap String Nat) : Prop where
  newest : ∀ nsPrefix, index[nsPrefix]? = Scope.position? entries nsPrefix
  hidden : ∀ position binding, entries[position]? = some binding →
    binding.hidden = Scope.position? (entries.take position) binding.nsPrefix

def Sound (bindings : Bindings) : Prop :=
  ∀ index, bindings.index = some index → Indexes bindings.entries.toList index

/-! ## Keeping an index -/

theorem indexes_nil : Indexes [] ∅ where
  newest nsPrefix := by simp [Scope.position?]
  hidden position binding stands := by simp at stands

theorem Indexes.concat {entries : List Binding} {index : Std.HashMap String Nat}
    (sound : Indexes entries index) (binding : Binding) :
    Indexes (entries ++ [{ binding with hidden := index[binding.nsPrefix]? }])
      (index.insert binding.nsPrefix entries.length) where
  newest nsPrefix := by
    rw [Scope.position?_concat, Std.HashMap.getElem?_insert]
    by_cases same : binding.nsPrefix = nsPrefix
    · simp [same]
    · simp [same, sound.newest nsPrefix]
  hidden position found stands := by
    by_cases old : position < entries.length
    · rw [List.getElem?_append_left old] at stands
      rw [List.take_append_of_le_length (Nat.le_of_lt old)]
      exact sound.hidden position found stands
    · rw [List.getElem?_append_right (Nat.le_of_not_lt old)] at stands
      have last : position = entries.length := by
        have bound := (List.getElem?_eq_some_iff.mp stands).1
        simp only [List.length_singleton] at bound
        omega
      subst last
      simp only [Nat.sub_self, List.getElem?_cons_zero, Option.some.injEq] at stands
      subst stands
      simp [sound.newest]

theorem Indexes.init {entries : List Binding} {binding : Binding}
    {index : Std.HashMap String Nat} (sound : Indexes (entries ++ [binding]) index) :
    Indexes entries (leave index binding) where
  newest nsPrefix := by
    have newest := sound.newest nsPrefix
    have hidden := sound.hidden entries.length binding (by simp)
    rw [List.take_left] at hidden
    rw [Scope.position?_concat] at newest
    by_cases same : binding.nsPrefix = nsPrefix
    · subst same
      rw [← hidden]
      cases older : binding.hidden <;> simp [leave, older]
    · simp only [same, if_false] at newest
      cases older : binding.hidden <;>
        simp [leave, older, Std.HashMap.getElem?_insert, Std.HashMap.getElem?_erase, same, newest]
  hidden position found stands := by
    have old : position < entries.length := (List.getElem?_eq_some_iff.mp stands).1
    have hidden := sound.hidden position found (by rwa [List.getElem?_append_left old])
    rwa [List.take_append_of_le_length (Nat.le_of_lt old)] at hidden

/-- Making an index enters the bindings one by one. Those that are entered are
indexed already, and the others are as they were. -/
theorem indexes_foldl_enter (entries : Array Binding) (count : Nat)
    (within : count ≤ entries.size) :
    let target := (List.range count).foldl enter (entries, ∅)
    ∃ entered, target.1.toList = entered ++ entries.toList.drop count ∧
      entered.length = count ∧ entered.map Binding.bare =
        (entries.toList.take count).map Binding.bare ∧ Indexes entered target.2 := by
  induction count with
  | zero => exact ⟨[], by simp, rfl, by simp, indexes_nil⟩
  | succ count induction =>
      obtain ⟨entered, parts, rfl, same, sound⟩ := induction (by omega)
      rw [List.range_succ, List.foldl_append, List.foldl_cons, List.foldl_nil]
      generalize (List.range entered.length).foldl enter (entries, ∅) = target at parts sound
      have inside : entered.length < entries.toList.length := by
        simpa using Nat.lt_of_succ_le within
      obtain ⟨binding, here⟩ : ∃ binding, entries.toList[entered.length]? = some binding :=
        ⟨_, List.getElem?_eq_getElem inside⟩
      rw [List.drop_eq_getElem?_toList_append, here] at parts
      have next : target.1[entered.length]? = some binding := by
        rw [← Array.getElem?_toList, parts]
        simp
      refine ⟨entered ++ [{ binding with hidden := target.2[binding.nsPrefix]? }], ?_,
        by simp, ?_, ?_⟩
      · simp [enter, next, parts]
      · rw [List.take_add_one, here]
        simp [same, Binding.bare]
      · simp only [enter, next]
        exact sound.concat binding

/-! ## Operations -/

theorem sound_of_index_eq_none {bindings : Bindings} (none : bindings.index = none) :
    bindings.Sound := by
  intro index some
  rw [none] at some
  contradiction

@[simp] theorem scope_indexed (entries : Array Binding) :
    (indexed entries).scope = entries.toList.map Binding.bare := by
  obtain ⟨entered, parts, _, same, _⟩ := indexes_foldl_enter entries entries.size (Nat.le_refl _)
  have all : entries.toList.length ≤ entries.size := by simp
  rw [List.drop_of_length_le all, List.append_nil] at parts
  rw [List.take_of_length_le all] at same
  simp [scope, indexed, parts, same]

theorem sound_indexed (entries : Array Binding) : (indexed entries).Sound := by
  obtain ⟨entered, parts, _, _, sound⟩ := indexes_foldl_enter entries entries.size (Nat.le_refl _)
  have all : entries.toList.length ≤ entries.size := by simp
  rw [List.drop_of_length_le all, List.append_nil] at parts
  intro index found
  cases found
  simpa [indexed, parts] using sound

theorem scope_push (bindings : Bindings) (nsPrefix uri : String) (declared : Bool) :
    (bindings.push nsPrefix uri declared).scope =
      bindings.scope ++ [({ nsPrefix, uri, declared } : Binding)] := by
  cases found : bindings.index with
  | some index => simp [push, found, enter, scope, size, Binding.bare]
  | none =>
      simp only [push, found]
      split
      · rw [scope_indexed]
        simp [scope, Binding.bare]
      · simp [scope, Binding.bare]

theorem Sound.push {bindings : Bindings} (sound : bindings.Sound) (nsPrefix uri : String)
    (declared : Bool) : (bindings.push nsPrefix uri declared).Sound := by
  cases found : bindings.index with
  | some index =>
      have grown := (sound index found).concat ⟨nsPrefix, uri, declared, none⟩
      intro index' found'
      simp only [Bindings.push, found, enter, size] at found' ⊢
      simp at found'
      subst found'
      simpa using grown
  | none =>
      simp only [Bindings.push, found]
      split
      · exact sound_indexed _
      · exact sound_of_index_eq_none rfl

theorem toList_setDeclared (bindings : Bindings) (position : Nat) :
    (bindings.setDeclared position).entries.toList =
      bindings.entries.toList.modify position fun binding => { binding with declared := true } := by
  apply List.ext_getElem?
  intro other
  unfold setDeclared
  rw [List.getElem?_modify]
  cases found : bindings.entries[position]? with
  | none => by_cases same : position = other <;> simp_all
  | some binding =>
      obtain ⟨inside, rfl⟩ := Array.getElem?_eq_some_iff.mp found
      by_cases same : position = other
      · subst same
        simp [inside]
      · simp [same]

theorem scope_setDeclared (bindings : Bindings) (position : Nat) :
    (bindings.setDeclared position).scope = bindings.scope.declare position := by
  apply List.ext_getElem?
  intro other
  simp only [scope, Scope.declare, toList_setDeclared, List.getElem?_modify, List.getElem?_map]
  by_cases same : position = other <;> simp [same, Binding.bare, Function.comp_def]

theorem index_setDeclared (bindings : Bindings) (position : Nat) :
    (bindings.setDeclared position).index = bindings.index := by
  unfold setDeclared
  split <;> rfl

theorem Indexes.declare {entries : List Binding} {index : Std.HashMap String Nat}
    (sound : Indexes entries index) (position : Nat) :
    Indexes (entries.modify position fun binding => { binding with declared := true }) index := by
  have prefixes : ∀ count,
      ((entries.modify position fun binding => { binding with declared := true }).take
        count).map (·.nsPrefix) = (entries.take count).map (·.nsPrefix) := by
    intro count
    apply List.ext_getElem?
    intro other
    simp only [List.getElem?_map, List.getElem?_take, List.getElem?_modify]
    by_cases same : position = other <;> by_cases inside : other < count <;>
      simp [same, inside, Function.comp_def]
  constructor
  · intro nsPrefix
    rw [sound.newest]
    have all := prefixes entries.length
    rw [List.take_of_length_le (by simp), List.take_of_length_le (Nat.le_refl _)] at all
    exact (Scope.position?_eq_of_prefixes all nsPrefix).symm
  · intro other binding stands
    rw [Scope.position?_eq_of_prefixes (prefixes other)]
    rw [List.getElem?_modify] at stands
    obtain ⟨before, there, changed⟩ := Option.map_eq_some_iff.mp stands
    have hidden := sound.hidden other before there
    by_cases same : position = other
    · simp only [same, if_true] at changed
      subst changed
      exact hidden
    · simp only [same, if_false] at changed
      subst changed
      exact hidden

theorem Sound.setDeclared {bindings : Bindings} (sound : bindings.Sound) (position : Nat) :
    (bindings.setDeclared position).Sound := by
  intro index found
  rw [index_setDeclared] at found
  rw [toList_setDeclared]
  exact (sound index found).declare position

theorem scope_popTo (bindings : Bindings) (mark : Nat) :
    (bindings.popTo mark).scope = bindings.scope.take mark := by
  simp [popTo, scope, List.map_take]

/-- Dropping bindings winds the index back, newest binding first. -/
theorem Indexes.take {entries : List Binding} {index : Std.HashMap String Nat}
    (sound : Indexes entries index) (mark : Nat) :
    Indexes (entries.take mark) ((entries.drop mark).reverse.foldl leave index) := by
  induction entries using List.reverseRecOn generalizing index with
  | nil => simpa using sound
  | append_singleton entries last induction =>
      by_cases within : mark ≤ entries.length
      · rw [List.take_append_of_le_length within, List.drop_append_of_le_length within]
        simpa using induction sound.init
      · have all : (entries ++ [last]).length ≤ mark := by simp; omega
        rw [List.take_of_length_le all, List.drop_of_length_le all]
        exact sound

theorem Sound.popTo {bindings : Bindings} (sound : bindings.Sound) (mark : Nat) :
    (bindings.popTo mark).Sound := by
  intro index found
  obtain ⟨before, there, rfl⟩ := Option.map_eq_some_iff.mp found
  simpa [Bindings.popTo] using (sound before there).take mark

end Bindings

end XmlStream
