import XmlStream.Bindings

namespace XmlStream

/-! Bindings as a plain list, oldest first. Whatever way bindings are looked up,
the answer is that of a scan of this list from its end. -/

def Binding.bare (binding : Binding) : Binding := { binding with hidden := none }

@[simp] theorem Binding.bare_nsPrefix (binding : Binding) :
    binding.bare.nsPrefix = binding.nsPrefix := rfl

@[simp] theorem Binding.bare_uri (binding : Binding) : binding.bare.uri = binding.uri := rfl

@[simp] theorem Binding.bare_declared (binding : Binding) :
    binding.bare.declared = binding.declared := rfl

/-- Bindings in the order in which they came into scope. -/
abbrev Scope := List Binding

namespace Scope

def latest? (scope : Scope) (nsPrefix : String) : Option (Binding × Nat) :=
  scope.zipIdx.reverse.find? fun entry => entry.1.nsPrefix == nsPrefix

def position? (scope : Scope) (nsPrefix : String) : Option Nat :=
  (scope.latest? nsPrefix).map Prod.snd

def uri? (scope : Scope) (nsPrefix : String) : Option String :=
  (scope.latest? nsPrefix).map fun entry => entry.1.uri

/-- The prefix of the newest binding to a namespace that no newer binding hides. -/
def prefixOf? (scope : Scope) (uri : String) : Option String :=
  (scope.zipIdx.reverse.find? fun entry =>
    entry.1.uri == uri && scope.position? entry.1.nsPrefix == some entry.2).map
      fun entry => entry.1.nsPrefix

/-- The bindings from `mark` on, newest first, whose declarations are still to be
written, with their positions. -/
def owed (scope : Scope) (mark : Nat) : List (Binding × Nat) :=
  (scope.zipIdx.drop mark).reverse.filter fun entry =>
    !entry.1.declared && scope.position? entry.1.nsPrefix == some entry.2

def declare (scope : Scope) (position : Nat) : Scope :=
  scope.modify position fun binding => { binding with declared := true }

@[simp] theorem latest?_nil (nsPrefix : String) : latest? [] nsPrefix = none := rfl

theorem latest?_concat (scope : Scope) (binding : Binding) (nsPrefix : String) :
    latest? (scope ++ [binding]) nsPrefix =
      if binding.nsPrefix = nsPrefix then some (binding, scope.length)
      else scope.latest? nsPrefix := by
  by_cases same : binding.nsPrefix = nsPrefix <;>
    simp [latest?, List.zipIdx_append, same]

theorem position?_concat (scope : Scope) (binding : Binding) (nsPrefix : String) :
    position? (scope ++ [binding]) nsPrefix =
      if binding.nsPrefix = nsPrefix then some scope.length
      else scope.position? nsPrefix := by
  unfold position?
  rw [latest?_concat]
  split <;> rfl

theorem uri?_concat (scope : Scope) (binding : Binding) (nsPrefix : String) :
    uri? (scope ++ [binding]) nsPrefix =
      if binding.nsPrefix = nsPrefix then some binding.uri
      else scope.uri? nsPrefix := by
  unfold uri?
  rw [latest?_concat]
  split <;> rfl

theorem latest?_eq_some {scope : Scope} {nsPrefix : String} {binding : Binding}
    {position : Nat} (found : scope.latest? nsPrefix = some (binding, position)) :
    scope[position]? = some binding ∧ binding.nsPrefix = nsPrefix := by
  have member := List.mem_of_find?_eq_some found
  have wanted := List.find?_some found
  rw [List.mem_reverse, List.mem_zipIdx_iff_getElem?] at member
  exact ⟨by simpa using member, by simpa using wanted⟩

theorem position?_lt {scope : Scope} {nsPrefix : String} {position : Nat}
    (found : scope.position? nsPrefix = some position) : position < scope.length := by
  obtain ⟨entry, latest, rfl⟩ := Option.map_eq_some_iff.mp found
  have stands := (latest?_eq_some latest).1
  exact (List.getElem?_eq_some_iff.mp stands).1

end Scope

end XmlStream
