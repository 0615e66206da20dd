import XmlStream.Proofs.Bindings.Index

namespace XmlStream.Bindings

/-! The index over bindings never shows. With a sound index, as with none, every
look-up is a scan of the plain list from its end. -/

/-! ## Scans -/

theorem newestBelow_eq (entries : Array Binding) (wanted : Nat → Binding → Bool)
    (bound : Nat) :
    newestBelow entries wanted bound =
      ((entries.toList.take bound).zipIdx.reverse.find? fun entry =>
        wanted entry.2 entry.1).map Prod.snd := by
  induction bound with
  | zero => rfl
  | succ bound induction =>
      rw [newestBelow, List.take_add_one, Array.getElem?_toList]
      cases found : entries[bound]? with
      | none => simpa using induction
      | some binding =>
          have length : (entries.toList.take bound).length = bound := by
            rw [← Array.getElem?_toList] at found
            have inside := (List.getElem?_eq_some_iff.mp found).1
            simp only [List.length_take]
            omega
          by_cases want : wanted bound binding = true
          · simp [List.zipIdx_append, length, want]
          · simp [List.zipIdx_append, length, want, induction]

theorem newest_eq (bindings : Bindings) (wanted : Nat → Binding → Bool) :
    bindings.newest wanted =
      (bindings.entries.toList.zipIdx.reverse.find? fun entry =>
        wanted entry.2 entry.1).map Prod.snd := by
  rw [newest, newestBelow_eq, List.take_of_length_le (by simp [size])]

/-! ## Look-ups -/

theorem Sound.lookup?_eq {bindings : Bindings} (sound : bindings.Sound) (nsPrefix : String) :
    bindings.lookup? nsPrefix = bindings.scope.position? nsPrefix := by
  rw [scope, Scope.position?_map_bare]
  cases found : bindings.index with
  | some index =>
      rw [lookup?, found]
      exact (sound index found).newest nsPrefix
  | none =>
      rw [lookup?, found]
      exact newest_eq bindings _

theorem find?_from_mark (entries : List Binding) (mark : Nat) (nsPrefix : String) :
    ((entries.zipIdx.reverse.find? fun entry =>
      mark ≤ entry.2 && entry.1.nsPrefix == nsPrefix).map Prod.snd) =
      (Scope.position? entries nsPrefix).filter (mark ≤ ·) := by
  induction entries using List.reverseRecOn with
  | nil => rfl
  | append_singleton entries last induction =>
      rw [Scope.position?_concat]
      by_cases same : last.nsPrefix = nsPrefix
      · by_cases within : mark ≤ entries.length
        · simp [List.zipIdx_append, same, within, Option.filter_some]
        · have none : (Scope.position? entries nsPrefix).filter (mark ≤ ·) = none := by
            apply Option.filter_eq_none_iff.mpr
            intro position found
            have inside := Scope.position?_lt found
            simp only [decide_eq_true_eq]
            omega
          simp only [none] at induction
          simp [List.zipIdx_append, same, within, Option.filter_some,
            Option.map_eq_none_iff.mp induction]
      · simp [List.zipIdx_append, same, induction]

theorem Sound.lookupFrom?_eq {bindings : Bindings} (sound : bindings.Sound) (mark : Nat)
    (nsPrefix : String) :
    bindings.lookupFrom? mark nsPrefix =
      (bindings.scope.position? nsPrefix).filter (mark ≤ ·) := by
  rw [scope, Scope.position?_map_bare]
  cases found : bindings.index with
  | some index =>
      rw [lookupFrom?, found]
      exact congrArg (·.filter (mark ≤ ·)) ((sound index found).newest nsPrefix)
  | none =>
      rw [lookupFrom?, found]
      exact (newest_eq bindings _).trans (find?_from_mark _ mark nsPrefix)

theorem getElem?_of_find? {entries : List Binding} {wanted : Binding × Nat → Bool}
    {entry : Binding × Nat} (found : entries.zipIdx.reverse.find? wanted = some entry) :
    entries[entry.2]? = some entry.1 := by
  have member := List.mem_of_find?_eq_some found
  rw [List.mem_reverse, List.mem_zipIdx_iff_getElem?] at member
  exact member

theorem Sound.boundTo?_eq {bindings : Bindings} (sound : bindings.Sound)
    (nsPrefix uri : String) :
    bindings.boundTo? nsPrefix uri =
      if bindings.scope.uri? nsPrefix = some uri then bindings.scope.position? nsPrefix
      else none := by
  rw [boundTo?, sound.lookup?_eq, Scope.position?, Scope.uri?]
  cases latest : bindings.scope.latest? nsPrefix with
  | none => simp
  | some entry =>
      have stands := (Scope.latest?_eq_some latest).1
      rw [scope, List.getElem?_map] at stands
      obtain ⟨binding, there, same⟩ := Option.map_eq_some_iff.mp stands
      have uri_eq : binding.uri = entry.1.uri := by rw [← same]; rfl
      simp only [Array.getElem?_toList] at there
      by_cases wanted : entry.1.uri = uri <;>
        simp [Option.filter_some, there, uri_eq, wanted]

theorem Sound.findPrefix?_eq {bindings : Bindings} (sound : bindings.Sound) (uri : String) :
    bindings.findPrefix? uri = bindings.scope.prefixOf? uri := by
  rw [Scope.prefixOf?, scope, List.zipIdx_map, ← List.map_reverse, List.find?_map]
  simp only [findPrefix?, newest_eq, isVisible, sound.lookup?_eq, scope,
    Scope.position?_map_bare, Function.comp_def, Prod.map_fst, Prod.map_snd,
    Binding.bare_uri, Binding.bare_nsPrefix, id]
  cases found : bindings.entries.toList.zipIdx.reverse.find? fun entry =>
      entry.1.uri == uri &&
        Scope.position? bindings.entries.toList entry.1.nsPrefix == some entry.2 with
  | none => rfl
  | some entry =>
      have stands := getElem?_of_find? found
      simp only [Array.getElem?_toList] at stands
      simp [stands]

/-- What is owed is the same without the index, up to what the bindings hide. -/
theorem Sound.owed_eq {bindings : Bindings} (sound : bindings.Sound) (mark : Nat) :
    (bindings.owed mark).map (fun entry => (entry.2.bare, entry.1)) =
      bindings.scope.owed mark := by
  rw [Scope.owed, scope, List.zipIdx_map, ← List.map_drop, ← List.map_reverse,
    List.filter_map]
  simp only [owed, isVisible, sound.lookup?_eq, scope, Scope.position?_map_bare,
    List.map_map]
  rfl

theorem freshNumber_congr {left right : Bindings}
    (same : ∀ nsPrefix, left.lookup? nsPrefix = right.lookup? nsPrefix)
    (depth count tries : Nat) :
    left.freshNumber depth count tries = right.freshNumber depth count tries := by
  induction tries generalizing count with
  | zero => rfl
  | succ tries induction => simp only [freshNumber, same, induction]

@[simp] theorem length_scope (bindings : Bindings) :
    bindings.scope.length = bindings.size := by
  simp [scope, size]

end XmlStream.Bindings
