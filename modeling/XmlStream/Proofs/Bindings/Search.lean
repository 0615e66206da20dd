import XmlStream.Proofs.Bindings.Fresh
import XmlStream.Proofs.Bindings.Latest

namespace XmlStream.Bindings

/-! The search for a prefix to make up. It counts on from the last number until a prefix is not
bound, and nothing but the bindings makes it end. -/

/-- Counting on from `count` ends after so many rounds, at a number whose prefix is not bound. -/
inductive Searches (bindings : Bindings) (depth : Nat) : (count rounds number : Nat) → Prop
  | found {count : Nat} (free : bindings.lookup? (generatedPrefix depth (count + 1)) = none) :
      Searches bindings depth count 1 (count + 1)
  | again {count rounds number : Nat}
      (taken : (bindings.lookup? (generatedPrefix depth (count + 1))).isSome)
      (rest : Searches bindings depth (count + 1) rounds number) :
      Searches bindings depth count (rounds + 1) number

variable {bindings : Bindings} {depth count rounds number : Nat}

theorem Searches.free (searches : bindings.Searches depth count rounds number) :
    bindings.lookup? (generatedPrefix depth number) = none := by
  induction searches with
  | found free => exact free
  | again _ _ induction => exact induction

theorem Searches.number_eq (searches : bindings.Searches depth count rounds number) :
    number = count + rounds ∧ 0 < rounds := by
  induction searches with
  | found => exact ⟨rfl, Nat.one_pos⟩
  | again _ _ induction => omega

theorem Searches.unique (searches : bindings.Searches depth count rounds number)
    {roundsToo numberToo : Nat} (other : bindings.Searches depth count roundsToo numberToo) :
    roundsToo = rounds ∧ numberToo = number := by
  induction searches generalizing roundsToo with
  | found free =>
      cases other with
      | found => exact ⟨rfl, rfl⟩
      | again taken _ =>
          rw [free] at taken
          cases taken
  | again taken _ induction =>
      cases other with
      | found free =>
          rw [free] at taken
          cases taken
      | again _ rest =>
          obtain ⟨sameRounds, sameNumber⟩ := induction rest
          exact ⟨congrArg (· + 1) sameRounds, sameNumber⟩

theorem searches_freshNumber (bindings : Bindings) (depth count tries : Nat)
    (free : bindings.lookup? (generatedPrefix depth
      (bindings.freshNumber depth count tries)) = none) :
    ∃ rounds ≤ tries + 1,
      bindings.Searches depth count rounds (bindings.freshNumber depth count tries) := by
  induction tries generalizing count with
  | zero => exact ⟨1, Nat.le_refl 1, .found free⟩
  | succ tries induction =>
      rw [freshNumber] at free ⊢
      cases first : bindings.lookup? (generatedPrefix depth (count + 1)) with
      | none =>
          rw [Option.isNone_none, if_pos rfl]
          exact ⟨1, by omega, .found first⟩
      | some position =>
          have taken : (bindings.lookup? (generatedPrefix depth (count + 1))).isSome := by
            rw [first, Option.isSome_some]
          rw [first, Option.isNone_some, if_neg Bool.false_ne_true] at free
          rw [Option.isNone_some, if_neg Bool.false_ne_true]
          obtain ⟨rounds, few, searches⟩ := induction (count + 1) free
          exact ⟨rounds + 1, Nat.succ_le_succ few, .again taken searches⟩

/-- The search ends, after one more round than there are bindings at the latest. -/
theorem Sound.searches_nextNumber (sound : bindings.Sound) (depth count : Nat) :
    ∃ rounds ≤ bindings.size + 1,
      bindings.Searches depth count rounds (bindings.nextNumber depth count) :=
  searches_freshNumber bindings depth count bindings.size (sound.lookup?_nextNumber depth count)

theorem Sound.notMem_of_lookup? (sound : bindings.Sound) {nsPrefix : String}
    (free : bindings.lookup? nsPrefix = none) : nsPrefix ∉ bindings.scope.map (·.nsPrefix) := by
  rw [sound.lookup?_eq, Scope.position?, Option.map_eq_none_iff, Scope.latest?_eq_none_iff] at free
  intro member
  obtain ⟨binding, stands, named⟩ := List.mem_map.mp member
  exact free binding stands named

theorem Searches.notMem (searches : bindings.Searches depth count rounds number)
    (sound : bindings.Sound) :
    generatedPrefix depth number ∉ bindings.scope.map (·.nsPrefix) :=
  sound.notMem_of_lookup? searches.free

end XmlStream.Bindings
