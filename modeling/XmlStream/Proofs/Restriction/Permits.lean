import XmlStream.Proofs.Reset.Mirror

namespace XmlStream

/-! One action permits another one if the other one succeeds wherever it does, with the same
result. Nothing is said of what the first action refuses. -/

variable {ε σ α β : Type} {Before Middle After : σ → σ → Prop}

/-- What succeeds in the first state succeeds in the second one too, and leads on. -/
def Permits (Before After : σ → σ → Prop) (action other : EStateM ε σ α) : Prop :=
  ∀ ⦃first second⦄, Before first second → ∀ ⦃value after⦄, action first = .ok value after →
    ∃ afterToo, other second = .ok value afterToo ∧ After after afterToo

theorem Agree.of_ok {Related : σ → σ → Prop} {value : α} {after : σ}
    {result : EStateM.Result ε σ α} (agrees : Agree Related (.ok value after) result) :
    ∃ afterToo, result = .ok value afterToo ∧ Related after afterToo := by
  cases agrees with
  | ok _ related => exact ⟨_, rfl, related⟩

variable {action other : EStateM ε σ α}

theorem Mirrors.permits (mirrors : Mirrors Before action other) : Permits Before Before action other := by
  intro first second before value after ok
  have agrees := mirrors before
  rw [ok] at agrees
  exact agrees.of_ok

namespace Permits

theorem pure (value : α) :
    Permits Before Before (Pure.pure value : EStateM ε σ α) (Pure.pure value) :=
  (Mirrors.pure value).permits

theorem throw (error : ε) (other : EStateM ε σ α) :
    Permits Before After (MonadExcept.throw error) other := by
  intro first second _ value after ok
  simp [throw_run] at ok

theorem mono {Narrower Wider : σ → σ → Prop} (permits : Permits Before After action other)
    (narrower : ∀ first second, Narrower first second → Before first second)
    (wider : ∀ first second, After first second → Wider first second) :
    Permits Narrower Wider action other := by
  intro first second before value after ok
  rcases permits (narrower _ _ before) ok with ⟨afterToo, does, related⟩
  exact ⟨afterToo, does, wider _ _ related⟩

theorem bind {next rest : α → EStateM ε σ β} (permits : Permits Before Middle action other)
    (later : ∀ value, Permits Middle After (next value) (rest value)) :
    Permits Before After (action >>= next) (other >>= rest) := by
  intro first second before result after ok
  rcases bind_eq_ok.mp ok with ⟨value, middle, does, goes⟩
  rcases permits before does with ⟨middleToo, doesToo, related⟩
  rcases later value related goes with ⟨afterToo, goesToo, last⟩
  exact ⟨afterToo, bind_eq_ok.mpr ⟨value, middleToo, doesToo, goesToo⟩, last⟩

theorem get_bind {next rest : σ → EStateM ε σ α}
    (later : ∀ first second, Before first second → Permits Before After (next first) (rest second)) :
    Permits Before After (get >>= next) (get >>= rest) :=
  fun first second before _ _ ok => later first second before before ok

theorem change {update otherwise : σ → σ}
    (keeps : ∀ first second, Before first second → After (update first) (otherwise second)) :
    Permits Before After (modify update : EStateM ε σ PUnit) (modify otherwise) := by
  intro first second before value after ok
  cases modify_eq_ok.mp ok
  exact ⟨_, rfl, keeps first second before⟩

theorem ite {condition : Prop} [Decidable condition] {left right : EStateM ε σ α}
    (permits : Permits Before After action other) (otherwise : Permits Before After left right) :
    Permits Before After (if condition then action else left)
      (if condition then other else right) := by
  split
  · exact permits
  · exact otherwise

theorem refuse {condition stronger : Prop} [Decidable condition] [Decidable stronger] {error : ε}
    {refused : EStateM ε σ α} (weaker : stronger → condition)
    (permits : Permits Before After action other) :
    Permits Before After (if condition then MonadExcept.throw error else action)
      (if stronger then refused else other) := by
  by_cases refuses : condition
  · rw [if_pos refuses]
    exact throw _ _
  · rw [if_neg refuses, if_neg fun too => refuses (weaker too)]
    exact permits

end Permits

end XmlStream
