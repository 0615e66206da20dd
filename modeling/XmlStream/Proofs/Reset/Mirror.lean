import XmlStream.Proofs.Action

namespace XmlStream

/-! Two runs of actions side by side. Actions mirror each other if from related states
they give the same results and fail with the same errors, and lead to related states. -/

variable {ε σ α β : Type} {Related : σ → σ → Prop}

inductive Agree (Related : σ → σ → Prop) : EStateM.Result ε σ α → EStateM.Result ε σ α → Prop
  | ok {first second : σ} (value : α) (related : Related first second) :
      Agree Related (.ok value first) (.ok value second)
  | error {first second : σ} (error : ε) (related : Related first second) :
      Agree Related (.error error first) (.error error second)

theorem Agree.mono {Wider : σ → σ → Prop} {result resultToo : EStateM.Result ε σ α}
    (agrees : Agree Related result resultToo)
    (wider : ∀ first second, Related first second → Wider first second) :
    Agree Wider result resultToo := by
  cases agrees with
  | ok value related => exact .ok value (wider _ _ related)
  | error error related => exact .error error (wider _ _ related)

/-- Two actions do the same to related states. -/
def Mirrors (Related : σ → σ → Prop) (action other : EStateM ε σ α) : Prop :=
  ∀ ⦃first second⦄, Related first second → Agree Related (action first) (other second)

namespace Mirrors

variable {action other : EStateM ε σ α}

theorem pure (value : α) : Mirrors Related (Pure.pure value : EStateM ε σ α) (Pure.pure value) :=
  fun _ _ related => .ok value related

theorem throw (error : ε) :
    Mirrors Related (MonadExcept.throw error : EStateM ε σ α) (MonadExcept.throw error) :=
  fun _ _ related => .error error related

theorem bind {next rest : α → EStateM ε σ β} (mirrors : Mirrors Related action other)
    (later : ∀ value, Mirrors Related (next value) (rest value)) :
    Mirrors Related (action >>= next) (other >>= rest) := by
  intro first second related
  have here := mirrors related
  simp only [Bind.bind, EStateM.bind]
  generalize action first = result at here ⊢
  generalize other second = result at here ⊢
  cases here with
  | ok value related => exact later value related
  | error error related => exact .error error related

theorem get_bind {next rest : σ → EStateM ε σ α}
    (later : ∀ first second, Related first second → Mirrors Related (next first) (rest second)) :
    Mirrors Related (get >>= next) (get >>= rest) :=
  fun first second related => later first second related related

theorem set {before after : σ} (related : Related before after) :
    Mirrors Related (MonadStateOf.set before : EStateM ε σ PUnit) (MonadStateOf.set after) :=
  fun _ _ _ => .ok _ related

theorem change {update otherwise : σ → σ}
    (keeps : ∀ first second, Related first second → Related (update first) (otherwise second)) :
    Mirrors Related (modify update : EStateM ε σ PUnit) (modify otherwise) :=
  fun first second related => .ok _ (keeps first second related)

theorem ite {condition : Prop} [Decidable condition] {left right : EStateM ε σ α}
    (mirrors : Mirrors Related action other) (otherwise : Mirrors Related left right) :
    Mirrors Related (if condition then action else left) (if condition then other else right) := by
  split
  · exact mirrors
  · exact otherwise

theorem when {condition : Prop} [Decidable condition] {action other : EStateM ε σ PUnit}
    {next rest : PUnit → EStateM ε σ β} (mirrors : Mirrors Related action other)
    (later : Mirrors Related (next ⟨⟩) (rest ⟨⟩)) :
    Mirrors Related (if condition then action >>= next else next ⟨⟩)
      (if condition then other >>= rest else rest ⟨⟩) :=
  .ite (.bind mirrors fun _ => later) later

theorem tryCatch {handler fallback : ε → EStateM ε σ α} (mirrors : Mirrors Related action other)
    (later : ∀ error, Mirrors Related (handler error) (fallback error)) :
    Mirrors Related (MonadExcept.tryCatch action handler) (MonadExcept.tryCatch other fallback) := by
  intro first second related
  have here := mirrors related
  simp only [tryCatch_run]
  generalize action first = result at here ⊢
  generalize other second = result at here ⊢
  cases here with
  | ok value related => exact .ok value related
  | error error related => exact later error related

theorem or {Other : σ → σ → Prop} (mirrors : Mirrors Related action other)
    (mirrorsToo : Mirrors Other action other) :
    Mirrors (fun first second => Related first second ∨ Other first second) action other := by
  rintro first second (related | related)
  · exact (mirrors related).mono fun _ _ => .inl
  · exact (mirrorsToo related).mono fun _ _ => .inr

theorem forM {γ : Type} (entries : List γ) {action other : γ → EStateM ε σ PUnit}
    (mirrors : ∀ entry, Mirrors Related (action entry) (other entry)) :
    Mirrors Related (entries.forM action) (entries.forM other) := by
  induction entries with
  | nil => exact pure _
  | cons entry rest induction => exact bind (mirrors entry) fun _ => induction

end Mirrors

end XmlStream
