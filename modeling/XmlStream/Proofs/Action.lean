import XmlStream.Writer.Basic

namespace XmlStream

/-! What an action has done when it succeeds. The lemmas here take a sequence of
actions apart, so that proofs speak of one action at a time. -/

section Sequencing

variable {ε σ α β : Type} {state after : σ} {result : β}

theorem get_run (state : σ) : (get : EStateM ε σ σ) state = .ok state state := rfl

theorem get_bind_eq (next : σ → EStateM ε σ α) (state : σ) :
    (get >>= next) state = next state state := rfl

theorem set_run (value state : σ) : (set value : EStateM ε σ PUnit) state = .ok ⟨⟩ value := rfl

theorem modify_run (change : σ → σ) (state : σ) :
    (modify change : EStateM ε σ PUnit) state = .ok ⟨⟩ (change state) := rfl

theorem throw_run (error : ε) (state : σ) :
    (throw error : EStateM ε σ β) state = .error error state := rfl

theorem tryCatch_run (action : EStateM ε σ β) (handler : ε → EStateM ε σ β) (state : σ) :
    (tryCatch action handler : EStateM ε σ β) state = match action state with
      | .ok result after => .ok result after
      | .error error after => handler error after := by
  change EStateM.tryCatch action handler state = _
  delta EStateM.tryCatch
  cases action state <;> rfl

@[simp] theorem bind_eq_ok {action : EStateM ε σ α} {continuation : α → EStateM ε σ β} :
    (action >>= continuation) state = .ok result after ↔
      ∃ value middle, action state = .ok value middle ∧
        continuation value middle = .ok result after := by
  cases first : action state with
  | ok value middle => simp [bind, EStateM.bind, first, and_assoc]
  | error error middle => simp [bind, EStateM.bind, first]

@[simp] theorem pure_eq_ok {value : β} :
    (pure value : EStateM ε σ β) state = .ok result after ↔ value = result ∧ state = after := by
  simp [pure, EStateM.pure]

@[simp] theorem throw_eq_ok {error : ε} :
    (throw error : EStateM ε σ β) state = .ok result after ↔ False := by
  simp [throw_run]

@[simp] theorem get_eq_ok {value : σ} :
    (get : EStateM ε σ σ) state = .ok value after ↔ state = value ∧ state = after := by
  simp [get_run]

@[simp] theorem set_eq_ok {value : σ} {nothing : PUnit} :
    (set value : EStateM ε σ PUnit) state = .ok nothing after ↔ value = after := by
  simp [set_run]

@[simp] theorem modify_eq_ok {change : σ → σ} {nothing : PUnit} :
    (modify change : EStateM ε σ PUnit) state = .ok nothing after ↔ change state = after := by
  simp [modify_run]

theorem ite_eq_ok {condition : Prop} [Decidable condition] {first second : EStateM ε σ β} :
    (if condition then first else second) state = .ok result after ↔
      (condition ∧ first state = .ok result after) ∨
        (¬condition ∧ second state = .ok result after) := by
  by_cases holds : condition <;> simp [holds]

@[simp] theorem refuse_bind_eq_ok {condition : Prop} [Decidable condition] {error : ε}
    {rest : α → EStateM ε σ β} {otherwise : EStateM ε σ β} :
    (if condition then throw error >>= rest else otherwise) state = .ok result after ↔
      ¬condition ∧ otherwise state = .ok result after := by
  by_cases holds : condition <;> simp [holds]

@[simp] theorem refuse_eq_ok {condition : Prop} [Decidable condition] {error : ε}
    {otherwise : EStateM ε σ β} :
    (if condition then throw error else otherwise) state = .ok result after ↔
      ¬condition ∧ otherwise state = .ok result after := by
  by_cases holds : condition <;> simp [holds]

@[simp] theorem bind_eq_error {action : EStateM ε σ α} {continuation : α → EStateM ε σ β} {error : ε} :
    (action >>= continuation) state = .error error after ↔
      action state = .error error after ∨
        ∃ value middle, action state = .ok value middle ∧
          continuation value middle = .error error after := by
  cases first : action state with
  | ok value middle => simp [bind, EStateM.bind, first, and_assoc]
  | error error middle => simp [bind, EStateM.bind, first]

variable {error other : ε}

@[simp] theorem pure_eq_error {value : β} :
    (pure value : EStateM ε σ β) state = .error error after ↔ False := by
  simp [pure, EStateM.pure]

@[simp] theorem throw_eq_error :
    (throw other : EStateM ε σ β) state = .error error after ↔
      other = error ∧ state = after := by
  simp [throw_run]

@[simp] theorem get_eq_error : (get : EStateM ε σ σ) state = .error error after ↔ False := by
  simp [get_run]

@[simp] theorem set_eq_error {value : σ} :
    (set value : EStateM ε σ PUnit) state = .error error after ↔ False := by
  simp [set_run]

@[simp] theorem modify_eq_error {change : σ → σ} :
    (modify change : EStateM ε σ PUnit) state = .error error after ↔ False := by
  simp [modify_run]

theorem tryCatch_eq_ok {action : EStateM ε σ β} {handler : ε → EStateM ε σ β} :
    (tryCatch action handler) state = .ok result after ↔
      action state = .ok result after ∨
        ∃ error middle, action state = .error error middle ∧
          handler error middle = .ok result after := by
  cases first : action state with
  | ok value middle =>
      simp [tryCatch_run, first]
  | error error middle =>
      simp [tryCatch_run, first, and_assoc]

theorem tryCatch_eq_error {action : EStateM ε σ β} {handler : ε → EStateM ε σ β} :
    (tryCatch action handler) state = .error error after ↔
      ∃ cause middle, action state = .error cause middle ∧
        handler cause middle = .error error after := by
  cases first : action state with
  | ok value middle =>
      simp [tryCatch_run, first]
  | error error middle =>
      simp [tryCatch_run, first, and_assoc]

theorem ite_eq_error {condition : Prop} [Decidable condition] {first second : EStateM ε σ β} :
    (if condition then first else second) state = .error error after ↔
      (condition ∧ first state = .error error after) ∨
        (¬condition ∧ second state = .error error after) := by
  by_cases holds : condition <;> simp [holds]

end Sequencing

end XmlStream
