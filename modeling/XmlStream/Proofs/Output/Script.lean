import Mathlib.Tactic.Choose
import XmlStream.Proofs.Action
import XmlStream.Writer.Completion

namespace XmlStream

/-! What an action on a writer does to the output, as a script of orders that is fixed
before the output is known. An action cannot look at its output, apart from the name of
the encoding, so two writers that differ in their outputs only follow the same script
as long as their outputs carry out the orders. -/

def EndsIn {ε σ α : Type} (Holds : σ → Prop) : EStateM.Result ε σ α → Prop
  | .ok _ after => Holds after
  | .error _ after => Holds after

section Binding

variable {ε σ α β : Type}

theorem endsIn_bind {Holds : σ → Prop} {action : EStateM ε σ α} {next : α → EStateM ε σ β}
    {state : σ} (ends : EndsIn Holds (action state))
    (later : ∀ value middle, Holds middle → EndsIn Holds (next value middle)) :
    EndsIn Holds ((action >>= next) state) := by
  simp only [Bind.bind, EStateM.bind]
  generalize action state = result at ends ⊢
  cases result with
  | ok value middle => exact later value middle ends
  | error error middle => exact ends

end Binding

/-- What an output is told to do. A text may depend on the name of the encoding. -/
inductive Order
  | write (text : Option String → String)
  | flush

def Order.action : Order → OutputBuffer.Action Unit
  | .write text => fun output => OutputBuffer.write (text output.encoding?) output
  | .flush => OutputBuffer.flush

def Order.Plain : Order → Prop
  | .write text => ∀ first second, text first = text second
  | .flush => True

/-- The orders of an action, up to its end. An action ends with a value, with a refusal of
its own, or at an order that could not be carried out. The writer that it ends with is
known but for the output. -/
inductive Script (α : Type)
  | done (value : α) (writer : Writer)
  | refuse (error : WriterError) (writer : Writer)
  | tell (order : Order) (next : Script α) (broken : SinkError → Writer)

namespace Script

variable {α β : Type}

def run : Script α → OutputBuffer → EStateM.Result WriterError Writer α
  | done value writer, output => .ok value { writer with output }
  | refuse error writer, output => .error error { writer with output }
  | tell order next broken, output =>
    match order.action output with
    | .ok _ output => next.run output
    | .error cause output => .error (.sink cause) { broken cause with output }

def follow : Script α → (α → Writer → Script β) → Script β
  | done value writer, later => later value writer
  | refuse error writer, _ => .refuse error writer
  | tell order next broken, later => .tell order (next.follow later) broken

def onFailure (change : WriterError → Writer → Writer) : Script α → Script α
  | done value writer => .done value writer
  | refuse error writer => .refuse error (change error writer)
  | tell order next broken =>
    .tell order (next.onFailure change) fun cause => change (.sink cause) (broken cause)

def Plain : Script α → Prop
  | done _ _ | refuse _ _ => True
  | tell order next _ => order.Plain ∧ next.Plain

theorem Plain.follow {script : Script α} {later : α → Writer → Script β} (plain : script.Plain)
    (plainToo : ∀ value writer, (later value writer).Plain) : (script.follow later).Plain := by
  induction script with
  | done value writer => exact plainToo value writer
  | refuse => trivial
  | tell order next broken induction => exact ⟨plain.1, induction plain.2⟩

theorem Plain.onFailure {script : Script α} {change : WriterError → Writer → Writer}
    (plain : script.Plain) : (script.onFailure change).Plain := by
  induction script with
  | done | refuse => trivial
  | tell order next broken induction => exact ⟨plain.1, induction plain.2⟩

theorem run_follow (script : Script α) (later : α → Writer → Script β)
    {next : α → Writer.Action β}
    (follows : ∀ value writer output,
      next value { writer with output } = (later value writer).run output)
    (output : OutputBuffer) :
    (script.follow later).run output = match script.run output with
      | .ok value after => next value after
      | .error error after => .error error after := by
  induction script generalizing output with
  | done value writer => exact (follows value writer output).symm
  | refuse error writer => rfl
  | tell order script broken induction =>
      simp only [follow, run]
      cases order.action output with
      | ok _ output => exact induction output
      | error cause output => rfl

theorem run_onFailure (script : Script α) (change : WriterError → Writer → Writer)
    (blind : ∀ error writer output,
      change error { writer with output } = { change error writer with output })
    (output : OutputBuffer) :
    (script.onFailure change).run output = match script.run output with
      | .ok value after => .ok value after
      | .error error after => .error error (change error after) := by
  induction script generalizing output with
  | done value writer => rfl
  | refuse error writer => exact congrArg (EStateM.Result.error error) (blind error writer output).symm
  | tell order script broken induction =>
      simp only [onFailure, run]
      cases order.action output with
      | ok _ output => exact induction output
      | error cause output => exact congrArg (EStateM.Result.error _) (blind _ (broken cause) output).symm

theorem endsIn_run {Holds : OutputBuffer → Prop}
    (kept : ∀ (order : Order) output, Holds output → EndsIn Holds (order.action output))
    (script : Script α) {output : OutputBuffer} (holds : Holds output) :
    EndsIn (fun writer : Writer => Holds writer.output) (script.run output) := by
  induction script generalizing output with
  | done value writer => exact holds
  | refuse error writer => exact holds
  | tell order script broken induction =>
      have ends := kept order output holds
      simp only [Script.run]
      generalize order.action output = result at ends ⊢
      cases result with
      | ok _ after => exact induction ends
      | error cause after => exact ends

end Script

namespace Writer

variable {α β : Type}

/-- From every writer an action follows some script, whatever the output. Under the
condition `plain` no text depends on the encoding. -/
def Scripted (plain : Prop) (action : Action α) : Prop :=
  ∀ writer : Writer, ∃ script : Script α, (plain → script.Plain) ∧ ∀ output,
    action { writer with output } = script.run output

namespace Scripted

variable {plain : Prop}

theorem mono {weaker : Prop} {action : Action α} (scripted : Scripted plain action)
    (implies : weaker → plain) : Scripted weaker action := by
  intro writer
  rcases scripted writer with ⟨script, isPlain, runs⟩
  exact ⟨script, isPlain ∘ implies, runs⟩

theorem pure (value : α) : Scripted plain (Pure.pure value) :=
  fun writer => ⟨.done value writer, fun _ => trivial, fun _ => rfl⟩

theorem throw (error : WriterError) : Scripted plain (MonadExcept.throw error : Action α) :=
  fun writer => ⟨.refuse error writer, fun _ => trivial, fun _ => rfl⟩

theorem bind {action : Action α} {next : α → Action β} (scripted : Scripted plain action)
    (later : ∀ value, Scripted plain (next value)) : Scripted plain (action >>= next) := by
  intro writer
  rcases scripted writer with ⟨script, isPlain, runs⟩
  choose rest restPlain follows using later
  refine ⟨script.follow rest, fun holds => (isPlain holds).follow fun value writer =>
    restPlain value writer holds, fun output => ?_⟩
  rw [script.run_follow rest follows, ← runs]
  simp only [Bind.bind, EStateM.bind]
  cases action { writer with output } <;> rfl

/-- An action may look at its writer, if what it does next does not depend on the output. -/
theorem get_bind_of {next : Writer → Action α}
    (later : ∀ writer : Writer, ∃ action, Scripted plain action ∧ ∀ output,
      next { writer with output } { writer with output } = action { writer with output }) :
    Scripted plain (get >>= next) := by
  intro writer
  obtain ⟨action, scripted, same⟩ := later writer
  obtain ⟨script, isPlain, runs⟩ := scripted writer
  exact ⟨script, isPlain, fun output => (same output).trans (runs output)⟩

theorem get_bind {next : Writer → Action α}
    (same : ∀ writer output, next { writer with output } = next writer)
    (later : ∀ writer, Scripted plain (next writer)) : Scripted plain (get >>= next) :=
  .get_bind_of fun writer => ⟨next writer, later writer, fun output => by rw [same]⟩

theorem change {update : Writer → Writer}
    (blind : ∀ writer output, update { writer with output } = { update writer with output }) :
    Scripted plain (modify update) :=
  fun writer => ⟨.done ⟨⟩ (update writer), fun _ => trivial, fun output =>
    congrArg (EStateM.Result.ok PUnit.unit) (blind writer output)⟩

theorem ite {condition : Prop} [Decidable condition] {action other : Action α}
    (scripted : Scripted plain action) (otherwise : Scripted plain other) :
    Scripted plain (if condition then action else other) := by
  split
  · exact scripted
  · exact otherwise

theorem when {condition : Prop} [Decidable condition] {action : Action PUnit}
    {next : PUnit → Action β} (scripted : Scripted plain action) (later : Scripted plain (next ⟨⟩)) :
    Scripted plain (if condition then action >>= next else next ⟨⟩) :=
  .ite (.bind scripted fun _ => later) later

theorem forM {γ : Type} (entries : List γ) {action : γ → Action PUnit}
    (scripted : ∀ entry, Scripted plain (action entry)) : Scripted plain (entries.forM action) := by
  induction entries with
  | nil => exact pure _
  | cons entry rest induction => exact bind (scripted entry) fun _ => induction

theorem onOutput (order : Order) (isPlain : plain → order.Plain) :
    Scripted plain (Writer.onOutput order.action) := by
  intro writer
  refine ⟨.tell order (.done () writer) fun _ => writer, fun holds => ⟨isPlain holds, trivial⟩,
    fun output => ?_⟩
  cases made : order.action output <;> simp only [Writer.onOutput, Script.run, made]

theorem guarded {call : Action Unit} (scripted : Scripted plain call) :
    Scripted plain (Writer.guarded call) := by
  intro writer
  by_cases closed : writer.phase = .closed
  · exact ⟨.refuse .closed writer, fun _ => trivial, fun output => by
      simp [Writer.guarded, closed, Script.run]⟩
  · obtain ⟨script, isPlain, runs⟩ := scripted writer
    refine ⟨script.onFailure fun error after =>
      { after with phase := .failed, log := after.log.push (.callFailed after.phase error) },
      fun holds => (isPlain holds).onFailure, fun output => ?_⟩
    rw [script.run_onFailure _ fun _ _ _ => rfl, ← runs]
    simp only [Writer.guarded, closed, if_false]
    cases call { writer with output } <;> rfl

theorem endsIn {Holds : OutputBuffer → Prop}
    (kept : ∀ (order : Order) output, Holds output → EndsIn Holds (order.action output))
    {action : Action α} (scripted : Scripted False action) {writer : Writer} (holds : Holds writer.output) :
    EndsIn (fun writer : Writer => Holds writer.output) (action writer) := by
  rcases scripted writer with ⟨script, _, runs⟩
  rw [show action writer = script.run writer.output from runs writer.output]
  exact script.endsIn_run kept holds

end Scripted

end Writer

end XmlStream
