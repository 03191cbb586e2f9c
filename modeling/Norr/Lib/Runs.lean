import Mathlib.Data.List.Infix

/-! Runs of a deterministic system: actions performed one after another, each under a condition. -/

namespace Runs

variable {σ α : Type*} (perform : σ → α → σ)

/-- The condition holds at every action, in the state where it is performed. -/
def Throughout (condition : σ → α → Prop) : σ → List α → Prop
  | _, [] => True
  | state, action :: actions => condition state action ∧ Throughout condition (perform state action) actions

instance decidableThroughout (condition : σ → α → Prop) [∀ state, DecidablePred (condition state)] :
    ∀ (state : σ) (actions : List α), Decidable (Throughout perform condition state actions)
  | _, [] => .isTrue trivial
  | state, action :: actions =>
    have := decidableThroughout condition (perform state action) actions
    inferInstanceAs (Decidable (_ ∧ _))

variable {perform} {condition : σ → α → Prop} {holds : σ → Prop}

/-- What every action keeps that meets the condition holds at the end of the run. -/
theorem Throughout.keeps (step : ∀ state action, holds state → condition state action → holds (perform state action))
    {state : σ} {actions : List α} (start : holds state) (met : Throughout perform condition state actions) :
    holds (actions.foldl perform state) := by
  induction actions generalizing state with
  | nil => exact start
  | cons action actions ih => exact ih (step state action start met.1) met.2

end Runs
