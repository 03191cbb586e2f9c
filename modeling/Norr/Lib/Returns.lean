import Mathlib.Tactic

/-! What a computation that may fail can return. -/

variable {ε α β : Type}

def Returns (holds : α → Prop) (result : Except ε α) : Prop := ∀ value, result = .ok value → holds value

namespace Returns

variable {holds : α → Prop} {first second : Except ε α}

theorem ok {value : α} (met : holds value) : Returns holds (.ok value : Except ε α) := by
  rintro other ⟨⟩
  exact met

theorem error (error : ε) : Returns holds (.error error) := by
  rintro other ⟨⟩

theorem ite {condition : Prop} [Decidable condition] (yes : condition → Returns holds first)
    (no : ¬ condition → Returns holds second) : Returns holds (if condition then first else second) := by
  split_ifs with met
  · exact yes met
  · exact no met

theorem bind {action : Except ε β} {next : β → Except ε α} (rest : ∀ value, Returns holds (next value)) :
    Returns holds (action >>= next) := by
  cases action with
  | error failure => exact error failure
  | ok value => exact rest value

/-- A check in front of the rest of a computation. -/
theorem unless_thrown {condition : Prop} [Decidable condition] {failure : ε} {next : PUnit → Except ε α}
    (rest : ¬ condition → Returns holds second) :
    Returns holds (if condition then throw failure >>= next else second) :=
  ite (fun _ => error failure) rest

end Returns
