import Mathlib.Data.List.GetD
import Mathlib.Tactic

/-! Computations whose reads and writes are checked: `none` is an access outside of its buffer. -/

namespace Checked

variable {α β : Type} {n : ℕ}

/-- A write into a buffer. -/
def write (values : List α) (index : ℕ) (value : α) : Option (List α) :=
  if index < values.length then some (values.set index value) else none

variable {values : List α} {index : ℕ} {test : α → Option Bool} {decided : α → Bool}

theorem read_eq (bound : index < values.length) (fallback : α) :
    values[index]? = some (values.getD index fallback) := by
  rw [List.getElem?_eq_getElem bound, List.getD_eq_getElem _ _ bound]

theorem write_eq (bound : index < values.length) (value : α) :
    write values index value = some (values.set index value) := if_pos bound

theorem bind_eq {first : Option α} {next : α → Option β} {value : α} {result : β} (read : first = some value)
    (rest : next value = some result) : (first >>= next) = some result := by
  rw [read]
  exact rest

theorem bind_none {first : Option α} {next : α → Option β} (rest : ∀ value, first = some value → next value = none) :
    (first >>= next) = none := by
  cases first with
  | none => rfl
  | some value => exact rest value rfl

theorem write_length {after : List α} {value : α} (wrote : write values index value = some after) :
    after.length = values.length := by
  rw [write] at wrote
  split_ifs at wrote
  cases wrote
  exact List.length_set

theorem filterAuxM_eq (values passed : List α) (checked : ∀ value ∈ values, test value = some (decided value)) :
    values.filterAuxM test passed = some ((values.filter decided).reverse ++ passed) := by
  induction values generalizing passed with
  | nil => rfl
  | cons head tail ih =>
    obtain ⟨first, rest⟩ := List.forall_mem_cons.mp checked
    rw [List.filterAuxM, first, List.filter_cons]
    cases decided head with
    | false => exact ih passed rest
    | true =>
      rw [if_pos rfl, List.reverse_cons, List.append_assoc]
      exact ih (head :: passed) rest

theorem filterM_eq (values : List α) (checked : ∀ value ∈ values, test value = some (decided value)) :
    values.filterM test = some (values.filter decided) := by
  rw [List.filterM, filterAuxM_eq values [] checked, List.append_nil]
  exact congrArg some (List.reverse_reverse _)

theorem anyM_eq (values : List α) (checked : ∀ value ∈ values, test value = some (decided value)) :
    values.anyM test = some (values.any decided) := by
  induction values with
  | nil => rfl
  | cons head tail ih =>
    obtain ⟨first, rest⟩ := List.forall_mem_cons.mp checked
    rw [List.anyM_cons, first, ih rest, List.any_cons]
    cases decided head <;> rfl

theorem mapM_eq {convert : α → Option β} {image : α → β} (values : List α)
    (checked : ∀ value ∈ values, convert value = some (image value)) :
    values.mapM convert = some (values.map image) := by
  induction values with
  | nil => rfl
  | cons head tail ih =>
    obtain ⟨first, rest⟩ := List.forall_mem_cons.mp checked
    rw [List.mapM_cons, first, ih rest]
    rfl

theorem foldlM_eq {step : β → α → Option β} {next : β → α → β} (values : List α) (start : β)
    (checked : ∀ value ∈ values, ∀ state, step state value = some (next state value)) :
    values.foldlM step start = some (values.foldl next start) := by
  induction values generalizing start with
  | nil => rfl
  | cons head tail ih =>
    obtain ⟨first, rest⟩ := List.forall_mem_cons.mp checked
    rw [List.foldlM_cons, first, List.foldl_cons]
    exact ih (next start head) rest

theorem ofFnM_eq {entry : Fin n → Option α} {value : Fin n → α}
    (checked : ∀ index, entry index = some (value index)) :
    Vector.ofFnM entry = some (Vector.ofFn value) := by
  rw [funext checked]
  exact Vector.ofFnM_pure_comp

end Checked
