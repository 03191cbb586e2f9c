import Mathlib.Data.List.Iterate
import Mathlib.Data.List.Perm.Subperm
import Mathlib.Tactic

/-! Bounded searches that walk a cursor. A search takes the first value that is not busy; a nested search
asks it again, from where it stopped, as long as the value found is held by somebody else. -/

namespace Probing

variable {α : Type*} {next : α → α} {busy held : α → Bool}

def search (next : α → α) (busy : α → Bool) : ℕ → α → Option α × α
  | 0, cursor => (none, cursor)
  | attempts + 1, cursor =>
    if busy cursor then search next busy attempts (next cursor) else (some cursor, next cursor)

def nested (next : α → α) (busy held : α → Bool) (inner : ℕ) : ℕ → α → Option α × α
  | 0, cursor => (none, cursor)
  | attempts + 1, cursor =>
    match search next busy inner cursor with
    | (none, stopped) => (none, stopped)
    | (some found, stopped) =>
      if held found then nested next busy held inner attempts stopped else (some found, stopped)

theorem search_first {attempts steps : ℕ} {cursor : α} (passed : ∀ i < steps, busy (next^[i] cursor) = true)
    (free : busy (next^[steps] cursor) = false) (room : steps < attempts) :
    search next busy attempts cursor = (some (next^[steps] cursor), next^[steps + 1] cursor) := by
  induction steps generalizing attempts cursor with
  | zero =>
    obtain ⟨attempts, rfl⟩ := Nat.exists_eq_succ_of_ne_zero (Nat.ne_of_gt room)
    rw [Function.iterate_zero_apply] at free
    simp [search, free]
  | succ steps ih =>
    obtain ⟨attempts, rfl⟩ := Nat.exists_eq_succ_of_ne_zero (Nat.ne_of_gt (Nat.zero_lt_of_lt room))
    have first : busy cursor = true := passed 0 (Nat.succ_pos steps)
    rw [search, if_pos first]
    exact ih (fun i below => passed (i + 1) (Nat.succ_lt_succ below)) free (Nat.lt_of_succ_lt_succ room)

theorem nested_first {inner attempts steps : ℕ} {cursor : α}
    (passed : ∀ i < steps, busy (next^[i] cursor) = true ∨ held (next^[i] cursor) = true)
    (free : busy (next^[steps] cursor) = false) (unheld : held (next^[steps] cursor) = false)
    (room : steps < inner) (enough : (List.iterate next cursor steps).countP held < attempts) :
    nested next busy held inner attempts cursor = (some (next^[steps] cursor), next^[steps + 1] cursor) := by
  induction steps using Nat.strong_induction_on generalizing attempts cursor with
  | _ steps ih =>
    obtain ⟨attempts, rfl⟩ := Nat.exists_eq_succ_of_ne_zero (Nat.ne_of_gt (Nat.zero_lt_of_lt enough))
    have some_free : ∃ i, busy (next^[i] cursor) = false := ⟨steps, free⟩
    let first := Nat.find some_free
    have bounded : first ≤ steps := Nat.find_min' some_free free
    have found : search next busy inner cursor = (some (next^[first] cursor), next^[first + 1] cursor) := by
      apply search_first _ (Nat.find_spec some_free) (bounded.trans_lt room)
      intro i below
      simpa using Nat.find_min some_free below
    rw [nested, found]
    rcases bounded.eq_or_lt with same | earlier
    · simp [same, unheld]
    · -- the value was held: what remains of the walk starts behind it
      have stuck : held (next^[first] cursor) = true := by
        have free_first : busy (next^[first] cursor) = false := Nat.find_spec some_free
        simpa [free_first] using passed first earlier
      obtain ⟨rest, rfl⟩ := Nat.exists_eq_add_of_lt earlier
      have later (i : ℕ) : next^[i] (next^[first + 1] cursor) = next^[first + 1 + i] cursor := by
        rw [← Function.iterate_add_apply, Nat.add_comm]
      have split : List.iterate next cursor (first + rest + 1) = List.iterate next cursor first ++
          next^[first] cursor :: List.iterate next (next^[first + 1] cursor) rest := by
        rw [Nat.add_assoc, List.iterate_add, List.iterate, Function.iterate_succ_apply']
      rw [split, List.countP_append, List.countP_cons_of_pos stuck] at enough
      have last : first + 1 + rest = first + rest + 1 := Nat.add_right_comm first 1 rest
      simp only [stuck, if_true]
      rw [← last, ← later, Nat.add_assoc _ rest 1, ← later]
      apply ih rest (by omega)
      · intro i below
        rw [later]
        exact passed _ (by omega)
      · rwa [later, last]
      · rwa [later, last]
      · omega
      · omega

theorem countP_le_of_nodup {others values : List α} (distinct : values.Nodup)
    (held_others : ∀ value ∈ values, held value = true → value ∈ others) :
    values.countP held ≤ others.length := by
  rw [List.countP_eq_length_filter]
  apply (List.subperm_of_subset (distinct.filter held) _).length_le
  intro value member
  obtain ⟨inside, holds⟩ := List.mem_filter.mp member
  exact held_others value inside holds

theorem exists_unused {used : List α} {cursor : α} {steps : ℕ} (distinct : (List.iterate next cursor steps).Nodup)
    (short : used.length < steps) : ∃ i < steps, next^[i] cursor ∉ used := by
  by_contra! all_used
  have inside : List.iterate next cursor steps ⊆ used := by
    intro value member
    obtain ⟨i, below, rfl⟩ := List.mem_iterate.mp member
    exact all_used i below
  have length := (List.subperm_of_subset distinct inside).length_le
  rw [List.length_iterate] at length
  omega

/-- The first value may come again later; from the second on, the walk must not repeat itself. -/
theorem nested_finds (taken others : List α) {inner attempts steps : ℕ} {cursor : α}
    (distinct : (List.iterate next (next cursor) steps).Nodup)
    (busy_taken : ∀ value ∈ List.iterate next (next cursor) steps, busy value = true → value ∈ taken)
    (held_others : ∀ value ∈ List.iterate next (next cursor) steps, held value = true → value ∈ others)
    (short : taken.length + others.length < steps) (room : steps < inner) (enough : others.length + 1 < attempts) :
    ∃ found stopped, nested next busy held inner attempts cursor = (some found, stopped) := by
  obtain ⟨i, below, unused⟩ := exists_unused distinct (by simpa using short : (taken ++ others).length < steps)
  rw [List.mem_append, not_or] at unused
  have member : next^[i] (next cursor) ∈ List.iterate next (next cursor) steps :=
    List.mem_iterate.mpr ⟨i, below, rfl⟩
  have free : busy (next^[i + 1] cursor) = false ∧ held (next^[i + 1] cursor) = false :=
    ⟨Bool.eq_false_iff.mpr fun holds => unused.1 (busy_taken _ member holds),
      Bool.eq_false_iff.mpr fun holds => unused.2 (held_others _ member holds)⟩
  have some_free : ∃ i, busy (next^[i] cursor) = false ∧ held (next^[i] cursor) = false := ⟨i + 1, free⟩
  have bounded : Nat.find some_free ≤ i + 1 := Nat.find_min' some_free free
  have passed : ∀ j < Nat.find some_free, busy (next^[j] cursor) = true ∨ held (next^[j] cursor) = true := by
    intro j earlier
    have stuck := Nat.find_min some_free earlier
    rwa [not_and_or, Bool.not_eq_false, Bool.not_eq_false] at stuck
  have counted : (List.iterate next cursor (Nat.find some_free)).countP held ≤ others.length + 1 := by
    cases reached : Nat.find some_free with
    | zero => simp [List.iterate]
    | succ later =>
      have sub : (List.iterate next (next cursor) later).Sublist (List.iterate next (next cursor) steps) := by
        obtain ⟨rest, rfl⟩ := Nat.exists_eq_add_of_le (show later ≤ steps by omega)
        rw [List.iterate_add]
        exact List.sublist_append_left _ _
      have tail := countP_le_of_nodup (distinct.sublist sub)
        fun value inside => held_others value (sub.subset inside)
      rw [List.iterate, List.countP_cons]
      split_ifs <;> omega
  exact ⟨_, _, nested_first passed (Nat.find_spec some_free).1 (Nat.find_spec some_free).2 (by omega) (by omega)⟩

end Probing
