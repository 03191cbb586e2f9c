import Mathlib.Data.List.Perm.Subperm
import Mathlib.Tactic

/-! Lists with distinct entries, and parts of lists in another order. -/

namespace List

variable {α β : Type*}

theorem subperm_map (view : α → β) {part whole : List α} (sub : part.Subperm whole) :
    (part.map view).Subperm (whole.map view) := by
  obtain ⟨middle, same, sublist⟩ := sub
  exact ⟨middle.map view, same.map view, sublist.map view⟩

theorem subperm_insert {before middle shrunk whole : List α} {extra : α}
    (covered : (before ++ middle).Subperm whole) (sublist : shrunk.Sublist middle) :
    (before ++ extra :: shrunk).Subperm (whole ++ [extra]) := by
  rw [perm_middle.subperm_right, (perm_append_singleton extra whole).subperm_left, subperm_cons]
  exact (sublist.append_left before).subperm.trans covered

theorem getElem?_concat_cases {list : List α} {last value : α} {place : ℕ}
    (found : (list ++ [last])[place]? = some value) :
    place < list.length ∧ list[place]? = some value ∨ place = list.length ∧ value = last := by
  rcases Nat.lt_or_ge place list.length with old | new
  · rw [getElem?_append_left old] at found
    exact .inl ⟨old, found⟩
  · rw [getElem?_append_right new, getElem?_singleton] at found
    split_ifs at found with zero
    exact .inr ⟨by omega, (Option.some_inj.mp found).symm⟩

/-- Where the values at two places agree in a list without repetition, the places agree. -/
theorem place_unique (view : α → β) {list : List α} (distinct : (list.map view).Nodup) {first second : ℕ}
    {value other : α} (found : list[first]? = some value) (otherFound : list[second]? = some other)
    (same : view value = view other) : first = second := by
  have inside := (getElem?_eq_some_iff.mp found).1
  apply (getElem?_inj (by rwa [length_map]) distinct).mp
  rw [getElem?_map, getElem?_map, found, otherFound, Option.map_some, Option.map_some, same]

/-- A value stands at no more places of a list than it has occurrences. -/
theorem places_le_count [BEq α] [LawfulBEq α] {list : List α} {places : List ℕ} {value : α}
    (distinct : places.Nodup) (found : ∀ place ∈ places, list[place]? = some value) :
    places.length ≤ list.count value := by
  have inside : places.Subperm (range list.length) := by
    apply subperm_of_subset distinct
    intro place member
    exact mem_range.mpr (getElem?_eq_some_iff.mp (found place member)).1
  have whole : (range list.length).map (list[·]?) = list.map some := by
    apply ext_getElem (by simp)
    intro place bound _
    simp
  have constant : places.map (list[·]?) = replicate places.length (some value) := by
    rw [← map_const', map_congr_left found]
  calc
    places.length = (places.map (list[·]?)).count (some value) := by rw [constant, count_replicate_self]
    _ ≤ ((range list.length).map (list[·]?)).count (some value) := (subperm_map _ inside).count_le _
    _ = list.count value := by rw [whole, count_map_of_injective _ _ (Option.some_injective _)]

theorem map_modify_same (view : α → β) (list : List α) (index : ℕ) (change : α → α)
    (same : ∀ value, list[index]? = some value → view (change value) = view value) :
    (list.modify index change).map view = list.map view := by
  apply ext_getElem?
  intro position
  rw [getElem?_map, getElem?_map, getElem?_modify]
  cases found : list[position]? with
  | none => rfl
  | some value =>
    by_cases here : index = position
    · subst here
      simp [same value found]
    · simp [here]

/-- Exchanging the value of one index. -/
theorem map_update_perm [DecidableEq α] {indices : List α} (distinct : indices.Nodup) {index : α}
    (member : index ∈ indices) (values : α → β) (value : β) :
    (values index :: indices.map (Function.update values index value)).Perm (value :: indices.map values) := by
  have split := perm_cons_erase member
  have rest : (indices.erase index).map (Function.update values index value) = (indices.erase index).map values :=
    map_congr_left fun other later => Function.update_of_ne (distinct.mem_erase_iff.mp later).1 _ _
  have changed := split.map (Function.update values index value)
  rw [map_cons, Function.update_self, rest] at changed
  exact ((changed.cons _).trans (.swap _ _ _)).trans ((split.map values).symm.cons _)

theorem length_filter_mem (count : ℕ) (chosen : Finset ℕ) (inside : ∀ index ∈ chosen, index < count) :
    ((range count).filter fun index => index ∈ chosen).length = chosen.card := by
  have same : ((range count).filter fun index => index ∈ chosen).toFinset = chosen := by
    ext index
    simp only [mem_toFinset, mem_filter, mem_range, decide_eq_true_eq]
    exact ⟨fun both => both.2, fun member => ⟨inside index member, member⟩⟩
  rw [← toFinset_card_of_nodup (nodup_range.filter _), same]

theorem length_le_one_of_pairwise {apart : α → α → Prop} {list : List α} (pairs : list.Pairwise apart)
    (never : ∀ first ∈ list, ∀ second ∈ list, ¬ apart first second) : list.length ≤ 1 := by
  cases list with
  | nil => exact Nat.zero_le 1
  | cons first rest =>
    cases rest with
    | nil => exact le_rfl
    | cons second rest =>
      have apart := (pairwise_cons.mp pairs).1 second mem_cons_self
      exact absurd apart (never first mem_cons_self second (mem_cons_of_mem _ mem_cons_self))

end List
