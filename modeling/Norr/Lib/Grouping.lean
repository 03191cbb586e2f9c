import Mathlib.Data.List.Perm.Basic
import Mathlib.Tactic

/-! Arrivals put into groups: each joins a group that is there, at its end, or opens the last one. -/

namespace Grouping

variable {α κ : Type} [DecidableEq κ]

def place (groups : List (List α)) (target : Option ℕ) (arrival : α) : List (List α) :=
  match target with
  | some index => groups.modify index (· ++ [arrival])
  | none => groups ++ [[arrival]]

theorem place_some (before after : List (List α)) (group : List α) (arrival : α) :
    place (before ++ group :: after) (some before.length) arrival =
      before ++ (group ++ [arrival]) :: after := by
  rw [place, List.modify_eq_take_cons_drop (by simp)]
  simp

theorem split_at {groups : List (List α)} {index : ℕ} (inside : index < groups.length) :
    ∃ before group after, groups = before ++ group :: after ∧ before.length = index := by
  refine ⟨groups.take index, groups[index], groups.drop (index + 1), ?_, ?_⟩
  · rw [← List.drop_eq_getElem_cons inside, List.take_append_drop]
  · exact List.length_take_of_le inside.le

/-- Nothing is lost and nothing is made up. -/
theorem place_perm {groups : List (List α)} {target : Option ℕ} (inside : ∀ index ∈ target, index < groups.length)
    (arrival : α) : (place groups target arrival).flatten.Perm (groups.flatten ++ [arrival]) := by
  cases target with
  | none =>
    rw [place, List.flatten_append, List.flatten_singleton]
  | some index =>
    obtain ⟨before, group, after, rfl, rfl⟩ := split_at (inside index rfl)
    rw [place_some]
    simp only [List.flatten_append, List.flatten_cons, List.append_assoc]
    apply List.Perm.append_left
    apply List.Perm.append_left
    exact List.perm_append_comm

section Tracks

variable {β : Type} {Tracks : β → List α → Prop} {items : List β} {groups : List (List α)}

/-- A record that is kept for each group follows it. -/
theorem tracks_place_some (tracks : List.Forall₂ Tracks items groups) {index : ℕ} {change : β → β} {arrival : α}
    (inside : index < items.length)
    (joins : ∀ item group, items[index]? = some item → Tracks item group →
      Tracks (change item) (group ++ [arrival])) :
    List.Forall₂ Tracks (items.modify index change) (place groups (some index) arrival) := by
  induction tracks generalizing index with
  | nil => exact absurd inside (Nat.not_lt_zero index)
  | @cons item group items groups one rest ih =>
    cases index with
    | zero => exact List.Forall₂.cons (joins item group rfl one) rest
    | succ index =>
      refine List.Forall₂.cons one (ih (Nat.lt_of_succ_lt_succ inside) ?_)
      exact fun item group found => joins item group found

theorem tracks_place_none (tracks : List.Forall₂ Tracks items groups) {item : β} {arrival : α}
    (opens : Tracks item [arrival]) : List.Forall₂ Tracks (items ++ [item]) (place groups none arrival) :=
  List.rel_append tracks (List.Forall₂.cons opens List.Forall₂.nil)

end Tracks

section Pairs

variable {β γ : Type} {Pairs Property : β → γ → Prop} {sources : List β} {results : List γ}

theorem source_of_result {result : γ} (pairs : List.Forall₂ Pairs sources results) (member : result ∈ results) :
    ∃ source ∈ sources, Pairs source result := by
  induction pairs with
  | nil => exact absurd member List.not_mem_nil
  | @cons first _ _ _ one _ ih =>
    rcases List.mem_cons.mp member with rfl | later
    · exact ⟨first, List.mem_cons_self, one⟩
    · obtain ⟨other, here, found⟩ := ih later
      exact ⟨other, List.mem_cons_of_mem _ here, found⟩

/-- A property of the pairs that is one of the sources. -/
theorem pairs_iff {Condition : β → Prop} (pairs : List.Forall₂ Pairs sources results)
    (same : ∀ source result, Pairs source result → (Property source result ↔ Condition source)) :
    List.Forall₂ Property sources results ↔ ∀ source ∈ sources, Condition source := by
  induction pairs with
  | nil => simp
  | cons one _ ih => rw [List.forall₂_cons, List.forall_mem_cons, same _ _ one, ih]

end Pairs

/-- The arrivals of one kind are met in the order in which they came. -/
def Ordered (earlier : α → α → Prop) (kind : α → Option κ) (groups : List (List α)) : Prop :=
  ∀ chosen, (groups.flatten.filter fun arrival => kind arrival = some chosen).Pairwise earlier

variable {earlier : α → α → Prop} {kind : α → Option κ} {groups : List (List α)} {arrival : α}

theorem ordered_place_none (ordered : Ordered earlier kind groups)
    (last : ∀ other ∈ groups.flatten, earlier other arrival) : Ordered earlier kind (place groups none arrival) := by
  intro chosen
  rw [place, List.flatten_append, List.flatten_singleton, List.filter_append, List.pairwise_append]
  refine ⟨ordered chosen, ?_, ?_⟩
  · exact List.Pairwise.filter _ (List.pairwise_singleton _ _)
  · intro other member new here
    rw [List.mem_singleton.mp (List.mem_of_mem_filter here)]
    exact last other (List.mem_of_mem_filter member)

/-- An arrival overtakes those of its kind that are in groups behind the one it joins. -/
def Overtakes (kind : α → Option κ) (groups : List (List α)) (index : ℕ) (arrival : α) : Prop :=
  ∃ chosen, kind arrival = some chosen ∧ ∃ other ∈ (groups.drop (index + 1)).flatten, kind other = some chosen

theorem ordered_place_some (ordered : Ordered earlier kind groups) {index : ℕ} (inside : index < groups.length)
    (last : ∀ other ∈ groups.flatten, earlier other arrival)
    (never : ∀ other ∈ groups.flatten, ¬ earlier arrival other) :
    Ordered earlier kind (place groups (some index) arrival) ↔ ¬ Overtakes kind groups index arrival := by
  obtain ⟨before, group, after, rfl, rfl⟩ := split_at inside
  have behind : (before ++ group :: after).drop (before.length + 1) = after := by
    rw [List.drop_append, List.drop_eq_nil_of_le (Nat.le_succ _), Nat.add_sub_cancel_left]
    rfl
  rw [place_some, Overtakes, behind]
  have front (chosen : κ) : ((before ++ group :: after).flatten.filter fun other => kind other = some chosen) =
      ((before.flatten ++ group).filter fun other => kind other = some chosen) ++
        after.flatten.filter fun other => kind other = some chosen := by
    rw [← List.filter_append]
    simp only [List.flatten_append, List.flatten_cons, List.append_assoc]
  have split (chosen : κ) :
      ((before ++ (group ++ [arrival]) :: after).flatten.filter fun other => kind other = some chosen) =
        ((before.flatten ++ group).filter fun other => kind other = some chosen) ++
          (([arrival].filter fun other => kind other = some chosen) ++
            after.flatten.filter fun other => kind other = some chosen) := by
    rw [← List.filter_append, ← List.filter_append]
    simp only [List.flatten_append, List.flatten_cons, List.append_assoc]
  have early (other : α) (member : other ∈ before.flatten ++ group) : earlier other arrival := by
    apply last
    rw [List.flatten_append, List.flatten_cons, ← List.append_assoc]
    exact List.mem_append_left _ member
  constructor
  · rintro after_ ⟨chosen, mine, other, member, same⟩
    have pairs := after_ chosen
    rw [split, List.pairwise_append] at pairs
    have wrong := (List.pairwise_append.mp pairs.2.1).2.2 arrival (by simp [mine]) other
      (List.mem_filter.mpr ⟨member, decide_eq_true same⟩)
    apply never other _ wrong
    rw [List.flatten_append, List.flatten_cons]
    exact List.mem_append_right _ (List.mem_append_right _ member)
  · intro alone chosen
    have pairs := ordered chosen
    rw [front, List.pairwise_append] at pairs
    rw [split]
    by_cases mine : kind arrival = some chosen
    · have none : (after.flatten.filter fun other => kind other = some chosen) = [] := by
        rw [List.filter_eq_nil_iff]
        intro other member same
        exact alone ⟨chosen, mine, other, member, of_decide_eq_true same⟩
      rw [none, List.append_nil, List.pairwise_append]
      refine ⟨pairs.1, List.Pairwise.filter _ (List.pairwise_singleton _ _), ?_⟩
      intro other member new here
      rw [List.mem_singleton.mp (List.mem_of_mem_filter here)]
      exact early other (List.mem_of_mem_filter member)
    · have skipped : ([arrival].filter fun other => kind other = some chosen) = [] := by
        simp [mine]
      rw [skipped, List.nil_append, List.pairwise_append]
      exact pairs

/-- An order that is lost is not found again. -/
theorem Ordered.of_place {target : Option ℕ} (inside : ∀ index ∈ target, index < groups.length)
    (ordered : Ordered earlier kind (place groups target arrival)) : Ordered earlier kind groups := by
  intro chosen
  refine List.Pairwise.sublist (List.Sublist.filter _ ?_) (ordered chosen)
  cases target with
  | none =>
    rw [place, List.flatten_append]
    exact List.sublist_append_left _ _
  | some index =>
    obtain ⟨before, group, after, rfl, rfl⟩ := split_at (inside index rfl)
    rw [place_some]
    simp only [List.flatten_append, List.flatten_cons, List.append_assoc]
    apply List.Sublist.append_left
    apply List.Sublist.append_left
    exact List.sublist_append_right _ _

/-- No two are together unless all of them are sound. -/
def Sound (sound : α → Prop) (groups : List (List α)) : Prop :=
  ∀ group ∈ groups, 2 ≤ group.length → ∀ member ∈ group, sound member

theorem sound_place_none (sound : α → Prop) : Sound sound (place groups none arrival) ↔ Sound sound groups := by
  constructor
  · exact fun after group member => after group (List.mem_append_left _ member)
  · intro before group member several
    rcases List.mem_append.mp member with old | new
    · exact before group old several
    · rw [List.mem_singleton.mp new, List.length_singleton] at several
      omega

theorem sound_place_some (sound : α → Prop) {index : ℕ} (inside : index < groups.length)
    (occupied : ∀ group ∈ groups, group ≠ []) :
    Sound sound (place groups (some index) arrival) ↔
      Sound sound groups ∧ sound arrival ∧ ∀ group, groups[index]? = some group →
        ∀ member ∈ group, sound member := by
  obtain ⟨before, joined, after, rfl, rfl⟩ := split_at inside
  have present := List.length_pos_iff.mpr (occupied joined (List.mem_append_right _ List.mem_cons_self))
  have here : (before ++ joined :: after)[before.length]? = some joined := by
    simp
  rw [place_some, here]
  constructor
  · intro whole
    have all := whole (joined ++ [arrival]) (List.mem_append_right _ List.mem_cons_self)
      (by rw [List.length_append, List.length_singleton]; omega)
    refine ⟨?_, all arrival (List.mem_append_right _ List.mem_cons_self), ?_⟩
    · intro group member several
      rcases List.mem_append.mp member with early | late
      · exact whole group (List.mem_append_left _ early) several
      · rcases List.mem_cons.mp late with rfl | later
        · exact fun other known => all other (List.mem_append_left _ known)
        · exact whole group (List.mem_append_right _ (List.mem_cons_of_mem _ later)) several
    · intro group found other known
      rw [← Option.some_inj.mp found] at known
      exact all other (List.mem_append_left _ known)
  · rintro ⟨parts, new, old⟩ group member several
    rcases List.mem_append.mp member with early | late
    · exact parts group (List.mem_append_left _ early) several
    · rcases List.mem_cons.mp late with rfl | later
      · intro other known
        rcases List.mem_append.mp known with earlier | last
        · exact old joined rfl other earlier
        · rwa [List.mem_singleton.mp last]
      · exact parts group (List.mem_append_right _ (List.mem_cons_of_mem _ later)) several

/-- A condition on every arrival and those before it. -/
def Along (condition : List α → α → Prop) (arrivals : List α) : Prop :=
  ∀ before arrival after, arrivals = before ++ arrival :: after → condition before arrival

theorem along_nil (condition : List α → α → Prop) : Along condition [] := by
  intro before arrival after split
  exact absurd split.symm (List.append_ne_nil_of_right_ne_nil _ (List.cons_ne_nil _ _))

theorem along_concat (condition : List α → α → Prop) (arrivals : List α) (last : α) :
    Along condition (arrivals ++ [last]) ↔ Along condition arrivals ∧ condition arrivals last := by
  constructor
  · intro all
    refine ⟨?_, all arrivals last [] rfl⟩
    intro before arrival after split
    apply all before arrival (after ++ [last])
    rw [split, List.append_assoc, List.cons_append]
  · rintro ⟨early, late⟩ before arrival after split
    rcases List.eq_nil_or_concat after with rfl | ⟨middle, final, rfl⟩
    · obtain ⟨rfl, rfl⟩ := List.concat_inj.mp (by simpa using split)
      exact late
    · apply early before arrival middle
      rw [List.concat_eq_append, ← List.cons_append, ← List.append_assoc] at split
      exact (List.append_inj' split rfl).1

end Grouping
