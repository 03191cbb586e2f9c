import Mathlib.Data.List.Count
import Mathlib.Data.List.Range
import Mathlib.Tactic

/-! Senders of batches. A call takes a list, hands some of its items on and returns how many of the leading
items are done with; the caller goes on behind them. Items that can never be sent may be passed over. -/

namespace Batches

variable {α σ : Type*} {sendable : α → Bool}

/-- What a call returned, `none` for an error, and the indices it handed on. -/
structure Outcome where
  returned : Option ℕ
  handed : List ℕ
  deriving DecidableEq

/-- The items below `count` are done with, and no others were touched. -/
structure Done (sendable : α → Bool) (items : List α) (count : ℕ) (handed : List ℕ) : Prop where
  below : ∀ index ∈ handed, index < count
  covered : ∀ index < count, ∃ item, items[index]? = some item ∧
    (handed.count index = 1 ∨ sendable item = false)
  once : handed.Nodup

/-- The contract of a call. -/
structure Honest (sendable : α → Bool) (items : List α) (outcome : Outcome) : Prop where
  done : ∀ count, outcome.returned = some count → Done sendable items count outcome.handed
  failed : outcome.returned = none → outcome.handed = []

variable (call : σ → List α → Outcome × σ)

/-- The caller's loop, with the indices in its own list. -/
def sendAll : ℕ → σ → List α → ℕ × List ℕ × σ
  | 0, state, _ => (0, [], state)
  | rounds + 1, state, items =>
    if items = [] then (0, [], state)
    else
      match call state items with
      | (⟨some (count + 1), handed⟩, after) =>
        let rest := sendAll rounds after (items.drop (count + 1))
        (count + 1 + rest.1, handed ++ rest.2.1.map (count + 1 + ·), rest.2.2)
      | (⟨_, handed⟩, after) => (0, handed, after)

/-- A condition on every call that the loop makes. -/
def EveryCall (condition : σ → List α → Prop) : ℕ → σ → List α → Prop
  | 0, _, _ => True
  | rounds + 1, state, items =>
    items = [] ∨ condition state items ∧
      ∀ count, (call state items).1.returned = some (count + 1) →
        EveryCall condition rounds (call state items).2 (items.drop (count + 1))

variable {call}

theorem Done.nothing (items : List α) : Done sendable items 0 [] :=
  ⟨List.forall_mem_nil _, fun _ below => absurd below (Nat.not_lt_zero _), List.nodup_nil⟩

theorem Done.append {items : List α} {first second : ℕ} {handed later : List ℕ}
    (before : Done sendable items first handed) (after : Done sendable (items.drop first) second later) :
    Done sendable items (first + second) (handed ++ later.map (first + ·)) where
  below := by
    intro index member
    rcases List.mem_append.mp member with early | late
    · have bound := before.below index early
      omega
    · obtain ⟨shifted, inside, rfl⟩ := List.mem_map.mp late
      have bound := after.below shifted inside
      omega
  covered := by
    intro index below
    by_cases early : index < first
    · obtain ⟨item, found, sent⟩ := before.covered index early
      refine ⟨item, found, sent.imp_left fun once => ?_⟩
      rw [List.count_append, once, List.count_eq_zero_of_not_mem]
      intro late
      obtain ⟨shifted, -, same⟩ := List.mem_map.mp late
      omega
    · obtain ⟨shifted, rfl⟩ := Nat.exists_eq_add_of_le (Nat.le_of_not_lt early)
      obtain ⟨item, found, sent⟩ := after.covered shifted (by omega)
      rw [List.getElem?_drop] at found
      refine ⟨item, found, sent.imp_left fun once => ?_⟩
      rw [List.count_append, List.count_eq_zero_of_not_mem fun there => early (before.below _ there), Nat.zero_add,
        List.count_map_of_injective _ _ (add_right_injective first), once]
  once := by
    rw [List.nodup_append']
    refine ⟨before.once, after.once.map (add_right_injective first), ?_⟩
    intro index early late
    obtain ⟨shifted, -, rfl⟩ := List.mem_map.mp late
    have bound := before.below _ early
    omega

theorem EveryCall.mono {condition other : σ → List α → Prop} (invariant : σ → Prop)
    (kept : ∀ state items, invariant state → invariant (call state items).2)
    (implies : ∀ state items, invariant state → condition state items → other state items) {rounds : ℕ} {state : σ}
    {items : List α} (start : invariant state) (met : EveryCall call condition rounds state items) :
    EveryCall call other rounds state items := by
  induction rounds generalizing state items with
  | zero => trivial
  | succ rounds ih =>
    rcases met with empty | ⟨now, next⟩
    · exact .inl empty
    · exact .inr ⟨implies state items start now, fun count returned =>
        ih (kept state items start) (next count returned)⟩

/-- The loop keeps the contract of its calls. -/
theorem sendAll_done {rounds : ℕ} {state : σ} {items : List α}
    (honest : EveryCall call (fun state items => Honest sendable items (call state items).1) rounds state items) :
    Done sendable items (sendAll call rounds state items).1 (sendAll call rounds state items).2.1 := by
  induction rounds generalizing state items with
  | zero => exact Done.nothing items
  | succ rounds ih =>
    rw [sendAll]
    split_ifs with empty
    · exact Done.nothing items
    · obtain ⟨now, next⟩ := honest.resolve_left empty
      rcases called : call state items with ⟨⟨returned, handed⟩, after⟩
      rw [called] at now next
      match returned with
      | none =>
        have nothing : handed = [] := now.failed rfl
        rw [nothing]
        exact Done.nothing items
      | some 0 => exact now.done 0 rfl
      | some (count + 1) => exact (now.done _ rfl).append (ih (next count rfl))

section Skipping

/-- The indices of the sendable items. -/
def candidates (sendable : α → Bool) (items : List α) : List ℕ :=
  (items.zipIdx.filter (sendable ·.1)).map (·.2)

theorem mem_candidates {items : List α} {index : ℕ} :
    index ∈ candidates sendable items ↔ ∃ item, items[index]? = some item ∧ sendable item = true := by
  simp only [candidates, List.mem_map, List.mem_filter, Prod.exists, List.mem_zipIdx_iff_getElem?]
  constructor
  · rintro ⟨item, other, ⟨found, passes⟩, rfl⟩
    exact ⟨item, found, passes⟩
  · rintro ⟨item, found, passes⟩
    exact ⟨item, index, ⟨found, passes⟩, rfl⟩

theorem candidates_nodup (sendable : α → Bool) (items : List α) : (candidates sendable items).Nodup := by
  have indices : (items.zipIdx.map (·.2)).Nodup := by
    rw [List.zipIdx_map_snd]
    exact List.nodup_range'
  exact indices.sublist (List.filter_sublist.map _)

theorem candidates_length (sendable : α → Bool) (items : List α) :
    (candidates sendable items).length = items.countP sendable := by
  have firsts : items.zipIdx.countP (sendable ·.1) = (items.zipIdx.map (·.1)).countP sendable := List.countP_map.symm
  rw [candidates, List.length_map, ← List.countP_eq_length_filter, firsts, List.zipIdx_map_fst]

theorem candidates_of_all {items : List α} {count : ℕ} (bounded : count ≤ items.length)
    (all : ∀ item ∈ items.take count, sendable item = true) :
    (candidates sendable items).take count = List.range count := by
  have leading : (candidates sendable items) = List.range count ++
      ((((items.drop count).zipIdx count).filter (sendable ·.1)).map (·.2)) := by
    have length : (items.take count).length = count := by rw [List.length_take, Nat.min_eq_left bounded]
    have whole : (items.take count).zipIdx.filter (sendable ·.1) = (items.take count).zipIdx := by
      rw [List.filter_eq_self]
      intro entry member
      exact all entry.1 (List.fst_mem_of_mem_zipIdx member)
    conv_lhs => rw [candidates, ← List.take_append_drop count items]
    rw [List.zipIdx_append, List.filter_append, List.map_append, whole, List.zipIdx_map_snd, length, Nat.zero_add,
      List.range_eq_range']
  rw [leading]
  exact List.take_left' List.length_range

/-- A call that passes over unsendable items and counts only the others keeps the contract just when there
was nothing to pass over. -/
theorem done_iff (sendable : α → Bool) (items : List α) (accepted : ℕ) :
    Done sendable items ((candidates sendable items).take accepted).length
        ((candidates sendable items).take accepted) ↔
      ∀ item ∈ items.take ((candidates sendable items).take accepted).length, sendable item = true := by
  generalize picked : (candidates sendable items).take accepted = handed
  have inside : ∀ index ∈ handed, index ∈ candidates sendable items := by
    rw [← picked]
    exact fun _ member => List.mem_of_mem_take member
  have nodup : handed.Nodup := picked ▸ (candidates_nodup sendable items).sublist (List.take_sublist _ _)
  constructor
  · intro done item member
    obtain ⟨index, bound, found⟩ := List.mem_take_iff_getElem.mp member
    have filled : handed.Perm (List.range handed.length) := by
      apply (List.subperm_of_subset nodup _).perm_of_length_le List.length_range.le
      exact fun index member => List.mem_range.mpr (done.below index member)
    have there : index ∈ handed := filled.mem_iff.mpr (List.mem_range.mpr (by omega))
    obtain ⟨other, same, passes⟩ := mem_candidates.mp (inside index there)
    rw [List.getElem?_eq_getElem (by omega), found] at same
    cases same
    exact passes
  · intro all
    have bounded : handed.length ≤ items.length := by
      have short := List.countP_le_length (p := sendable) (l := items)
      rw [← candidates_length] at short
      rw [← picked, List.length_take]
      omega
    have range : handed = List.range handed.length := by
      rw [← candidates_of_all bounded all]
      conv_lhs => rw [← picked]
      rw [← picked, List.length_take, ← List.take_eq_take_min]
    refine ⟨fun index member => ?_, fun index below => ?_, nodup⟩
    · rw [range] at member
      exact List.mem_range.mp member
    · have there : index ∈ handed := by
        rw [range]
        exact List.mem_range.mpr below
      obtain ⟨item, found, -⟩ := mem_candidates.mp (inside index there)
      exact ⟨item, found, .inl (List.count_eq_one_of_mem nodup there)⟩

end Skipping

end Batches
