import Mathlib.Data.List.Basic
import Mathlib.Data.List.Range
import Mathlib.Tactic

/-! A sliding window over the natural numbers, kept as a ring of bits.

`judge` says what the window is for: it decides on the whole history of accepted
values. `Ring.accept` decides with `size` bits only; `accept_refines` is the
refinement between the two. -/

namespace SlidingWindow

inductive Verdict
  | accepted
  | replayed
  | tooOld
  deriving DecidableEq, Repr

def top (history : List ℕ) : ℕ := history.foldr max 0

def judge (size : ℕ) (history : List ℕ) (value : ℕ) : Verdict :=
  if history = [] then .accepted
  else if top history < value then .accepted
  else if size ≤ top history - value then .tooOld
  else if value ∈ history then .replayed
  else .accepted

def record (size : ℕ) (history : List ℕ) (value : ℕ) : List ℕ :=
  if judge size history value = .accepted then value :: history else history

structure Ring where
  started : Bool
  highest : ℕ
  bit : ℕ → Bool

namespace Ring

def mark (size : ℕ) (bit : ℕ → Bool) (value : ℕ) : ℕ → Bool :=
  fun slot => bit slot || slot == value % size

def sweep (size : ℕ) (bit : ℕ → Bool) (first last : ℕ) : ℕ → Bool :=
  fun slot => bit slot && (List.range' first (last + 1 - first)).all (fun value => value % size != slot)

def accept (size : ℕ) (ring : Ring) (value : ℕ) : Verdict × Ring :=
  if ring.started = false then
    (.accepted, ⟨true, value, mark size ring.bit value⟩)
  else if ring.highest < value then
    (.accepted, ⟨true, value, mark size (sweep size ring.bit (ring.highest + 1) value) value⟩)
  else if size ≤ ring.highest - value then (.tooOld, ring)
  else if ring.bit (value % size) then (.replayed, ring)
  else (.accepted, ⟨true, ring.highest, mark size ring.bit value⟩)

end Ring

structure Tracks (size : ℕ) (ring : Ring) (history : List ℕ) : Prop where
  started : ring.started = true ↔ history ≠ []
  reached : history ≠ [] → ring.highest ∈ history
  bounded : ∀ value ∈ history, value ≤ ring.highest
  blank : history = [] → ∀ slot, ring.bit slot = false
  window : history ≠ [] → ∀ value ≤ ring.highest, ring.highest - value < size →
    (ring.bit (value % size) = true ↔ value ∈ history)

theorem le_top (history : List ℕ) (value : ℕ) (member : value ∈ history) : value ≤ top history := by
  induction history with
  | nil => cases member
  | cons head tail ih =>
    simp only [top, List.foldr_cons]
    rcases List.mem_cons.mp member with rfl | member
    · exact le_max_left _ _
    · exact le_trans (ih member) (le_max_right _ _)

theorem top_le (history : List ℕ) (bound : ℕ) (below : ∀ value ∈ history, value ≤ bound) :
    top history ≤ bound := by
  induction history with
  | nil => exact Nat.zero_le _
  | cons head tail ih =>
    simp only [top, List.foldr_cons]
    apply max_le (below head (by simp))
    exact ih (fun value member => below value (List.mem_cons_of_mem _ member))

variable {size : ℕ} {history : List ℕ} {ring : Ring}

theorem Tracks.top_eq (tracks : Tracks size ring history) (inhabited : history ≠ []) :
    top history = ring.highest := by
  apply le_antisymm
  · exact top_le history _ tracks.bounded
  · exact le_top history _ (tracks.reached inhabited)

theorem tracks_empty (size : ℕ) : Tracks size ⟨false, 0, fun _ => false⟩ [] where
  started := by simp
  reached := by simp
  bounded := by simp
  blank := by simp
  window := by simp

theorem mark_at (size : ℕ) (bit : ℕ → Bool) (value slot : ℕ) :
    Ring.mark size bit value slot = true ↔ bit slot = true ∨ slot = value % size := by
  simp [Ring.mark]

theorem sweep_at (size : ℕ) (bit : ℕ → Bool) (first last slot : ℕ) :
    Ring.sweep size bit first last slot = true ↔
      bit slot = true ∧ ∀ value, first ≤ value → value ≤ last → value % size ≠ slot := by
  simp only [Ring.sweep, Bool.and_eq_true, List.all_eq_true, List.mem_range'_1, bne_iff_ne]
  constructor
  · rintro ⟨set, clear⟩
    exact ⟨set, fun value lower upper => clear value ⟨lower, by omega⟩⟩
  · rintro ⟨set, clear⟩
    exact ⟨set, fun value range => clear value range.1 (by omega)⟩

/-- Two values less than `size` apart share a slot only when they are equal. -/
theorem slot_injective (size first second : ℕ) (order : first ≤ second)
    (near : second - first < size) (same : first % size = second % size) : first = second := by
  have divides : size ∣ second - first := (Nat.modEq_iff_dvd' order).mp same
  have zero := Nat.eq_zero_of_dvd_of_lt divides near
  omega

theorem record_accepted {value : ℕ} (verdict : judge size history value = .accepted) :
    record size history value = value :: history := by
  simp [record, verdict]

theorem record_refused {value : ℕ} (verdict : judge size history value ≠ .accepted) :
    record size history value = history := by
  simp [record, verdict]

theorem tracks_first (tracks : Tracks size ring []) (value : ℕ) :
    Tracks size ⟨true, value, Ring.mark size ring.bit value⟩ [value] where
  started := by simp
  reached := by simp
  bounded := by simp
  blank := by simp
  window := by
    intro _ other order near
    rw [mark_at, tracks.blank rfl]
    simp only [Bool.false_eq_true, false_or, List.mem_singleton]
    exact ⟨fun same => slot_injective size other value order near same, fun same => by rw [same]⟩

theorem tracks_advance (tracks : Tracks size ring history) (inhabited : history ≠ []) (value : ℕ)
    (beyond : ring.highest < value) :
    Tracks size ⟨true, value, Ring.mark size (Ring.sweep size ring.bit (ring.highest + 1) value) value⟩
      (value :: history) where
  started := by simp
  reached := by simp
  bounded := by
    intro other member
    rcases List.mem_cons.mp member with rfl | member
    · exact le_rfl
    · exact le_trans (tracks.bounded other member) beyond.le
  blank := by simp
  window := by
    intro _ other order near
    simp only at order near
    rw [mark_at, sweep_at, List.mem_cons]
    constructor
    · rintro (⟨set, clear⟩ | same)
      · -- a slot that survives the sweep belongs to a value the old window already held
        have old : other ≤ ring.highest := by
          by_contra fresh
          exact clear other (by omega) order rfl
        exact .inr ((tracks.window inhabited other old (by omega)).mp set)
      · exact .inl (slot_injective size other value order near same)
    · rintro (same | member)
      · exact .inr (by rw [same])
      · have old := tracks.bounded other member
        refine .inl ⟨(tracks.window inhabited other old (by omega)).mpr member, ?_⟩
        intro next lower upper same
        have := slot_injective size other next (by omega) (by omega) same.symm
        omega

theorem tracks_fill (tracks : Tracks size ring history) (inhabited : history ≠ []) (value : ℕ)
    (order : value ≤ ring.highest) (near : ring.highest - value < size) :
    Tracks size ⟨true, ring.highest, Ring.mark size ring.bit value⟩ (value :: history) where
  started := by simp
  reached := fun _ => List.mem_cons_of_mem _ (tracks.reached inhabited)
  bounded := by
    intro other member
    rcases List.mem_cons.mp member with rfl | member
    · exact order
    · exact tracks.bounded other member
  blank := by simp
  window := by
    intro _ other otherOrder otherNear
    simp only at otherOrder otherNear
    rw [mark_at, List.mem_cons, tracks.window inhabited other otherOrder otherNear, or_comm]
    apply or_congr_left
    constructor
    · intro same
      rcases le_total other value with below | above
      · exact slot_injective size other value below (by omega) same
      · exact (slot_injective size value other above (by omega) same.symm).symm
    · intro same
      rw [same]

theorem accept_refines (tracks : Tracks size ring history) (value : ℕ) :
    (ring.accept size value).1 = judge size history value ∧
      Tracks size (ring.accept size value).2 (record size history value) := by
  by_cases inhabited : history = []
  · subst inhabited
    have stopped : ring.started = false := by
      rw [← Bool.not_eq_true, tracks.started]
      simp
    have verdict : judge size [] value = .accepted := by simp [judge]
    rw [record_accepted verdict, verdict, Ring.accept, if_pos stopped]
    exact ⟨rfl, tracks_first tracks value⟩
  have running : ¬ ring.started = false := by
    rw [Bool.not_eq_false, tracks.started]
    exact inhabited
  have highest := tracks.top_eq inhabited
  rw [Ring.accept, if_neg running]
  by_cases beyond : ring.highest < value
  · have verdict : judge size history value = .accepted := by
      simp [judge, inhabited, highest, beyond]
    rw [record_accepted verdict, verdict, if_pos beyond]
    exact ⟨rfl, tracks_advance tracks inhabited value beyond⟩
  rw [if_neg beyond]
  by_cases stale : size ≤ ring.highest - value
  · have verdict : judge size history value = .tooOld := by
      simp [judge, inhabited, highest, beyond, stale]
    rw [record_refused (by simp [verdict]), verdict, if_pos stale]
    exact ⟨rfl, tracks⟩
  rw [if_neg stale]
  have known := tracks.window inhabited value (by omega) (by omega)
  by_cases member : value ∈ history
  · have verdict : judge size history value = .replayed := by
      simp [judge, inhabited, highest, beyond, stale, member]
    rw [record_refused (by simp [verdict]), verdict, if_pos (known.mpr member)]
    exact ⟨rfl, tracks⟩
  · have verdict : judge size history value = .accepted := by
      simp [judge, inhabited, highest, beyond, stale, member]
    rw [record_accepted verdict, verdict, if_neg (fun set => member (known.mp set))]
    exact ⟨rfl, tracks_fill tracks inhabited value (by omega) (by omega)⟩

theorem judge_accepted_iff (size : ℕ) (history : List ℕ) (value : ℕ) :
    judge size history value = .accepted ↔
      value ∉ history ∧ (history = [] ∨ top history < value ∨ top history - value < size) := by
  by_cases inhabited : history = []
  · simp [judge, inhabited]
  · have member : top history < value → value ∉ history := by
      intro beyond present
      exact absurd (le_top history value present) (by omega)
    unfold judge
    rw [if_neg inhabited]
    split_ifs with beyond stale known <;> simp_all

theorem judge_tooOld_iff (size : ℕ) (history : List ℕ) (value : ℕ) :
    judge size history value = .tooOld ↔
      history ≠ [] ∧ value ≤ top history ∧ size ≤ top history - value := by
  unfold judge
  split_ifs with inhabited beyond stale known <;> simp_all

end SlidingWindow
