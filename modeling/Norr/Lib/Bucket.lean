import Mathlib.Algebra.Order.Field.Basic
import Mathlib.Tactic.Linarith
import Mathlib.Tactic.Ring

/-! Token buckets: a level that grows with time at a rate up to a capacity, and time that never runs
backwards. -/

variable {K : Type*} [Field K] [LinearOrder K]

/-- What a bucket holds, and the time up to which it has been filled. -/
structure Bucket (K : Type*) where
  level : K
  last : K

namespace Bucket

variable {capacity rate : K} {bucket : Bucket K}

/-- Filling up to `now`; an earlier time changes nothing. -/
def refill (capacity rate : K) (bucket : Bucket K) (now : K) : Bucket K :=
  if now ≤ bucket.last then bucket
  else ⟨min capacity (bucket.level + (now - bucket.last) * rate), now⟩

theorem refill_last (now : K) : (refill capacity rate bucket now).last = max bucket.last now := by
  unfold refill
  split
  next early => rw [max_eq_left early]
  next later => rw [max_eq_right (le_of_not_ge later)]

theorem le_refill_last (now : K) : now ≤ (refill capacity rate bucket now).last := by
  rw [refill_last]
  exact le_max_right _ _

theorem refill_of_le {now : K} (early : now ≤ bucket.last) : refill capacity rate bucket now = bucket :=
  if_pos early

theorem refill_le_capacity (level : bucket.level ≤ capacity) (now : K) :
    (refill capacity rate bucket now).level ≤ capacity := by
  unfold refill
  split
  next => exact level
  next => exact min_le_left _ _

/-- A refill adds at most the rate over the time it covers. -/
theorem refill_level_le (now : K) :
    (refill capacity rate bucket now).level ≤
      bucket.level + ((refill capacity rate bucket now).last - bucket.last) * rate := by
  unfold refill
  split
  next => simp
  next => exact min_le_right _ _

variable [IsStrictOrderedRing K]

/-- The same with the time since any instant the bucket has reached. -/
theorem refill_level_le_since {since now : K} (positive : 0 ≤ rate) (reached : since ≤ bucket.last)
    (later : since ≤ now) :
    (refill capacity rate bucket now).level ≤ bucket.level + (now - since) * rate := by
  refine (refill_level_le now).trans (add_le_add_right (mul_le_mul_of_nonneg_right ?_ positive) _)
  rw [refill_last]
  rcases le_total bucket.last now with passed | early
  · rw [max_eq_right passed]
    linarith
  · rw [max_eq_left early]
    linarith

/-- Stopping on the way makes no difference. -/
theorem refill_refill (positive : 0 ≤ rate) {first second : K} (order : first ≤ second) :
    refill capacity rate (refill capacity rate bucket first) second = refill capacity rate bucket second := by
  by_cases early : first ≤ bucket.last
  · rw [refill_of_le early]
  · have passed : ¬ second ≤ bucket.last := fun back => early (order.trans back)
    rw [refill, refill, refill, if_neg early, if_neg passed]
    split
    next back => rw [le_antisymm order back]
    next =>
      have more : 0 ≤ (second - first) * rate := mul_nonneg (by linarith) positive
      have parts : (second - bucket.last) * rate = (first - bucket.last) * rate + (second - first) * rate := by ring
      simp only [Bucket.mk.injEq, and_true]
      rw [parts, min_add, ← add_assoc, ← min_assoc, min_eq_left (by linarith : capacity ≤ capacity + _)]

theorem refill_nonneg (room : 0 ≤ capacity) (positive : 0 ≤ rate) (level : 0 ≤ bucket.level) (now : K) :
    0 ≤ (refill capacity rate bucket now).level := by
  unfold refill
  split
  next => exact level
  next later =>
    have elapsed : 0 ≤ (now - bucket.last) * rate := by
      apply mul_nonneg _ positive
      linarith
    exact le_min room (by linarith)

/-- Two buckets filled up to the same time keep their distance or come closer. -/
theorem refill_level_le_add {other : Bucket K} (same : other.last = bucket.last) {excess : K}
    (positive : 0 ≤ excess) (near : other.level ≤ bucket.level + excess) (now : K) :
    (refill capacity rate other now).level ≤ (refill capacity rate bucket now).level + excess := by
  unfold refill
  rw [same]
  split
  next => exact near
  next =>
    rw [min_def, min_def]
    split <;> split <;> linarith

end Bucket
