import Mathlib.Algebra.Module.Prod
import Mathlib.Algebra.Module.Pi
import Mathlib.LinearAlgebra.Lagrange
import Mathlib.Tactic

/-! Gauss–Jordan elimination of a square system whose right-hand sides live in a
module, and the nonsingularity of Cauchy matrices. -/

namespace GaussJordan

variable {K V : Type*} [Field K] [AddCommGroup V] [Module K V] {n : ℕ}

/-- A row of the system: its coefficients and its right-hand side. -/
abbrev Row (K V : Type*) (n : ℕ) := (Fin n → K) × V

def swapRows (rows : Fin n → Row K V n) (first second : Fin n) : Fin n → Row K V n :=
  fun r => rows (Equiv.swap first second r)

def normalize (rows : Fin n → Row K V n) (column : Fin n) : Fin n → Row K V n :=
  fun r => if r = column then ((rows column).1 column)⁻¹ • rows column else rows r

def eliminate (rows : Fin n → Row K V n) (column : Fin n) : Fin n → Row K V n :=
  fun r => if r = column then rows r else rows r - (rows r).1 column • rows column

def step (rows : Fin n → Row K V n) (column pivot : Fin n) : Fin n → Row K V n :=
  eliminate (normalize (swapRows rows pivot column) column) column

def Nonsingular (rows : Fin n → Row K V n) : Prop :=
  ∀ vector : Fin n → K, (∀ r, ∑ c, (rows r).1 c * vector c = 0) → vector = 0

def Holds (solution : Fin n → V) (row : Row K V n) : Prop :=
  ∑ c, row.1 c • solution c = row.2

/-- The state of the elimination before it treats `column`. -/
structure Reduced (solution : Fin n → V) (rows : Fin n → Row K V n) (column : ℕ) : Prop where
  nonsingular : Nonsingular rows
  holds : ∀ r, Holds solution (rows r)
  unit : ∀ r c : Fin n, c.val < column → (rows r).1 c = if r = c then 1 else 0

theorem holds_smul (solution : Fin n → V) (row : Row K V n) (factor : K)
    (holds : Holds solution row) : Holds solution (factor • row) := by
  unfold Holds at *
  simp only [Prod.smul_fst, Prod.smul_snd, Pi.smul_apply, smul_eq_mul, mul_smul, ← holds,
    Finset.smul_sum]

theorem holds_sub (solution : Fin n → V) (first second : Row K V n)
    (holdsFirst : Holds solution first) (holdsSecond : Holds solution second) :
    Holds solution (first - second) := by
  unfold Holds at *
  simp only [Prod.fst_sub, Prod.snd_sub, Pi.sub_apply, sub_smul, Finset.sum_sub_distrib,
    holdsFirst, holdsSecond]

omit [AddCommGroup V] [Module K V] in
theorem Nonsingular.swapRows {rows : Fin n → Row K V n} (nonsingular : Nonsingular rows)
    (first second : Fin n) : Nonsingular (GaussJordan.swapRows rows first second) := by
  intro vector kernel
  apply nonsingular vector
  intro r
  have swapped := kernel (Equiv.swap first second r)
  simpa only [GaussJordan.swapRows, Equiv.swap_apply_self] using swapped

theorem Nonsingular.normalize {rows : Fin n → Row K V n} (nonsingular : Nonsingular rows)
    (column : Fin n) (pivot : (rows column).1 column ≠ 0) :
    Nonsingular (GaussJordan.normalize rows column) := by
  intro vector kernel
  apply nonsingular vector
  intro r
  have annihilated := kernel r
  by_cases same : r = column
  · subst same
    simp only [GaussJordan.normalize, if_true, Prod.smul_fst, Pi.smul_apply, smul_eq_mul, mul_assoc,
      ← Finset.mul_sum, mul_eq_zero, inv_eq_zero, pivot, false_or] at annihilated
    exact annihilated
  · simpa only [GaussJordan.normalize, if_neg same] using annihilated

theorem Nonsingular.eliminate {rows : Fin n → Row K V n} (nonsingular : Nonsingular rows)
    (column : Fin n) : Nonsingular (GaussJordan.eliminate rows column) := by
  intro vector kernel
  apply nonsingular vector
  have pivotRow : ∑ c, (rows column).1 c * vector c = 0 := by
    simpa only [GaussJordan.eliminate, if_true] using kernel column
  intro r
  have annihilated := kernel r
  by_cases same : r = column
  · rw [same, pivotRow]
  · simp only [GaussJordan.eliminate, if_neg same, Prod.fst_sub, Prod.smul_fst, Pi.sub_apply,
      Pi.smul_apply, smul_eq_mul, sub_mul, Finset.sum_sub_distrib, mul_assoc, ← Finset.mul_sum,
      pivotRow, mul_zero, sub_zero] at annihilated
    exact annihilated

/-- A nonsingular system always has a pivot for the next column: were there none, the
column would depend on the unit columns before it. -/
theorem Reduced.exists_pivot {solution : Fin n → V} {rows : Fin n → Row K V n} {column : Fin n}
    (reduced : Reduced solution rows column) : ∃ r, column ≤ r ∧ (rows r).1 column ≠ 0 := by
  by_contra missing
  push Not at missing
  let vector : Fin n → K := fun c =>
    if c = column then 1 else if c < column then -(rows c).1 column else 0
  have kernel : ∀ r, ∑ c, (rows r).1 c * vector c = 0 := by
    intro r
    have split : ∀ c, (rows r).1 c * vector c =
        (if c = column then (rows r).1 column else 0) -
          (if c = r then (if r < column then (rows r).1 column else 0) else 0) := by
      intro c
      rcases lt_trichotomy c column with before | same | after
      · have entry := reduced.unit r c before
        by_cases diagonal : c = r
        · subst diagonal
          simp [vector, before, before.ne, entry]
        · simp [vector, before, before.ne, entry, Ne.symm diagonal, diagonal]
      · subst same
        by_cases diagonal : c = r
        · simp [vector, diagonal]
        · simp [vector, diagonal]
      · by_cases diagonal : c = r
        · simp [vector, after.ne', after.not_gt, ← diagonal]
        · simp [vector, after.ne', after.not_gt, diagonal]
    simp only [split, Finset.sum_sub_distrib, Finset.sum_ite_eq', Finset.mem_univ, if_true]
    by_cases before : r < column
    · rw [if_pos before, sub_self]
    · rw [if_neg before, sub_zero]
      exact missing r (not_lt.mp before)
  have zero := congrFun (reduced.nonsingular vector kernel) column
  simp [vector] at zero

theorem Reduced.step {solution : Fin n → V} {rows : Fin n → Row K V n} {column pivot : Fin n}
    (reduced : Reduced solution rows column) (below : column ≤ pivot)
    (nonzero : (rows pivot).1 column ≠ 0) :
    Reduced solution (GaussJordan.step rows column pivot) (column + 1) := by
  have top : swapRows rows pivot column column = rows pivot := by
    simp [swapRows, Equiv.swap_apply_right]
  have leading : (swapRows rows pivot column column).1 column ≠ 0 := by
    rw [top]
    exact nonzero
  -- the swap only touches rows from `column` on, so the unit columns stay
  have swappedUnit : ∀ r c : Fin n, c < column →
      (swapRows rows pivot column r).1 c = if r = c then 1 else 0 := by
    intro r c before
    unfold swapRows
    rw [reduced.unit _ c before]
    by_cases first : r = pivot
    · subst first
      rw [Equiv.swap_apply_left, if_neg before.ne', if_neg (before.trans_le below).ne']
    · by_cases second : r = column
      · subst second
        rw [Equiv.swap_apply_right, if_neg (before.trans_le below).ne', if_neg before.ne']
      · rw [Equiv.swap_apply_of_ne_of_ne first second]
  have normalHolds : ∀ r, Holds solution (normalize (swapRows rows pivot column) column r) := by
    intro r
    unfold normalize
    split_ifs
    · exact holds_smul _ _ _ (reduced.holds _)
    · exact reduced.holds _
  have normalPivot : (normalize (swapRows rows pivot column) column column).1 column = 1 := by
    simp only [normalize, if_true, Prod.smul_fst, Pi.smul_apply, smul_eq_mul]
    exact inv_mul_cancel₀ leading
  have normalUnit : ∀ r c : Fin n, c < column →
      (normalize (swapRows rows pivot column) column r).1 c = if r = c then 1 else 0 := by
    intro r c before
    unfold normalize
    by_cases same : r = column
    · rw [if_pos same, Prod.smul_fst, Pi.smul_apply, swappedUnit _ c before, if_neg before.ne',
        smul_zero, if_neg (same ▸ before.ne')]
    · rw [if_neg same, swappedUnit r c before]
  refine ⟨?_, ?_, ?_⟩
  · exact ((reduced.nonsingular.swapRows pivot column).normalize column leading).eliminate column
  · intro r
    unfold GaussJordan.step eliminate
    split_ifs
    · exact normalHolds r
    · exact holds_sub _ _ _ (normalHolds r) (holds_smul _ _ _ (normalHolds column))
  · intro r c upTo
    unfold GaussJordan.step eliminate
    rcases (Nat.lt_succ_iff.mp upTo).lt_or_eq with before | last
    · by_cases same : r = column
      · rw [if_pos same, normalUnit r c before]
      · rw [if_neg same, Prod.fst_sub, Pi.sub_apply, Prod.smul_fst, Pi.smul_apply,
          normalUnit r c before, normalUnit column c before, if_neg (Fin.ne_of_gt before), smul_zero, sub_zero]
    · have same : c = column := Fin.ext last
      subst same
      by_cases diagonal : r = c
      · rw [if_pos diagonal, diagonal, normalPivot, if_pos rfl]
      · rw [if_neg diagonal, Prod.fst_sub, Pi.sub_apply, Prod.smul_fst, Pi.smul_apply, normalPivot,
          smul_eq_mul, mul_one, sub_self, if_neg diagonal]

theorem Reduced.solved {solution : Fin n → V} {rows : Fin n → Row K V n}
    (reduced : Reduced solution rows n) (r : Fin n) : (rows r).2 = solution r := by
  have holds := reduced.holds r
  unfold Holds at holds
  rw [← holds]
  have unit : ∀ c, (rows r).1 c = if r = c then 1 else 0 := fun c => reduced.unit r c c.isLt
  simp only [unit, ite_smul, one_smul, zero_smul, Finset.sum_ite_eq, Finset.mem_univ, if_true]

section Cauchy

open Polynomial

variable (x y : Fin n → K)

/-- A vector in the kernel of a Cauchy matrix gives a polynomial of degree below `n`
with `n` roots; its values at the `y` are the entries of the vector up to a factor. -/
theorem cauchy_kernel (distinctX : Function.Injective x) (distinctY : Function.Injective y)
    (apart : ∀ r c, x r ≠ y c) (vector : Fin n → K)
    (kernel : ∀ r, ∑ c, (x r - y c)⁻¹ * vector c = 0) : vector = 0 := by
  let product (c : Fin n) : K[X] := Lagrange.nodal (Finset.univ.erase c) y
  let numerator : K[X] := ∑ c, C (vector c) * product c
  have root : ∀ r, numerator.eval (x r) = 0 := by
    intro r
    have scaled : numerator.eval (x r) =
        (∏ other, (x r - y other)) * ∑ c, (x r - y c)⁻¹ * vector c := by
      simp only [numerator, product, eval_finsetSum, eval_mul, eval_C, Lagrange.eval_nodal,
        Finset.mul_sum]
      apply Finset.sum_congr rfl
      intro c _
      rw [← Finset.mul_prod_erase Finset.univ _ (Finset.mem_univ c)]
      have nonzero : x r - y c ≠ 0 := sub_ne_zero.mpr (apart r c)
      field_simp
    rw [scaled, kernel r, mul_zero]
  have degree : numerator.degree < (Finset.univ : Finset (Fin n)).card := by
    rw [← mem_degreeLT]
    apply Submodule.sum_mem
    intro c _
    rw [← smul_eq_C_mul]
    apply Submodule.smul_mem
    rw [mem_degreeLT, Lagrange.degree_nodal, Nat.cast_lt]
    exact Finset.card_lt_card (Finset.erase_ssubset (Finset.mem_univ c))
  have zero : numerator = 0 :=
    eq_zero_of_degree_lt_of_eval_index_eq_zero _ distinctX.injOn degree (fun r _ => root r)
  funext c
  have value : numerator.eval (y c) = vector c * (product c).eval (y c) := by
    simp only [numerator, eval_finsetSum, eval_mul, eval_C]
    apply Finset.sum_eq_single_of_mem c (Finset.mem_univ c)
    intro other _ differs
    rw [Lagrange.eval_nodal_at_node (Finset.mem_erase.mpr ⟨differs.symm, Finset.mem_univ c⟩), mul_zero]
  have nonzero : (product c).eval (y c) ≠ 0 := by
    rw [Lagrange.eval_nodal, Finset.prod_ne_zero_iff]
    intro other member
    exact sub_ne_zero.mpr (fun same => Finset.ne_of_mem_erase member (distinctY same).symm)
  rw [zero, eval_zero, eq_comm, mul_eq_zero] at value
  exact value.resolve_right nonzero

end Cauchy

end GaussJordan
