import Norr.Lib.Words

/-! Sums of 16-bit words in ones' complement arithmetic. -/

namespace OnesComplement

open Words

/-- The sum of the words of a buffer; a last octet without partner is the high one of its word. -/
def wordSum : Bytes → ℕ
  | high :: low :: rest => high.toNat * 2 ^ 8 + low.toNat + wordSum rest
  | [octet] => octet.toNat * 2 ^ 8
  | [] => 0

/-- Adds the carries back in until none is left; the sum itself bounds the number of rounds. -/
def foldRounds : ℕ → ℕ → ℕ
  | 0, sum => sum
  | rounds + 1, sum =>
    if sum >>> 16 = 0 then sum else foldRounds rounds ((sum &&& 0xFFFF) + (sum >>> 16))

def fold (sum : ℕ) : ℕ := foldRounds sum sum

theorem carry_eq (sum : ℕ) : (sum &&& 0xFFFF) + (sum >>> 16) = sum % 2 ^ 16 + sum / 2 ^ 16 := by
  rw [Nat.shiftRight_eq_div_pow]
  congr 1
  exact Nat.and_two_pow_sub_one_eq_mod sum 16

theorem foldRounds_spec (rounds sum : ℕ) (enough : sum ≤ rounds) :
    foldRounds rounds sum < 2 ^ 16 ∧ foldRounds rounds sum % 65535 = sum % 65535 ∧
      (foldRounds rounds sum = 0 ↔ sum = 0) := by
  induction rounds generalizing sum with
  | zero =>
    rw [Nat.le_zero.mp enough]
    decide
  | succ rounds ih =>
    rw [foldRounds]
    split_ifs with small
    · rw [Nat.shiftRight_eq_div_pow] at small
      exact ⟨by omega, rfl, Iff.rfl⟩
    · rw [Nat.shiftRight_eq_div_pow] at small
      rw [carry_eq]
      obtain ⟨bound, same, zero⟩ := ih (sum % 2 ^ 16 + sum / 2 ^ 16) (by omega)
      refine ⟨bound, same.trans ?_, zero.trans ?_⟩
      · omega
      · omega

theorem fold_lt (sum : ℕ) : fold sum < 2 ^ 16 := (foldRounds_spec sum sum le_rfl).1

theorem fold_mod (sum : ℕ) : fold sum % 65535 = sum % 65535 := (foldRounds_spec sum sum le_rfl).2.1

theorem fold_eq_zero (sum : ℕ) : fold sum = 0 ↔ sum = 0 := (foldRounds_spec sum sum le_rfl).2.2

/-- All ones is the other zero of the arithmetic: what a sum of something folds to when it is zero. -/
theorem fold_eq_ones (sum : ℕ) : fold sum = 65535 ↔ 0 < sum ∧ sum % 65535 = 0 := by
  have bound := fold_lt sum
  have same := fold_mod sum
  have zero := fold_eq_zero sum
  omega

/-- A sum with its complement is all ones. -/
theorem fold_add_complement {sum : ℕ} (some : 0 < sum) : fold (sum + (65535 - fold sum)) = 65535 := by
  have bound := fold_lt sum
  have same := fold_mod sum
  rw [fold_eq_ones]
  omega

/-- Where the complement is zero it may be written as all ones. -/
theorem fold_add_ones {sum : ℕ} (ones : fold sum = 65535) : fold (sum + 65535) = 65535 := by
  rw [fold_eq_ones] at ones ⊢
  omega

theorem wordSum_pos {bytes : Bytes} (nonzero : bytes.getD 0 0 ≠ 0) : 0 < wordSum bytes := by
  match bytes with
  | [] => exact absurd rfl nonzero
  | [octet] | octet :: low :: rest =>
    have some : octet.toNat ≠ 0 := fun zero => nonzero (UInt8.toNat_inj.mp zero)
    rw [wordSum]
    omega

/-- A word at an even place is one summand. -/
theorem wordSum_setWord16 (bytes : Bytes) (index : ℕ) (value : UInt16) (inside : 2 * index + 1 < bytes.length) :
    wordSum (setWord16 bytes (2 * index) value) + (word16 bytes (2 * index)).toNat =
      wordSum bytes + value.toNat := by
  induction index generalizing bytes with
  | zero =>
    match bytes, inside with
    | high :: low :: rest, inside =>
      have written := word16_setWord16 (high :: low :: rest) value inside
      have sum (first second : UInt8) :
          wordSum (first :: second :: rest) = (word16 (first :: second :: rest) 0).toNat + wordSum rest := by
        rw [wordSum, word16_toNat]
        rfl
      have shape : setWord16 (high :: low :: rest) 0 value =
        (value >>> 8).toUInt8 :: (value &&& 0xFF).toUInt8 :: rest := rfl
      rw [Nat.mul_zero, shape] at written ⊢
      rw [sum, sum, written]
      omega
  | succ index ih =>
    match bytes, inside with
    | high :: low :: rest, inside =>
      have shape : setWord16 (high :: low :: rest) (2 * (index + 1)) value =
        high :: low :: setWord16 rest (2 * index) value := rfl
      have same : word16 (high :: low :: rest) (2 * (index + 1)) = word16 rest (2 * index) := rfl
      have shorter : 2 * index + 1 < rest.length := by
        simp only [List.length_cons] at inside
        omega
      rw [shape, same, wordSum, wordSum]
      have step := ih rest shorter
      omega

end OnesComplement
