import Mathlib.Algebra.Field.Defs
import Mathlib.Algebra.Polynomial.OfFn
import Mathlib.RingTheory.AdjoinRoot
import Norr.Lib.Bytes
import Norr.Lib.GaussJordan

/-! The field with 256 elements as the code computes it, from tables of powers of two; a byte stands for the
residue of a polynomial. -/

namespace Norr.Fec

open Polynomial

structure Tables where
  exp : Vector UInt8 512 := Vector.replicate 512 0
  log : Vector UInt8 256 := Vector.replicate 256 0

namespace Tables

/-- One doubling of the running power, reduced by the field polynomial. -/
def advance (value : UInt32) : UInt32 :=
  let shifted := value <<< 1
  if shifted &&& 0x100 ≠ 0 then shifted ^^^ 0x11D else shifted

/-- The first loop of the table constructor, with the rounds it has left. -/
def fill : ℕ → ℕ → UInt32 → Tables → Tables
  | 0, _, _, tables => tables
  | rounds + 1, index, value, tables =>
    fill rounds (index + 1) (advance value)
      { exp := tables.exp.setIfInBounds index value.toUInt8
        log := tables.log.setIfInBounds value.toNat (UInt8.ofNat index) }

/-- The second loop: the upper part of `exp` repeats the lower one. -/
def wrap : ℕ → ℕ → Vector UInt8 512 → Vector UInt8 512
  | 0, _, exp => exp
  | rounds + 1, index, exp =>
    wrap rounds (index + 1) (exp.setIfInBounds index (exp.toList.getD (index - 255) 0))

end Tables

def expTable : Bytes := (Tables.wrap 257 255 (Tables.fill 255 0 1 {}).exp).toList

def logTable : Bytes := (Tables.fill 255 0 1 {}).log.toList

def exp (index : ℕ) : UInt8 := expTable.getD index 0

def log (value : UInt8) : ℕ := (logTable.getD value.toNat 0).toNat

def multiply (left right : UInt8) : UInt8 :=
  if left = 0 ∨ right = 0 then 0 else exp (log left + log right)

def inverse (value : UInt8) : UInt8 := if value = 0 then 0 else exp (255 - log value)

def kMaximumFecData : ℕ := 64

def kMaximumFecParity : ℕ := 16

def cauchy (parityRow dataColumn : ℕ) : UInt8 :=
  inverse (UInt8.ofNat (kMaximumFecData + parityRow) ^^^ UInt8.ofNat dataColumn)

/-- The accumulator loop of `multiply_add`, over the common length. -/
def accumulate (term : UInt8 → UInt8) : Bytes → Bytes → Bytes
  | octet :: accumulator, input :: source => (octet ^^^ term input) :: accumulate term accumulator source
  | accumulator, [] => accumulator
  | [], _ => []

def multiplyAdd (accumulator source : Bytes) (coefficient : UInt8) : Bytes :=
  if coefficient = 0 then accumulator
  else if coefficient = 1 then accumulate id accumulator source
  else accumulate (multiply coefficient) accumulator source

def scale (row : Bytes) (coefficient : UInt8) : Bytes := row.map (multiply coefficient)

namespace Tables

/-- The doubling of `advance` on bytes. -/
def double (value : UInt8) : UInt8 := (advance value.toUInt32).toUInt8

theorem forall_byte {property : UInt8 → Prop} (all : ∀ index : Fin 256, property (UInt8.ofFin index))
    (value : UInt8) : property value := by
  have same : UInt8.ofFin value.toFin = value := by simp
  rw [← same]
  exact all value.toFin

theorem advance_byte (value : UInt8) : advance value.toUInt32 = (double value).toUInt32 := by
  revert value
  apply forall_byte
  decide +kernel

theorem double_zero : double 0 = 0 := by
  decide +kernel

theorem iterate_zero (count : ℕ) : double^[count] 0 = 0 :=
  Function.iterate_fixed double_zero count

def power (index : ℕ) : UInt8 := double^[index] 1

theorem power_add (first second : ℕ) : power (first + second) = double^[first] (power second) :=
  Function.iterate_add_apply double first second 1

theorem power_cycle : power 255 = 1 := by
  decide +kernel

theorem power_wrap (index : ℕ) : power (index + 255) = power index := by
  rw [power_add, power_cycle, power]

theorem foldl_testBit (values : List UInt8) (mask index : ℕ) :
    (values.foldl (fun mask value => mask ||| 2 ^ value.toNat) mask).testBit index = true ↔
      mask.testBit index = true ∨ ∃ value ∈ values, value.toNat = index := by
  induction values generalizing mask with
  | nil => simp
  | cons head tail ih =>
    rw [List.foldl_cons, ih, Nat.testBit_or, Bool.or_eq_true, Nat.testBit_two_pow,
      decide_eq_true_iff, or_assoc]
    simp

theorem power_mask :
    (List.iterate double 1 255).foldl (fun mask value => mask ||| 2 ^ value.toNat) 1 = 2 ^ 256 - 1 := by
  decide +kernel

theorem power_surjective (value : UInt8) (nonzero : value ≠ 0) : ∃ index < 255, power index = value := by
  have covered := foldl_testBit (List.iterate double 1 255) 1 value.toNat
  rw [power_mask, Nat.testBit_two_pow_sub_one, decide_eq_true_iff] at covered
  rcases covered.mp value.toNat_lt with zero | ⟨found, member, same⟩
  · have low : value.toNat = 0 := Nat.testBit_one_eq_true_iff_self_eq_zero.mp zero
    exact absurd (UInt8.toNat_inj.mp low) nonzero
  · obtain ⟨index, bound, reached⟩ := List.mem_iterate.mp member
    exact ⟨index, bound, by rw [power, ← reached, UInt8.toNat_inj.mp same]⟩

/-- The state of the first loop before round `index`. -/
structure Filled (index : ℕ) (tables : Tables) : Prop where
  exp : ∀ i < index, tables.exp.toList.getD i 0 = power i
  log : ∀ i < index, (tables.log.toList.getD (power i).toNat 0).toNat < index ∧
    power (tables.log.toList.getD (power i).toNat 0).toNat = power i

theorem filled_round {index : ℕ} {tables : Tables} (filled : Filled index tables) (bound : index < 255) :
    Filled (index + 1)
      { exp := tables.exp.setIfInBounds index (power index)
        log := tables.log.setIfInBounds (power index).toNat (UInt8.ofNat index) } where
  exp := by
    intro i upTo
    rw [Vector.toList_setIfInBounds, List.getD_set_slot _ _ _ _ _ (by rw [Vector.length_toList]; omega)]
    by_cases same : index = i
    · rw [if_pos same, same]
    · rw [if_neg same, filled.exp i (by omega)]
  log := by
    intro i upTo
    have byte : (power index).toNat < 256 := (power index).toNat_lt
    rw [Vector.toList_setIfInBounds, List.getD_set_slot _ _ _ _ _ (by rwa [Vector.length_toList])]
    by_cases same : (power index).toNat = (power i).toNat
    · have small : (UInt8.ofNat index).toNat = index := by
        rw [UInt8.toNat_ofNat']
        exact Nat.mod_eq_of_lt (by omega)
      rw [if_pos same, small]
      exact ⟨Nat.lt_succ_self _, UInt8.toNat_inj.mp same⟩
    · have older : i < index := by
        rcases (Nat.lt_succ_iff.mp upTo).lt_or_eq with older | latest
        · exact older
        · exact absurd (by rw [latest]) same
      rw [if_neg same]
      exact ⟨(filled.log i older).1.trans (Nat.lt_succ_self _), (filled.log i older).2⟩

theorem filled_fill (rounds index : ℕ) (tables : Tables) (filled : Filled index tables)
    (bound : index + rounds ≤ 255) :
    Filled (index + rounds) (fill rounds index (power index).toUInt32 tables) := by
  induction rounds generalizing index tables with
  | zero => exact filled
  | succ rounds ih =>
    have next : advance (power index).toUInt32 = (power (index + 1)).toUInt32 := by
      rw [advance_byte, power, power, Function.iterate_succ_apply']
    simp only [fill]
    rw [next, UInt8.toUInt8_toUInt32, UInt8.toNat_toUInt32, show index + (rounds + 1) = index + 1 + rounds by omega]
    exact ih (index + 1) _ (filled_round filled (by omega)) (by omega)

theorem wrap_spec (rounds index : ℕ) (exp : Vector UInt8 512) (known : ∀ i < index, exp.toList.getD i 0 = power i)
    (start : 255 ≤ index) (bound : index + rounds ≤ 512) :
    ∀ i < index + rounds, (wrap rounds index exp).toList.getD i 0 = power i := by
  induction rounds generalizing index exp with
  | zero => exact known
  | succ rounds ih =>
    rw [show index + (rounds + 1) = index + 1 + rounds by omega]
    apply ih
    · intro i upTo
      rw [Vector.toList_setIfInBounds, List.getD_set_slot _ _ _ _ _ (by rw [Vector.length_toList]; omega)]
      by_cases same : index = i
      · rw [if_pos same, known _ (by omega), ← power_wrap, Nat.sub_add_cancel start, same]
      · rw [if_neg same, known i (by omega)]
    · omega
    · omega

theorem filled_all : Filled 255 (fill 255 0 1 {}) := by
  have empty : Filled 0 {} := ⟨fun i below => absurd below i.not_lt_zero, fun i below => absurd below i.not_lt_zero⟩
  have start : (power 0).toUInt32 = 1 := by decide
  have filled := filled_fill 255 0 {} empty (by omega)
  rwa [Nat.zero_add, start] at filled

end Tables

theorem exp_eq (index : ℕ) (bound : index < 512) : exp index = Tables.power index := by
  unfold exp expTable
  exact Tables.wrap_spec 257 255 _ Tables.filled_all.exp (by omega) (by omega) index (by omega)

theorem log_power (index : ℕ) (bound : index < 255) :
    log (Tables.power index) < 255 ∧ Tables.power (log (Tables.power index)) = Tables.power index := by
  unfold log logTable
  exact Tables.filled_all.log index bound

theorem log_spec (value : UInt8) (nonzero : value ≠ 0) :
    log value < 255 ∧ Tables.power (log value) = value := by
  obtain ⟨index, bound, rfl⟩ := Tables.power_surjective value nonzero
  exact log_power index bound

attribute [irreducible] exp log

theorem multiply_eq (left right : UInt8) (nonzero : left ≠ 0) :
    multiply left right = Tables.double^[log left] right := by
  unfold multiply
  by_cases zero : right = 0
  · rw [if_pos (.inr zero), zero, Tables.iterate_zero]
  · obtain ⟨boundLeft, -⟩ := log_spec left nonzero
    obtain ⟨boundRight, valueRight⟩ := log_spec right zero
    rw [if_neg (by simp [nonzero, zero]), exp_eq _ (by omega), Tables.power_add, valueRight]

theorem zero_multiply (right : UInt8) : multiply 0 right = 0 := by
  simp [multiply]

theorem multiply_zero (left : UInt8) : multiply left 0 = 0 := by
  simp [multiply]

/-- x^8 + x^4 + x^3 + x^2 + 1 -/
noncomputable def modulus : (ZMod 2)[X] := X ^ 8 + X ^ 4 + X ^ 3 + X ^ 2 + 1

def bit (value : UInt8) (index : Fin 8) : ZMod 2 := if value.toNat.testBit index then 1 else 0

/-- The residue of the polynomial whose coefficients are the bits of the byte. -/
noncomputable def residue (value : UInt8) : AdjoinRoot modulus := AdjoinRoot.mk modulus (ofFn 8 (bit value))

theorem modulus_degree : modulus.degree = 8 := by
  unfold modulus
  compute_degree!

theorem bit_xor (first second : UInt8) : bit (first ^^^ second) = bit first + bit second := by
  funext index
  simp only [bit, Pi.add_apply, UInt8.toNat_xor, Nat.testBit_xor]
  cases first.toNat.testBit index <;> cases second.toNat.testBit index <;> rfl

theorem bit_injective : Function.Injective bit := by
  intro first second same
  apply UInt8.toNat_inj.mp
  apply Nat.eq_of_testBit_eq
  intro index
  by_cases inside : index < 8
  · have here := congrFun same ⟨index, inside⟩
    simp only [bit] at here
    split_ifs at here with one two two
    · rw [one, two]
    · cases here
    · cases here
    · rw [Bool.eq_false_iff.mpr one, Bool.eq_false_iff.mpr two]
  · have above (value : UInt8) : value.toNat < 2 ^ index :=
      value.toNat_lt.trans_le (Nat.pow_le_pow_right (by decide) (not_lt.mp inside))
    rw [Nat.testBit_lt_two_pow (above first), Nat.testBit_lt_two_pow (above second)]

theorem residue_xor (first second : UInt8) : residue (first ^^^ second) = residue first + residue second := by
  rw [residue, bit_xor, map_add, map_add]
  rfl

theorem residue_injective : Function.Injective residue := by
  intro first second same
  have divides : modulus ∣ ofFn 8 (bit first) - ofFn 8 (bit second) := AdjoinRoot.mk_eq_mk.mp same
  have small : (ofFn 8 (bit first) - ofFn 8 (bit second)).degree < modulus.degree := by
    rw [← map_sub, modulus_degree]
    exact ofFn_degree_lt _
  have equal := sub_eq_zero.mp (eq_zero_of_dvd_of_degree_lt divides small)
  apply bit_injective
  rw [← toFn_comp_ofFn_eq_id 8 (bit first), equal, toFn_comp_ofFn_eq_id]

theorem bit_double (value : UInt8) : bit (Tables.double value) =
    ![bit value 7, bit value 0, bit value 1 + bit value 7, bit value 2 + bit value 7, bit value 3 + bit value 7,
      bit value 4, bit value 5, bit value 6] := by
  revert value
  apply Tables.forall_byte
  decide +kernel

theorem residue_sum (value : UInt8) :
    residue value =
      ∑ index : Fin 8, AdjoinRoot.of modulus (bit value index) * AdjoinRoot.root modulus ^ (index : ℕ) := by
  rw [residue, ofFn_eq_sum_monomial, map_sum]
  apply Finset.sum_congr rfl
  intro index _
  rw [← C_mul_X_pow_eq_monomial, map_mul, map_pow, AdjoinRoot.mk_X]
  rfl

theorem two_eq_zero : (2 : AdjoinRoot modulus) = 0 := by
  rw [← map_ofNat (AdjoinRoot.of modulus) 2]
  exact map_zero _

/-- Doubling a byte multiplies its residue by x. -/
theorem residue_double (value : UInt8) :
    residue (Tables.double value) = AdjoinRoot.root modulus * residue value := by
  have vanishes : AdjoinRoot.root modulus ^ 8 + AdjoinRoot.root modulus ^ 4 + AdjoinRoot.root modulus ^ 3 +
      AdjoinRoot.root modulus ^ 2 + 1 = 0 := by
    have zero : AdjoinRoot.mk modulus (X ^ 8 + X ^ 4 + X ^ 3 + X ^ 2 + 1) = 0 := AdjoinRoot.mk_self
    simpa only [map_add, map_pow, map_one, AdjoinRoot.mk_X] using zero
  simp only [residue_sum, bit_double, Fin.sum_univ_eight, Fin.isValue, Fin.coe_ofNat_eq_mod, Nat.reduceMod,
    Matrix.cons_val_zero, Matrix.cons_val_one, Matrix.cons_val, map_add]
  linear_combination (-AdjoinRoot.of modulus (bit value 7)) * vanishes + AdjoinRoot.of modulus (bit value 7) *
    (AdjoinRoot.root modulus ^ 4 + AdjoinRoot.root modulus ^ 3 + AdjoinRoot.root modulus ^ 2 + 1) * two_eq_zero

theorem residue_iterate (count : ℕ) (value : UInt8) :
    residue (Tables.double^[count] value) = AdjoinRoot.root modulus ^ count * residue value := by
  induction count with
  | zero => rw [Function.iterate_zero_apply, pow_zero, one_mul]
  | succ count ih => rw [Function.iterate_succ_apply', residue_double, ih, pow_succ', mul_assoc]

theorem residue_zero : residue 0 = 0 := by
  rw [← UInt8.xor_self (a := 0), residue_xor, ← two_mul, two_eq_zero, zero_mul]

theorem residue_one : residue 1 = 1 := by
  simp only [residue_sum, Fin.sum_univ_eight, show bit 1 = ![1, 0, 0, 0, 0, 0, 0, 0] by decide +kernel]
  simp

theorem residue_multiply (left right : UInt8) : residue (multiply left right) = residue left * residue right := by
  by_cases zero : left = 0
  · rw [zero, zero_multiply, residue_zero, zero_mul]
  · have power : residue left = AdjoinRoot.root modulus ^ log left := by
      rw [← mul_one (_ ^ _), ← residue_one, ← residue_iterate]
      exact congrArg residue (log_spec left zero).2.symm
    rw [multiply_eq _ _ zero, residue_iterate, power]

theorem multiply_xor (left first second : UInt8) :
    multiply left (first ^^^ second) = multiply left first ^^^ multiply left second :=
  residue_injective (by simp only [residue_multiply, residue_xor, mul_add])

theorem multiply_comm (left right : UInt8) : multiply left right = multiply right left :=
  residue_injective (by simp only [residue_multiply, mul_comm])

theorem multiply_assoc (first second third : UInt8) :
    multiply (multiply first second) third = multiply first (multiply second third) :=
  residue_injective (by simp only [residue_multiply, mul_assoc])

theorem one_multiply (right : UInt8) : multiply 1 right = right :=
  residue_injective (by rw [residue_multiply, residue_one, one_mul])

theorem multiply_inverse (value : UInt8) (nonzero : value ≠ 0) : multiply value (inverse value) = 1 := by
  obtain ⟨bound, reached⟩ := log_spec value nonzero
  rw [multiply_eq _ _ nonzero, inverse, if_neg nonzero, exp_eq _ (by omega), ← Tables.power_add,
    show log value + (255 - log value) = 255 by omega, Tables.power_cycle]

/-- A byte read as an element of the field; addition is exclusive or. -/
@[ext]
structure Gf256 where
  byte : UInt8
  deriving DecidableEq, Repr

namespace Gf256

instance : Zero Gf256 := ⟨⟨0⟩⟩
instance : One Gf256 := ⟨⟨1⟩⟩
instance : Add Gf256 := ⟨fun first second => ⟨first.byte ^^^ second.byte⟩⟩
instance : Neg Gf256 := ⟨id⟩
instance : Mul Gf256 := ⟨fun first second => ⟨multiply first.byte second.byte⟩⟩
instance : Inv Gf256 := ⟨fun value => ⟨inverse value.byte⟩⟩

@[simp]
theorem byte_mul (first second : Gf256) :
    (first * second).byte = multiply first.byte second.byte := rfl

@[simp]
theorem byte_add (first second : Gf256) : (first + second).byte = first.byte ^^^ second.byte := rfl

@[simp]
theorem byte_neg (value : Gf256) : (-value).byte = value.byte := rfl

@[simp]
theorem byte_inv (value : Gf256) : (value⁻¹).byte = inverse value.byte := rfl

instance : CommRing Gf256 where
  add_assoc first second third := by
    ext1
    exact UInt8.xor_assoc _ _ _
  zero_add value := by
    ext1
    exact UInt8.zero_xor
  add_zero value := by
    ext1
    exact UInt8.xor_zero
  add_comm first second := by
    ext1
    exact UInt8.xor_comm _ _
  neg_add_cancel value := by
    ext1
    exact UInt8.xor_self
  mul_assoc first second third := by
    ext1
    exact multiply_assoc _ _ _
  mul_comm first second := by
    ext1
    exact multiply_comm _ _
  one_mul value := by
    ext1
    exact one_multiply _
  mul_one value := by
    ext1
    exact (multiply_comm _ _).trans (one_multiply _)
  zero_mul value := by
    ext1
    exact zero_multiply value.byte
  mul_zero value := by
    ext1
    exact multiply_zero value.byte
  left_distrib first second third := by
    ext1
    exact multiply_xor _ _ _
  right_distrib first second third := by
    ext1
    simp only [byte_mul, byte_add, multiply_comm _ third.byte, multiply_xor]
  nsmul := nsmulRec
  zsmul := zsmulRec

instance : Field Gf256 where
  exists_pair_ne := ⟨0, 1, by decide⟩
  mul_inv_cancel value nonzero := by
    ext1
    exact multiply_inverse _ (fun zero => nonzero (Gf256.ext zero))
  inv_zero := rfl
  nnqsmul := _
  nnqsmul_def _ _ := rfl
  qsmul := _
  qsmul_def _ _ := rfl

@[simp]
theorem byte_sub (first second : Gf256) : (first - second).byte = first.byte ^^^ second.byte := by
  rw [sub_eq_add_neg, byte_add, byte_neg]

theorem sub_eq_add (first second : Gf256) : first - second = first + second := by
  ext1
  rw [byte_sub, byte_add]

end Gf256

/-- A byte string as a vector of field elements, zero beyond its end. -/
def vec (bytes : Bytes) : ℕ → Gf256 := fun index => ⟨bytes.getD index 0⟩

theorem vec_nil : vec [] = 0 := by
  funext index
  rfl

theorem vec_append_zeros (bytes : Bytes) (count : ℕ) : vec (bytes ++ List.replicate count 0) = vec bytes := by
  funext index
  ext1
  simp only [vec, List.getD_eq_getElem?_getD, List.getElem?_append, List.getElem?_replicate]
  split_ifs with inside padded
  · rfl
  · simp [List.getElem?_eq_none (not_lt.mp inside)]
  · simp [List.getElem?_eq_none (not_lt.mp inside)]

theorem accumulate_length (term : UInt8 → UInt8) (accumulator source : Bytes) :
    (accumulate term accumulator source).length = accumulator.length := by
  induction accumulator, source using accumulate.induct with
  | case1 octet accumulator input source ih => simp [accumulate, ih]
  | case2 accumulator => simp [accumulate]
  | case3 source nonempty => simp [accumulate]

theorem accumulate_getD (term : UInt8 → UInt8) (accumulator source : Bytes) (index : ℕ) :
    (accumulate term accumulator source).getD index 0 =
      if index < min accumulator.length source.length then
        accumulator.getD index 0 ^^^ term (source.getD index 0) else accumulator.getD index 0 := by
  induction accumulator, source using accumulate.induct generalizing index with
  | case1 octet accumulator input source ih =>
    cases index with
    | zero => simp [accumulate]
    | succ index => simpa [accumulate] using ih index
  | case2 accumulator => simp [accumulate]
  | case3 source nonempty => simp [accumulate]

/-- What `multiply_add` is to do, octet by octet. -/
def Multiplied (coefficient : UInt8) (accumulator source result : Bytes) : Prop :=
  result.length = accumulator.length ∧ ∀ index, result.getD index 0 =
    if index < min accumulator.length source.length then
      accumulator.getD index 0 ^^^ multiply coefficient (source.getD index 0) else accumulator.getD index 0

theorem multiplyAdd_multiplied (accumulator source : Bytes) (coefficient : UInt8) :
    Multiplied coefficient accumulator source (multiplyAdd accumulator source coefficient) := by
  unfold multiplyAdd
  split_ifs with zero one
  · exact ⟨rfl, fun index => by rw [zero, zero_multiply, UInt8.xor_zero, ite_self]⟩
  · refine ⟨accumulate_length _ _ _, fun index => ?_⟩
    rw [one, one_multiply, accumulate_getD, id]
  · exact ⟨accumulate_length _ _ _, accumulate_getD _ _ _⟩

theorem multiplyAdd_length (accumulator source : Bytes) (coefficient : UInt8) :
    (multiplyAdd accumulator source coefficient).length = accumulator.length :=
  (multiplyAdd_multiplied accumulator source coefficient).1

theorem vec_multiplyAdd (accumulator source : Bytes) (coefficient : UInt8)
    (fits : source.length ≤ accumulator.length) :
    vec (multiplyAdd accumulator source coefficient) =
      vec accumulator + (⟨coefficient⟩ : Gf256) • vec source := by
  funext index
  ext1
  change (multiplyAdd accumulator source coefficient).getD index 0 =
    accumulator.getD index 0 ^^^ multiply coefficient (source.getD index 0)
  rw [(multiplyAdd_multiplied accumulator source coefficient).2, min_eq_right fits]
  split_ifs with inside
  · rfl
  · rw [List.getD_eq_default _ _ (not_lt.mp inside), multiply_zero, UInt8.xor_zero]

theorem vec_scale (row : Bytes) (coefficient : UInt8) :
    vec (scale row coefficient) = (⟨coefficient⟩ : Gf256) • vec row := by
  funext index
  ext1
  change (row.map (multiply coefficient)).getD index 0 = multiply coefficient (row.getD index 0)
  simp only [List.getD_eq_getElem?_getD, List.getElem?_map]
  cases row[index]? <;> simp [multiply_zero]

theorem cauchy_eq (parityRow dataColumn : ℕ) :
    (⟨cauchy parityRow dataColumn⟩ : Gf256) =
      ((⟨UInt8.ofNat (kMaximumFecData + parityRow)⟩ : Gf256) - ⟨UInt8.ofNat dataColumn⟩)⁻¹ := by
  ext1
  rw [Gf256.byte_inv, Gf256.byte_sub]
  rfl

theorem ofNat_byte_injective {first second : ℕ} (boundFirst : first < 256) (boundSecond : second < 256)
    (same : (⟨UInt8.ofNat first⟩ : Gf256) = ⟨UInt8.ofNat second⟩) : first = second := by
  have bytes := congrArg (fun value : Gf256 => value.byte.toNat) same
  simpa [UInt8.toNat_ofNat', Nat.mod_eq_of_lt boundFirst, Nat.mod_eq_of_lt boundSecond] using bytes

/-- Any square part of the coding matrix has a trivial kernel. -/
theorem cauchy_nonsingular {n : ℕ} (rows columns : Fin n → ℕ) (distinctRows : Function.Injective rows)
    (distinctColumns : Function.Injective columns) (boundRows : ∀ r, rows r < kMaximumFecParity)
    (boundColumns : ∀ c, columns c < kMaximumFecData) (vector : Fin n → Gf256)
    (kernel : ∀ r, ∑ c, (⟨cauchy (rows r) (columns c)⟩ : Gf256) * vector c = 0) : vector = 0 := by
  unfold kMaximumFecParity at boundRows
  unfold kMaximumFecData at boundColumns
  apply GaussJordan.cauchy_kernel (fun r => (⟨UInt8.ofNat (kMaximumFecData + rows r)⟩ : Gf256))
    (fun c => ⟨UInt8.ofNat (columns c)⟩)
  · intro first second same
    have boundFirst := boundRows first
    have boundSecond := boundRows second
    have sum := ofNat_byte_injective (by unfold kMaximumFecData; omega)
      (by unfold kMaximumFecData; omega) same
    exact distinctRows (Nat.add_left_cancel sum)
  · intro first second same
    have boundFirst := boundColumns first
    have boundSecond := boundColumns second
    exact distinctColumns (ofNat_byte_injective (by omega) (by omega) same)
  · intro r c same
    have boundRow := boundRows r
    have boundColumn := boundColumns c
    have equal := ofNat_byte_injective (by unfold kMaximumFecData; omega) (by omega) same
    unfold kMaximumFecData at equal
    omega
  · intro r
    rw [← kernel r]
    exact Finset.sum_congr rfl (fun c _ => by rw [cauchy_eq])

end Norr.Fec
