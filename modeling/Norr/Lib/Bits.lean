import Norr.Lib.Bytes

/-! The bits of a byte string, most significant first. -/

namespace BitString

def bit (bytes : Bytes) (index : ℕ) : Bool := (bytes.getD (index / 8) 0).toNat.testBit (7 - index % 8)

def clear (bytes : Bytes) (index : ℕ) : Bytes :=
  bytes.modify (index / 8) (· &&& ~~~(1 <<< UInt8.ofNat (7 - index % 8)))

theorem octet_ext {first second : UInt8}
    (same : ∀ place < 8, first.toNat.testBit place = second.toNat.testBit place) : first = second := by
  apply UInt8.toNat_inj.mp
  apply Nat.eq_of_testBit_eq
  intro place
  rcases Nat.lt_or_ge place 8 with inside | outside
  · exact same place inside
  · have wide : 2 ^ 8 ≤ 2 ^ place := Nat.pow_le_pow_right (by decide) outside
    rw [Nat.testBit_lt_two_pow (first.toNat_lt.trans_le wide),
      Nat.testBit_lt_two_pow (second.toNat_lt.trans_le wide)]

theorem bit_octet (bytes : Bytes) (octet place : ℕ) (inside : place < 8) :
    bit bytes (octet * 8 + (7 - place)) = (bytes.getD octet 0).toNat.testBit place := by
  have quotient : (octet * 8 + (7 - place)) / 8 = octet := by omega
  have rest : 7 - (octet * 8 + (7 - place)) % 8 = place := by omega
  rw [bit, quotient, rest]

/-- Byte strings that agree in their first bits agree in the bytes these fill. -/
theorem getD_eq_of_bits {first second : Bytes} {octet : ℕ}
    (same : ∀ index, index / 8 = octet → bit first index = bit second index) :
    first.getD octet 0 = second.getD octet 0 := by
  apply octet_ext
  intro place inside
  rw [← bit_octet _ _ _ inside, ← bit_octet _ _ _ inside]
  exact same _ (by omega)

theorem take_eq_iff {first second : Bytes} (count : ℕ) (fits : count ≤ first.length)
    (sized : first.length = second.length) :
    first.take count = second.take count ↔ ∀ index < count * 8, bit first index = bit second index := by
  constructor
  · intro same index inside
    have octet : index / 8 < count := by omega
    have picked := congrArg (·.getD (index / 8) 0) same
    simp only [List.getD_eq_getElem?_getD, List.getElem?_take_of_lt octet] at picked
    rw [bit, bit, List.getD_eq_getElem?_getD, List.getD_eq_getElem?_getD, picked]
  · intro same
    apply List.ext_getElem (by simp [sized])
    intro octet bound _
    have inside : octet < count := by
      rw [List.length_take] at bound
      omega
    have equal : first.getD octet 0 = second.getD octet 0 :=
      getD_eq_of_bits fun index quotient => same index (by omega)
    rw [List.getElem_take, List.getElem_take]
    rwa [List.getD_eq_getElem _ _ (by omega), List.getD_eq_getElem _ _ (by omega)] at equal

theorem mask_bit : ∀ count < 8, ∀ place < 8,
    (UInt8.ofNat (0xFF <<< (8 - count))).toNat.testBit place = decide (8 - count ≤ place) := by
  decide

/-- Two octets agree under the mask of `count` bits exactly when their first `count` bits do. -/
theorem masked_eq_iff {first second : UInt8} {count : ℕ} (fits : count < 8) :
    first &&& UInt8.ofNat (0xFF <<< (8 - count)) = second &&& UInt8.ofNat (0xFF <<< (8 - count)) ↔
      ∀ place < 8, 8 - count ≤ place → first.toNat.testBit place = second.toNat.testBit place := by
  constructor
  · intro same place inside covered
    have picked := congrArg (fun octet => octet.toNat.testBit place) same
    simp only [UInt8.toNat_and, Nat.testBit_and, mask_bit count fits place inside, covered, decide_true,
      Bool.and_true] at picked
    exact picked
  · intro same
    apply octet_ext
    intro place inside
    simp only [UInt8.toNat_and, Nat.testBit_and, mask_bit count fits place inside]
    by_cases covered : 8 - count ≤ place
    · rw [same place inside covered]
    · simp [covered]

theorem cleared_bit : ∀ index < 8, ∀ place < 8,
    (~~~((1 : UInt8) <<< UInt8.ofNat index)).toNat.testBit place = decide (place ≠ index) := by
  decide

theorem clear_length (bytes : Bytes) (index : ℕ) : (clear bytes index).length = bytes.length :=
  List.length_modify _ _ _

theorem bit_clear (bytes : Bytes) {index : ℕ} (inside : index < bytes.length * 8) (other : ℕ) :
    bit (clear bytes index) other = (bit bytes other && decide (other ≠ index)) := by
  have octet : index / 8 < bytes.length := by omega
  rw [bit, bit, clear]
  by_cases same : index / 8 = other / 8
  · rw [List.getD_eq_getElem?_getD, List.getElem?_modify, ← same, List.getElem?_eq_getElem octet,
      List.getD_eq_getElem _ _ octet]
    simp only [if_true, Option.map_eq_map, Option.map_some, Option.getD_some, UInt8.toNat_and,
      Nat.testBit_and]
    rw [cleared_bit (7 - index % 8) (by omega) (7 - other % 8) (by omega)]
    congr 2
    apply propext
    constructor <;> intro differ equal <;> apply differ <;> omega
  · have apart : other ≠ index := fun equal => same (by rw [equal])
    rw [List.getD_eq_getElem?_getD, List.getElem?_modify, List.getD_eq_getElem?_getD]
    simp [same, apart]

theorem foldl_clear (indices : List ℕ) (bytes : Bytes) (inside : ∀ index ∈ indices, index < bytes.length * 8) :
    (indices.foldl clear bytes).length = bytes.length ∧
      ∀ other, bit (indices.foldl clear bytes) other = (bit bytes other && decide (other ∉ indices)) := by
  induction indices generalizing bytes with
  | nil => simp
  | cons index indices ih =>
    obtain ⟨first, rest⟩ := List.forall_mem_cons.mp inside
    obtain ⟨length, bits⟩ := ih (clear bytes index) (by rwa [clear_length])
    refine ⟨by rw [List.foldl_cons, length, clear_length], fun other => ?_⟩
    rw [List.foldl_cons, bits, bit_clear bytes first, Bool.and_assoc]
    congr 1
    simp [not_or, Bool.decide_and]

end BitString
