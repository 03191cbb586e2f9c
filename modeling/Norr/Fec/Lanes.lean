import Mathlib.Data.Nat.Digits.Lemmas
import Norr.Fec.Field

/-! `multiply_add` on vector registers. -/

namespace Norr.Fec

/-- A vector register, by its octets. -/
abbrev Register (width : ℕ) := Fin width → UInt8

namespace Register

variable {width : ℕ}

def load (buffer : Bytes) (index : ℕ) : Register width := fun lane => buffer.getD (index + lane) 0

def store (buffer : Bytes) (index : ℕ) (register : Register width) : Bytes :=
  buffer.take index ++ List.ofFn register ++ buffer.drop (index + width)

def fill (octet : UInt8) : Register width := fun _ => octet

def xored (first second : Register width) : Register width := fun lane => first lane ^^^ second lane

def masked (first second : Register width) : Register width := fun lane => first lane &&& second lane

/-- `_mm256_broadcastsi128_si256` -/
def broadcast (half : Register 16) : Register 32 :=
  fun lane => half ⟨lane % 16, Nat.mod_lt _ (by decide)⟩

/-- `_mm256_shuffle_epi8`: each half looks up its own half of the table. -/
def shuffle (table control : Register 32) : Register 32 := fun lane =>
  if 0x80 ≤ (control lane).toNat then 0
  else table ⟨lane / 16 * 16 + (control lane).toNat % 16, by omega⟩

/-- The 64-bit word in the given quarter of the register; its first octet is the lowest. -/
def word (register : Register 32) (quarter : Fin 4) : ℕ :=
  Nat.ofDigits 256 (List.ofFn fun octet : Fin 8 => (register ⟨8 * quarter + octet, by omega⟩).toNat)

/-- `_mm256_srli_epi64` -/
def shiftWords (register : Register 32) (bits : ℕ) : Register 32 := fun lane =>
  UInt8.ofNat (register.word ⟨lane / 8, by omega⟩ / 2 ^ bits / 256 ^ (lane.val % 8))

/-- `vqtbl1q_u8` -/
def lookup (table index : Register 16) : Register 16 := fun lane =>
  if inside : (index lane).toNat < 16 then table ⟨(index lane).toNat, inside⟩ else 0

/-- `vshrq_n_u8` -/
def shiftOctets (register : Register 16) (bits : UInt8) : Register 16 := fun lane => register lane >>> bits

end Register

/-- The row of the split products: of the low nibbles, then of the high ones. -/
def nibbles (coefficient : UInt8) : Bytes :=
  (List.range 16).map (fun nibble => multiply coefficient (UInt8.ofNat nibble)) ++
    (List.range 16).map fun nibble => multiply coefficient (UInt8.ofNat (nibble <<< 4))

open Register

def blockAvx2 (table : Bytes) (target input : Register 32) : Register 32 :=
  let low := shuffle (broadcast (load table 0)) (masked input (fill 0x0F))
  let high := shuffle (broadcast (load table 16)) (masked (shiftWords input 4) (fill 0x0F))
  xored target (xored low high)

def blockNeon (table : Bytes) (target input : Register 16) : Register 16 :=
  let low := lookup (load table 0) (masked input (fill 0x0F))
  let high := lookup (load table 16) (shiftOctets input 4)
  xored target (xored low high)

def octetLoop (term : UInt8 → UInt8) (target input : Register 1) : Register 1 :=
  fun lane => target lane ^^^ term (input lane)

/-- The loops of `multiply_add`: the blocks that fit from `index` on, with the rounds left. -/
def blocks {width : ℕ} (block : Register width → Register width → Register width) (source : Bytes) (length : ℕ) :
    ℕ → ℕ → Bytes → ℕ × Bytes
  | 0, index, accumulator => (index, accumulator)
  | rounds + 1, index, accumulator =>
    if index + width ≤ length then
      blocks block source length rounds (index + width)
        (store accumulator index (block (load accumulator index) (load source index)))
    else (index, accumulator)

inductive Platform
  | scalar
  | avx2
  | neon
  deriving DecidableEq, Repr

def Platform.multiplyAdd (platform : Platform) (accumulator source : Bytes) (coefficient : UInt8) : Bytes :=
  let length := min accumulator.length source.length
  if coefficient = 0 then accumulator
  else if coefficient = 1 then (blocks (octetLoop id) source length length 0 accumulator).2
  else
    let (index, accumulator) := match platform with
      | scalar => (0, accumulator)
      | avx2 => blocks (blockAvx2 (nibbles coefficient)) source length length 0 accumulator
      | neon => blocks (blockNeon (nibbles coefficient)) source length length 0 accumulator
    (blocks (octetLoop (multiply coefficient)) source length length index accumulator).2

theorem nibbles_low (coefficient : UInt8) (nibble : ℕ) (small : nibble < 16) :
    (nibbles coefficient).getD nibble 0 = multiply coefficient (UInt8.ofNat nibble) := by
  rw [nibbles, List.getD_append _ _ _ _ (by simpa using small), List.getD_eq_getElem _ _ (by simpa using small)]
  simp

theorem nibbles_high (coefficient : UInt8) (nibble : ℕ) (small : nibble < 16) :
    (nibbles coefficient).getD (16 + nibble) 0 = multiply coefficient (UInt8.ofNat (nibble <<< 4)) := by
  rw [nibbles, List.getD_append_right _ _ _ _ (by simp), List.getD_eq_getElem _ _ (by simpa using small)]
  simp

theorem nibble_bounds (value : UInt8) : (value &&& 0x0F).toNat < 16 ∧ value.toNat / 16 < 16 ∧
    (value >>> 4).toNat = value.toNat / 16 := by
  revert value
  apply Tables.forall_byte
  decide +kernel

theorem nibbles_join (value : UInt8) :
    UInt8.ofNat (value &&& 0x0F).toNat ^^^ UInt8.ofNat ((value.toNat / 16) <<< 4) = value := by
  revert value
  apply Tables.forall_byte
  decide +kernel

/-- The two lookups of a byte's nibbles make up its product. -/
theorem nibbles_product (coefficient value : UInt8) :
    (nibbles coefficient).getD (value &&& 0x0F).toNat 0 ^^^ (nibbles coefficient).getD (16 + value.toNat / 16) 0 =
      multiply coefficient value := by
  rw [nibbles_low _ _ (nibble_bounds value).1, nibbles_high _ _ (nibble_bounds value).2.1, ← multiply_xor,
    nibbles_join]

/-- What the shift moves in from the next octet falls to the mask. -/
theorem shiftWords_masked (register : Register 32) (lane : Fin 32) :
    (shiftWords register 4 lane &&& 0x0F).toNat = (register lane).toNat / 16 := by
  have place : lane.val % 8 < 8 := Nat.mod_lt _ (by decide)
  have digit : ∃ above, register.word ⟨lane / 8, by omega⟩ / 256 ^ (lane.val % 8) =
      (register lane).toNat + 256 * above := by
    rw [word, Nat.ofDigits_div_pow_eq_ofDigits_drop (lane.val % 8) (by decide),
      List.drop_eq_getElem_cons (by simpa using place), Nat.ofDigits_cons, List.getElem_ofFn]
    · exact ⟨_, by simp only [Nat.div_add_mod, Fin.eta]; rfl⟩
    · intro digit member
      obtain ⟨octet, rfl⟩ := (List.mem_ofFn' _ _).mp member
      exact UInt8.toNat_lt _
  obtain ⟨above, digit⟩ := digit
  have octet := (register lane).toNat_lt
  rw [shiftWords, Nat.div_div_eq_div_mul, Nat.mul_comm, ← Nat.div_div_eq_div_mul, digit, UInt8.toNat_and,
    UInt8.toNat_ofNat']
  change _ &&& (2 ^ 4 - 1) = _
  rw [Nat.and_two_pow_sub_one_eq_mod]
  omega

theorem shuffle_broadcast (half : Register 16) {control : Register 32} {lane : Fin 32} {nibble : ℕ}
    (small : nibble < 16) (chosen : (control lane).toNat = nibble) :
    shuffle (broadcast half) control lane = half ⟨nibble, small⟩ := by
  subst chosen
  rw [shuffle, if_neg (by omega), broadcast]
  exact congrArg half (Fin.ext (by simp only; omega))

theorem lookup_small (table : Register 16) {index : Register 16} {lane : Fin 16} {nibble : ℕ}
    (small : nibble < 16) (chosen : (index lane).toNat = nibble) :
    lookup table index lane = table ⟨nibble, small⟩ := by
  subst chosen
  exact dif_pos small

theorem blockAvx2_spec (coefficient : UInt8) (target input : Register 32) (lane : Fin 32) :
    blockAvx2 (nibbles coefficient) target input lane = target lane ^^^ multiply coefficient (input lane) := by
  obtain ⟨low, high, -⟩ := nibble_bounds (input lane)
  change _ ^^^ (shuffle _ _ lane ^^^ shuffle _ _ lane) = _
  rw [shuffle_broadcast _ low rfl, shuffle_broadcast _ high (shiftWords_masked input lane), load, load, Nat.zero_add,
    nibbles_product]

theorem blockNeon_spec (coefficient : UInt8) (target input : Register 16) (lane : Fin 16) :
    blockNeon (nibbles coefficient) target input lane = target lane ^^^ multiply coefficient (input lane) := by
  obtain ⟨low, high, shifted⟩ := nibble_bounds (input lane)
  change _ ^^^ (lookup _ _ lane ^^^ lookup _ _ lane) = _
  rw [lookup_small _ low rfl, lookup_small _ high shifted, load, load, Nat.zero_add, nibbles_product]

theorem store_length {width : ℕ} {buffer : Bytes} {index : ℕ} (register : Register width)
    (fits : index + width ≤ buffer.length) : (store buffer index register).length = buffer.length := by
  simp only [store, List.length_append, List.length_take, List.length_ofFn, List.length_drop]
  omega

theorem store_getD {width : ℕ} {buffer : Bytes} {index : ℕ} (register : Register width)
    (fits : index + width ≤ buffer.length) (place : ℕ) :
    (store buffer index register).getD place 0 =
      if inside : index ≤ place ∧ place < index + width then register ⟨place - index, by omega⟩
      else buffer.getD place 0 := by
  simp only [store, List.getD_eq_getElem?_getD, List.append_assoc, List.getElem?_append, List.length_take,
    List.length_ofFn, min_eq_left (show index ≤ buffer.length by omega)]
  split_ifs with before inside inside
  · omega
  · rw [List.getElem?_take_of_lt before]
  · simp [show place - index < width by omega]
  · omega
  · omega
  · rw [List.getElem?_drop]
    congr 2
    omega

/-- `multiply_add` has done the octets from `start` up to where it stands. -/
structure Added (term : UInt8 → UInt8) (source accumulator : Bytes) (start : ℕ) (result : ℕ × Bytes) : Prop where
  onward : start ≤ result.1
  inside : result.1 ≤ min accumulator.length source.length
  length : result.2.length = accumulator.length
  octets : ∀ place, result.2.getD place 0 = if start ≤ place ∧ place < result.1 then
    accumulator.getD place 0 ^^^ term (source.getD place 0) else accumulator.getD place 0

theorem Added.refl (term : UInt8 → UInt8) {source accumulator : Bytes} {start : ℕ}
    (inside : start ≤ min accumulator.length source.length) :
    Added term source accumulator start (start, accumulator) :=
  ⟨le_rfl, inside, rfl, fun place => (if_neg (by simp only; omega)).symm⟩

theorem Added.trans {term : UInt8 → UInt8} {source accumulator : Bytes} {start : ℕ} {middle result : ℕ × Bytes}
    (first : Added term source accumulator start middle) (second : Added term source middle.2 middle.1 result) :
    Added term source accumulator start result := by
  refine ⟨first.onward.trans second.onward, ?_, second.length.trans first.length, fun place => ?_⟩
  · rw [← first.length]
    exact second.inside
  · have onward := first.onward
    have onward' := second.onward
    rw [second.octets, first.octets]
    split_ifs <;> first | rfl | omega

theorem blocks_added {width : ℕ} {block : Register width → Register width → Register width} {term : UInt8 → UInt8}
    (spec : ∀ target input lane, block target input lane = target lane ^^^ term (input lane)) (source : Bytes)
    (rounds start : ℕ) (accumulator : Bytes) (inside : start ≤ min accumulator.length source.length) :
    Added term source accumulator start
      (blocks block source (min accumulator.length source.length) rounds start accumulator) := by
  induction rounds generalizing start accumulator with
  | zero => exact .refl term inside
  | succ rounds ih =>
    rw [blocks]
    split_ifs with fits
    · have room : start + width ≤ accumulator.length := fits.trans (min_le_left _ _)
      have length := store_length (block (load accumulator start) (load source start)) room
      have one : Added term source accumulator start
          (start + width, store accumulator start (block (load accumulator start) (load source start))) := by
        refine ⟨Nat.le_add_right _ _, fits, length, fun place => ?_⟩
        rw [store_getD _ room]
        split_ifs with here
        · rw [spec, load, load]
          simp only [Nat.add_sub_cancel' here.1]
        · rfl
      refine one.trans ?_
      have later := ih (start + width) (store accumulator start (block (load accumulator start) (load source start)))
        (by rwa [length])
      rwa [length] at later
    · exact .refl term inside

theorem octetLoop_reaches (term : UInt8 → UInt8) (source : Bytes) (length rounds start : ℕ) (accumulator : Bytes)
    (inside : start ≤ length) (enough : length ≤ start + rounds) :
    (blocks (octetLoop term) source length rounds start accumulator).1 = length := by
  induction rounds generalizing start accumulator with
  | zero => exact le_antisymm inside enough
  | succ rounds ih =>
    rw [blocks]
    split_ifs with fits
    · exact ih _ _ fits (by omega)
    · simp only
      omega

theorem octetLoop_multiplied {term : UInt8 → UInt8} {coefficient : UInt8} (same : term = multiply coefficient)
    {source accumulator : Bytes} {middle : ℕ × Bytes} (first : Added term source accumulator 0 middle) :
    Multiplied coefficient accumulator source (blocks (octetLoop term) source (min accumulator.length source.length)
      (min accumulator.length source.length) middle.1 middle.2).2 := by
  have spec (target input : Register 1) (lane : Fin 1) :
      octetLoop term target input lane = target lane ^^^ term (input lane) := rfl
  have rest := blocks_added spec source (min accumulator.length source.length) middle.1 middle.2
    (by rw [first.length]; exact first.inside)
  have reached := octetLoop_reaches term source _ (min accumulator.length source.length) _ middle.2 first.inside
    (Nat.le_add_left _ _)
  rw [first.length] at rest
  have whole := first.trans rest
  refine ⟨whole.length, fun place => ?_⟩
  rw [whole.octets, reached, same]
  simp only [Nat.zero_le, true_and]

theorem Platform.multiplyAdd_multiplied (platform : Platform) (accumulator source : Bytes) (coefficient : UInt8) :
    Multiplied coefficient accumulator source (platform.multiplyAdd accumulator source coefficient) := by
  have start : 0 ≤ min accumulator.length source.length := Nat.zero_le _
  unfold Platform.multiplyAdd
  dsimp only
  split_ifs with zero one
  · exact ⟨rfl, fun place => by rw [zero, zero_multiply, UInt8.xor_zero, ite_self]⟩
  · have same : id = multiply coefficient := funext fun value => by rw [one, one_multiply, id]
    exact octetLoop_multiplied same (.refl id start)
  · cases platform with
    | scalar => exact octetLoop_multiplied rfl (.refl _ start)
    | avx2 => exact octetLoop_multiplied rfl (blocks_added (blockAvx2_spec coefficient) source _ 0 accumulator start)
    | neon => exact octetLoop_multiplied rfl (blocks_added (blockNeon_spec coefficient) source _ 0 accumulator start)

theorem Multiplied.unique {coefficient : UInt8} {accumulator source first second : Bytes}
    (one : Multiplied coefficient accumulator source first)
    (other : Multiplied coefficient accumulator source second) :
    first = second := by
  have same : first.drop 0 = second.drop 0 :=
    List.drop_eq_of_getD 0 (one.1.trans other.1.symm) fun place _ => (one.2 place).trans (other.2 place).symm
  exact same

/-- The tables hold the product and the inverse of residues modulo `modulus`, and every platform adds that
    product to the octets both buffers have. -/
theorem multiplyAdd_is_product :
    Function.Injective residue ∧ (∀ left right, residue (left ^^^ right) = residue left + residue right) ∧
      (∀ left right, residue (multiply left right) = residue left * residue right) ∧
      (∀ value ≠ 0, residue value * residue (inverse value) = 1) ∧
      ∀ (platform : Platform) (accumulator source : Bytes) (coefficient : UInt8),
        Multiplied coefficient accumulator source (platform.multiplyAdd accumulator source coefficient) ∧
        platform.multiplyAdd accumulator source coefficient = multiplyAdd accumulator source coefficient := by
  refine ⟨residue_injective, residue_xor, residue_multiply, ?_, ?_⟩
  · intro value nonzero
    rw [← residue_multiply, multiply_inverse value nonzero, residue_one]
  · intro platform accumulator source coefficient
    have multiplied := platform.multiplyAdd_multiplied accumulator source coefficient
    exact ⟨multiplied, multiplied.unique (multiplyAdd_multiplied accumulator source coefficient)⟩

theorem two_has_inverse : (2 : UInt8) ≠ 0 ∧ residue 2 * residue (inverse 2) = 1 :=
  ⟨by decide, multiplyAdd_is_product.2.2.2.1 2 (by decide)⟩

end Norr.Fec
