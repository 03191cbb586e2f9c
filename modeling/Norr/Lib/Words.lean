import Norr.Lib.Bytes

/-! Big-endian words inside a buffer of octets: reading them, and writing over them in place. -/

namespace Words

open ByteOrder

def word16 (bytes : Bytes) (offset : ℕ) : UInt16 :=
  (bytes.getD offset 0).toUInt16 <<< 8 ||| (bytes.getD (offset + 1) 0).toUInt16

def word32 (bytes : Bytes) (offset : ℕ) : UInt32 :=
  (bytes.getD offset 0).toUInt32 <<< 24 ||| (bytes.getD (offset + 1) 0).toUInt32 <<< 16 |||
    (bytes.getD (offset + 2) 0).toUInt32 <<< 8 ||| (bytes.getD (offset + 3) 0).toUInt32

def setWord16 (bytes : Bytes) (offset : ℕ) (value : UInt16) : Bytes :=
  (bytes.set offset (value >>> 8).toUInt8).set (offset + 1) (value &&& 0xFF).toUInt8

def setWord32 (bytes : Bytes) (offset : ℕ) (value : UInt32) : Bytes :=
  (((bytes.set offset (value >>> 24).toUInt8).set (offset + 1) ((value >>> 16) &&& 0xFF).toUInt8).set
    (offset + 2) ((value >>> 8) &&& 0xFF).toUInt8).set (offset + 3) (value &&& 0xFF).toUInt8

theorem or_below (high places : ℕ) {low : ℕ} (small : low < 2 ^ places) :
    high <<< places ||| low = high * 2 ^ places + low := by
  rw [← Nat.shiftLeft_add_eq_or_of_lt small, Nat.shiftLeft_eq]

theorem word16_toNat (bytes : Bytes) (offset : ℕ) :
    (word16 bytes offset).toNat = (bytes.getD offset 0).toNat * 2 ^ 8 + (bytes.getD (offset + 1) 0).toNat := by
  rw [word16]
  generalize bytes.getD offset 0 = first
  generalize bytes.getD (offset + 1) 0 = second
  have high := first.toNat_lt
  have shifted : (first.toUInt16 <<< 8).toNat = first.toNat <<< 8 := by
    simp [UInt16.toNat_shiftLeft, Nat.shiftLeft_eq]
    omega
  rw [UInt16.toNat_or, shifted, UInt8.toNat_toUInt16, or_below _ 8 second.toNat_lt]

theorem word32_toNat (bytes : Bytes) (offset : ℕ) :
    (word32 bytes offset).toNat = (bytes.getD offset 0).toNat * 2 ^ 24 + (bytes.getD (offset + 1) 0).toNat * 2 ^ 16 +
      (bytes.getD (offset + 2) 0).toNat * 2 ^ 8 + (bytes.getD (offset + 3) 0).toNat := by
  rw [word32]
  generalize bytes.getD offset 0 = first
  generalize bytes.getD (offset + 1) 0 = second
  generalize bytes.getD (offset + 2) 0 = third
  generalize bytes.getD (offset + 3) 0 = fourth
  have shifted (octet : UInt8) (places : UInt32) (count : ℕ) (same : places.toNat = count) (small : count ≤ 24) :
      (octet.toUInt32 <<< places).toNat = octet.toNat <<< count := by
    have bound := octet.toNat_lt
    have fits : octet.toNat * 2 ^ count < 2 ^ 32 := by
      calc
        octet.toNat * 2 ^ count < 2 ^ 8 * 2 ^ count := Nat.mul_lt_mul_of_pos_right bound (Nat.two_pow_pos count)
        _ ≤ 2 ^ 8 * 2 ^ 24 := Nat.mul_le_mul_left _ (Nat.pow_le_pow_right two_pos small)
        _ = 2 ^ 32 := by norm_num
    rw [UInt32.toNat_shiftLeft, same, Nat.mod_eq_of_lt (lt_of_le_of_lt small (by norm_num)),
      UInt8.toNat_toUInt32, Nat.shiftLeft_eq, Nat.mod_eq_of_lt fits]
  have two := second.toNat_lt
  have three := third.toNat_lt
  have four := fourth.toNat_lt
  have low : third.toNat * 2 ^ 8 + fourth.toNat < 2 ^ 16 := by omega
  have middle : second.toNat * 2 ^ 16 + (third.toNat * 2 ^ 8 + fourth.toNat) < 2 ^ 24 := by
    calc
      _ < second.toNat * 2 ^ 16 + 2 ^ 16 := Nat.add_lt_add_left low _
      _ = (second.toNat + 1) * 2 ^ 16 := by ring
      _ ≤ 2 ^ 8 * 2 ^ 16 := Nat.mul_le_mul_right _ two
      _ = 2 ^ 24 := by norm_num
  rw [UInt32.toNat_or, UInt32.toNat_or, UInt32.toNat_or, shifted first 24 24 rfl le_rfl,
    shifted second 16 16 rfl (by norm_num), shifted third 8 8 rfl (by norm_num), UInt8.toNat_toUInt32,
    Nat.or_assoc, Nat.or_assoc, or_below _ 8 four, or_below _ 16 low, or_below _ 24 middle]
  ring

/-! Writing -/

variable (bytes : Bytes) {offset : ℕ} (place : ℕ)

@[simp]
theorem length_setWord16 (value : UInt16) : (setWord16 bytes place value).length = bytes.length := by
  simp [setWord16]

@[simp]
theorem length_setWord32 (value : UInt32) : (setWord32 bytes place value).length = bytes.length := by
  simp [setWord32]

theorem getD_setWord16 (value : UInt16) (inside : offset + 1 < bytes.length) :
    (setWord16 bytes offset value).getD place 0 =
      if place = offset then (value >>> 8).toUInt8
      else if place = offset + 1 then (value &&& 0xFF).toUInt8 else bytes.getD place 0 := by
  rw [setWord16, List.getD_set_slot _ _ _ _ _ (by simpa using inside),
    List.getD_set_slot _ _ _ _ _ (by omega)]
  split_ifs <;> first | rfl | omega

theorem getD_setWord32 (value : UInt32) (inside : offset + 3 < bytes.length) :
    (setWord32 bytes offset value).getD place 0 =
      if place = offset then (value >>> 24).toUInt8
      else if place = offset + 1 then ((value >>> 16) &&& 0xFF).toUInt8
      else if place = offset + 2 then ((value >>> 8) &&& 0xFF).toUInt8
      else if place = offset + 3 then (value &&& 0xFF).toUInt8 else bytes.getD place 0 := by
  rw [setWord32, List.getD_set_slot _ _ _ _ _ (by simpa using inside),
    List.getD_set_slot _ _ _ _ _ (by simp; omega), List.getD_set_slot _ _ _ _ _ (by simp; omega),
    List.getD_set_slot _ _ _ _ _ (by omega)]
  split_ifs <;> first | rfl | omega

theorem getD_setWord16_apart (value : UInt16) (apart : place < offset ∨ offset + 1 < place) :
    (setWord16 bytes offset value).getD place 0 = bytes.getD place 0 := by
  simp only [setWord16, List.getD_eq_getElem?_getD]
  rw [List.getElem?_set_ne (by omega), List.getElem?_set_ne (by omega)]

theorem getD_setWord32_apart (value : UInt32) (apart : place < offset ∨ offset + 3 < place) :
    (setWord32 bytes offset value).getD place 0 = bytes.getD place 0 := by
  simp only [setWord32, List.getD_eq_getElem?_getD]
  rw [List.getElem?_set_ne (by omega), List.getElem?_set_ne (by omega), List.getElem?_set_ne (by omega),
    List.getElem?_set_ne (by omega)]

theorem word16_setWord16 (value : UInt16) (inside : offset + 1 < bytes.length) :
    word16 (setWord16 bytes offset value) offset = value := by
  apply UInt16.toNat_inj.mp
  have bound := value.toNat_lt
  rw [word16_toNat, getD_setWord16 _ _ _ inside, getD_setWord16 _ _ _ inside, if_pos rfl, if_neg (by omega),
    if_pos rfl]
  have high : (value >>> 8).toUInt8.toNat = value.toNat / 256 := by
    simp [UInt16.toNat_shiftRight, Nat.shiftRight_eq_div_pow]
    omega
  have low : (value &&& 0xFF).toUInt8.toNat = value.toNat % 256 := by
    have mask (number : ℕ) : number &&& 255 = number % 256 := Nat.and_two_pow_sub_one_eq_mod number 8
    simp [mask]
  rw [high, low]
  omega

theorem word32_setWord32 (value : UInt32) (inside : offset + 3 < bytes.length) :
    word32 (setWord32 bytes offset value) offset = value := by
  apply UInt32.toNat_inj.mp
  have bound := value.toNat_lt
  have mask (number : ℕ) : number &&& 255 = number % 256 := Nat.and_two_pow_sub_one_eq_mod number 8
  have first : (value >>> 24).toUInt8.toNat = value.toNat / 2 ^ 24 := by
    simp [UInt32.toNat_shiftRight, Nat.shiftRight_eq_div_pow]
    omega
  have second : ((value >>> 16) &&& 0xFF).toUInt8.toNat = value.toNat / 2 ^ 16 % 256 := by
    simp [UInt32.toNat_shiftRight, Nat.shiftRight_eq_div_pow, mask]
  have third : ((value >>> 8) &&& 0xFF).toUInt8.toNat = value.toNat / 2 ^ 8 % 256 := by
    simp [UInt32.toNat_shiftRight, Nat.shiftRight_eq_div_pow, mask]
  have fourth : (value &&& 0xFF).toUInt8.toNat = value.toNat % 256 := by
    simp [mask]
  rw [word32_toNat]
  simp only [getD_setWord32 _ _ _ inside]
  simp only [Nat.add_eq_left, Nat.add_left_cancel_iff, Nat.reduceEqDiff, if_true, if_false, OfNat.ofNat_ne_zero,
    one_ne_zero, OfNat.ofNat_ne_one, OfNat.one_ne_ofNat, first, second, third, fourth]
  omega

theorem word16_congr {first second : Bytes} (high : first.getD place 0 = second.getD place 0)
    (low : first.getD (place + 1) 0 = second.getD (place + 1) 0) : word16 first place = word16 second place := by
  rw [word16, word16, high, low]

theorem word32_congr {first second : Bytes}
    (same : ∀ index, place ≤ index → index < place + 4 → first.getD index 0 = second.getD index 0) :
    word32 first place = word32 second place := by
  rw [word32, word32, same place (by omega) (by omega), same (place + 1) (by omega) (by omega),
    same (place + 2) (by omega) (by omega), same (place + 3) (by omega) (by omega)]

variable {first second : Bytes} {here there : ℕ}

theorem octets_of_word16 (same : word16 first here = word16 second there) :
    ∀ index < 2, first.getD (here + index) 0 = second.getD (there + index) 0 := by
  have numbers := congrArg UInt16.toNat same
  rw [word16_toNat, word16_toNat] at numbers
  have one := (first.getD (here + 1) 0).toNat_lt
  have other := (second.getD (there + 1) 0).toNat_lt
  intro index low
  apply UInt8.toNat_inj.mp
  interval_cases index
  · rw [Nat.add_zero, Nat.add_zero]
    omega
  · omega

theorem octets_of_word32 (same : word32 first here = word32 second there) :
    ∀ index < 4, first.getD (here + index) 0 = second.getD (there + index) 0 := by
  have numbers := congrArg UInt32.toNat same
  rw [word32_toNat, word32_toNat] at numbers
  have bounds (bytes : Bytes) (place : ℕ) : (bytes.getD place 0).toNat < 2 ^ 8 := (bytes.getD place 0).toNat_lt
  have left := bounds first
  have right := bounds second
  have one := And.intro (left (here + 1)) (right (there + 1))
  have two := And.intro (left (here + 2)) (right (there + 2))
  have three := And.intro (left (here + 3)) (right (there + 3))
  intro index low
  apply UInt8.toNat_inj.mp
  interval_cases index
  · rw [Nat.add_zero, Nat.add_zero]
    omega
  · omega
  · omega
  · omega

theorem octets_of_slice {count : ℕ}
    (same : slice first here count = slice second there count) :
    ∀ index < count, first.getD (here + index) 0 = second.getD (there + index) 0 := by
  intro index low
  have octet := congrArg (fun bytes => bytes[index]?.getD 0) same
  simpa only [slice, List.getElem?_take_of_lt low, List.getElem?_drop,
    ← List.getD_eq_getElem?_getD] using octet

theorem slice_congr {offset count : ℕ} (length : first.length = second.length)
    (same : ∀ index, offset ≤ index → index < offset + count → first.getD index 0 = second.getD index 0) :
    slice first offset count = slice second offset count := by
  apply List.ext_getElem
  · simp only [slice, List.length_take, List.length_drop, length]
  · intro index inFirst inSecond
    simp only [slice, List.length_take, List.length_drop] at inFirst inSecond
    have octet := same (offset + index) (by omega) (by omega)
    rw [List.getD_eq_getElem _ _ (by omega), List.getD_eq_getElem _ _ (by omega)] at octet
    simp only [slice, List.getElem_take, List.getElem_drop, octet]

theorem word32_drop (bytes : Bytes) (start offset : ℕ) :
    word32 (bytes.drop start) offset = word32 bytes (start + offset) := by
  simp only [word32, List.getD_eq_getElem?_getD, List.getElem?_drop, Nat.add_assoc]

end Words
