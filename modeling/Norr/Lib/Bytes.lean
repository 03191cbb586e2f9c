import Mathlib.Data.List.Basic
import Mathlib.Data.List.GetD
import Mathlib.Tactic

/-! Byte strings and the integers written into them. -/

abbrev Bytes := List UInt8

namespace ByteOrder

def bigEndian : ℕ → ℕ → Bytes
  | 0, _ => []
  | size + 1, value => UInt8.ofNat (value / 256 ^ size) :: bigEndian size value

def ofBigEndian (bytes : Bytes) : ℕ := bytes.foldl (fun value byte => value * 256 + byte.toNat) 0

def littleEndian : ℕ → ℕ → Bytes
  | 0, _ => []
  | size + 1, value => UInt8.ofNat value :: littleEndian size (value / 256)

def slice (bytes : Bytes) (offset size : ℕ) : Bytes := (bytes.drop offset).take size

@[simp]
theorem bigEndian_length (size value : ℕ) : (bigEndian size value).length = size := by
  induction size with
  | zero => rfl
  | succ size ih => simp [bigEndian, ih]

@[simp]
theorem littleEndian_length (size value : ℕ) : (littleEndian size value).length = size := by
  induction size generalizing value with
  | zero => rfl
  | succ size ih => simp [littleEndian, ih]

theorem foldl_bigEndian (size value start : ℕ) :
    (bigEndian size value).foldl (fun value byte => value * 256 + byte.toNat) start =
      start * 256 ^ size + value % 256 ^ size := by
  induction size generalizing start with
  | zero => simp [bigEndian, Nat.mod_one]
  | succ size ih =>
    have digit : value % 256 ^ (size + 1) =
        value / 256 ^ size % 256 * 256 ^ size + value % 256 ^ size := by
      rw [pow_succ, Nat.mod_mul]
      ring
    have byte : (UInt8.ofNat (value / 256 ^ size)).toNat = value / 256 ^ size % 256 := by
      simp [UInt8.toNat_ofNat']
    simp only [bigEndian, List.foldl_cons]
    rw [ih, byte, digit]
    ring

theorem ofBigEndian_bigEndian (size value : ℕ) (fits : value < 256 ^ size) :
    ofBigEndian (bigEndian size value) = value := by
  rw [ofBigEndian, foldl_bigEndian, zero_mul, zero_add, Nat.mod_eq_of_lt fits]

variable {offset size : ℕ} {bytes : Bytes}

theorem slice_append (before middle after : Bytes) (offset size : ℕ) (start : before.length = offset)
    (count : middle.length = size) : slice (before ++ middle ++ after) offset size = middle := by
  subst start count
  simp [slice]

theorem slice_isPrefix {part whole : Bytes} (starts : part <+: whole) (long : offset + size ≤ part.length) :
    slice part offset size = slice whole offset size := by
  obtain ⟨rest, rfl⟩ := starts
  rw [slice, slice, List.drop_append_of_le_length (by omega), List.take_append_of_le_length]
  rw [List.length_drop]
  omega

def readU16 (bytes : Bytes) (offset : ℕ) : UInt16 :=
  UInt16.ofNat (ofBigEndian (slice bytes offset 2))

def writeU16 (value : UInt16) : Bytes := bigEndian 2 value.toNat

def readU64 (bytes : Bytes) (offset : ℕ) : UInt64 :=
  UInt64.ofNat (ofBigEndian (slice bytes offset 8))

def writeU64 (value : UInt64) : Bytes := bigEndian 8 value.toNat

@[simp]
theorem writeU16_length (value : UInt16) : (writeU16 value).length = 2 := bigEndian_length 2 _

@[simp]
theorem writeU64_length (value : UInt64) : (writeU64 value).length = 8 := bigEndian_length 8 _

theorem readU16_of_slice {value : UInt16} (here : slice bytes offset 2 = writeU16 value) :
    readU16 bytes offset = value := by
  rw [readU16, here, writeU16, ofBigEndian_bigEndian _ _ value.toNat_lt, UInt16.ofNat_toNat]

theorem readU64_of_slice {value : UInt64} (here : slice bytes offset 8 = writeU64 value) :
    readU64 bytes offset = value := by
  rw [readU64, here, writeU64, ofBigEndian_bigEndian _ _ value.toNat_lt, UInt64.ofNat_toNat]

theorem readU16_append (before after : Bytes) (value : UInt16) (offset : ℕ)
    (start : before.length = offset) : readU16 (before ++ writeU16 value ++ after) offset = value :=
  readU16_of_slice (slice_append _ _ _ _ _ start (writeU16_length value))

theorem littleEndian_injective (size first second : ℕ) (fitsFirst : first < 256 ^ size)
    (fitsSecond : second < 256 ^ size) (same : littleEndian size first = littleEndian size second) :
    first = second := by
  induction size generalizing first second with
  | zero =>
    rw [pow_zero, Nat.lt_one_iff] at fitsFirst fitsSecond
    rw [fitsFirst, fitsSecond]
  | succ size ih =>
    simp only [littleEndian, List.cons.injEq] at same
    obtain ⟨low, high⟩ := same
    have lowNat : first % 256 = second % 256 := by
      simpa [UInt8.toNat_ofNat'] using congrArg UInt8.toNat low
    have highNat : first / 256 = second / 256 := by
      apply ih _ _ _ _ high
      · exact Nat.div_lt_of_lt_mul (by rwa [pow_succ, mul_comm] at fitsFirst)
      · exact Nat.div_lt_of_lt_mul (by rwa [pow_succ, mul_comm] at fitsSecond)
    omega

end ByteOrder

variable {α : Type*}

/-- Buffers of one length whose octets agree up to a bound start alike. -/
theorem List.take_eq_of_getD {first second : List α} (fallback : α) {count : ℕ}
    (length : first.length = second.length)
    (same : ∀ index < count, first.getD index fallback = second.getD index fallback) :
    first.take count = second.take count := by
  apply List.ext_getElem
  · rw [List.length_take, List.length_take, length]
  · intro index inFirst inSecond
    rw [List.length_take] at inFirst inSecond
    have equal := same index (by omega)
    rw [List.getD_eq_getElem _ _ (by omega), List.getD_eq_getElem _ _ (by omega)] at equal
    rw [List.getElem_take, List.getElem_take, equal]

theorem List.drop_eq_of_getD {first second : List α} (fallback : α) {count : ℕ}
    (length : first.length = second.length)
    (same : ∀ index, count ≤ index → first.getD index fallback = second.getD index fallback) :
    first.drop count = second.drop count := by
  apply List.ext_getElem
  · rw [List.length_drop, List.length_drop, length]
  · intro index inFirst inSecond
    rw [List.length_drop] at inFirst inSecond
    have equal := same (count + index) (Nat.le_add_right _ _)
    rw [List.getD_eq_getElem _ _ (by omega), List.getD_eq_getElem _ _ (by omega)] at equal
    rw [List.getElem_drop, List.getElem_drop, equal]

/-- Consecutive pieces of one size make up the list they were cut from. -/
theorem List.flatten_of_chunks (size : ℕ) (whole : List α) (parts : List (List α))
    (count : ∀ k, k < parts.length ↔ k * size < whole.length)
    (cut : ∀ k part, parts[k]? = some part → part = (whole.drop (k * size)).take size) : parts.flatten = whole := by
  induction parts generalizing whole with
  | nil =>
    have none := (count 0).not.mp (Nat.lt_irrefl 0)
    rw [Nat.zero_mul] at none
    rw [List.flatten_nil, List.eq_nil_of_length_eq_zero (Nat.eq_zero_of_not_pos none)]
  | cons part parts ih =>
    have first := cut 0 part rfl
    rw [Nat.zero_mul, List.drop_zero] at first
    have rest : parts.flatten = whole.drop size := by
      apply ih
      · intro k
        have later := count (k + 1)
        rw [List.length_cons, Nat.add_lt_add_iff_right, Nat.succ_mul] at later
        rw [later, List.length_drop]
        omega
      · intro k other found
        rw [List.drop_drop, Nat.add_comm, ← Nat.succ_mul]
        exact cut (k + 1) other found
    rw [List.flatten_cons, rest, first, List.take_append_drop]

/-- Pieces of one size, with less in the last one at most, are found again where they were put. -/
theorem List.chunks_of_flatten {size : ℕ} {parts : List (List α)}
    (full : ∀ part ∈ parts.dropLast, part.length = size)
    (small : ∀ part ∈ parts, 0 < part.length ∧ part.length ≤ size) :
    (∀ k, k < parts.length ↔ k * size < parts.flatten.length) ∧
      ∀ k part, parts[k]? = some part → (parts.flatten.drop (k * size)).take size = part := by
  induction parts with
  | nil => simp
  | cons part parts ih =>
    have sizes := small part List.mem_cons_self
    have later : ∀ other ∈ parts, 0 < other.length ∧ other.length ≤ size :=
      fun other member => small other (List.mem_cons_of_mem _ member)
    rcases eq_or_ne parts [] with rfl | more
    · rw [List.flatten_singleton]
      refine ⟨?_, ?_⟩
      · intro k
        rcases Nat.eq_zero_or_pos k with rfl | positive
        · simpa using sizes.1
        · have := Nat.le_mul_of_pos_left size positive
          simp only [List.length_singleton]
          omega
      · intro k other found
        obtain ⟨rfl, rfl⟩ : k = 0 ∧ part = other := by
          rcases Nat.eq_zero_or_pos k with rfl | positive
          · exact ⟨rfl, Option.some_inj.mp found⟩
          · rw [List.getElem?_eq_none (Nat.succ_le_of_lt positive)] at found
            cases found
        rw [Nat.zero_mul, List.drop_zero, List.take_of_length_le sizes.2]
    · rw [List.dropLast_cons_of_ne_nil more] at full
      obtain ⟨count, found⟩ := ih (fun other member => full other (List.mem_cons_of_mem _ member)) later
      have length : part.length = size := full part List.mem_cons_self
      rw [List.flatten_cons]
      refine ⟨?_, ?_⟩
      · intro k
        rw [List.length_cons, List.length_append, length]
        cases k with
        | zero => simpa using Or.inl (length ▸ sizes.1)
        | succ k =>
          rw [Nat.add_lt_add_iff_right, Nat.succ_mul, Nat.add_comm size, Nat.add_lt_add_iff_right]
          exact count k
      · intro k other here
        cases k with
        | zero =>
          rw [Nat.zero_mul, List.drop_zero, ← length, List.take_left]
          exact Option.some_inj.mp here
        | succ k =>
          rw [Nat.succ_mul, Nat.add_comm, ← List.drop_drop, ← length, List.drop_left, length]
          exact found k other here

theorem List.getD_set_slot (values : List α) (index other : ℕ) (value fallback : α) (bound : index < values.length) :
    (values.set index value).getD other fallback =
      if index = other then value else values.getD other fallback := by
  simp only [List.getD_eq_getElem?_getD, List.getElem?_set]
  by_cases same : index = other
  · simp [same, same ▸ bound]
  · simp [same]

/-- A value that is replaced by one of its kind is found where it was. -/
theorem List.findIdx?_set_same (test : α → Bool) (values : List α) (index : ℕ) (value : α)
    (same : ∀ old, values[index]? = some old → test value = test old) :
    (values.set index value).findIdx? test = values.findIdx? test := by
  induction values generalizing index with
  | nil => rfl
  | cons head tail ih =>
    cases index with
    | zero => rw [List.set_cons_zero, List.findIdx?_cons, List.findIdx?_cons, same head rfl]
    | succ index =>
      rw [List.set_cons_succ, List.findIdx?_cons, List.findIdx?_cons, ih index]
      intro old found
      exact same old found
