import Norr.Lib.Checked
import Norr.Lib.OnesComplement

/-! The packet primitives of `offload.cpp`: loads and stores, header fields and checksums. A result
`none` is an access outside of the span it is made on. -/

namespace Norr.Offload

open Checked OnesComplement Words ByteOrder

open OnesComplement (wordSum)
open Words (word16 word32 setWord16 setWord32)

def kProtocolTcp : UInt8 := 6

def kProtocolUdp : UInt8 := 17

def load16 (bytes : Bytes) (offset : ℕ) : Option UInt16 := do
  let high ← bytes[offset]?
  let low ← bytes[offset + 1]?
  some (high.toUInt16 <<< 8 ||| low.toUInt16)

def store16 (bytes : Bytes) (offset : ℕ) (value : UInt16) : Option Bytes := do
  let bytes ← Checked.write bytes offset (value >>> 8).toUInt8
  Checked.write bytes (offset + 1) (value &&& 0xFF).toUInt8

def load32 (bytes : Bytes) (offset : ℕ) : Option UInt32 := do
  let first ← bytes[offset]?
  let second ← bytes[offset + 1]?
  let third ← bytes[offset + 2]?
  let fourth ← bytes[offset + 3]?
  some (first.toUInt32 <<< 24 ||| second.toUInt32 <<< 16 ||| third.toUInt32 <<< 8 ||| fourth.toUInt32)

def store32 (bytes : Bytes) (offset : ℕ) (value : UInt32) : Option Bytes := do
  let bytes ← Checked.write bytes offset (value >>> 24).toUInt8
  let bytes ← Checked.write bytes (offset + 1) ((value >>> 16) &&& 0xFF).toUInt8
  let bytes ← Checked.write bytes (offset + 2) ((value >>> 8) &&& 0xFF).toUInt8
  Checked.write bytes (offset + 3) (value &&& 0xFF).toUInt8

def subspan (bytes : Bytes) (offset count : ℕ) : Option Bytes :=
  if offset + count ≤ bytes.length then some (ByteOrder.slice bytes offset count) else none

def isIpv4 (packet : Bytes) : Bool := !packet.isEmpty && packet.getD 0 0 >>> 4 == 4

def ipHeaderLength (packet : Bytes) : ℕ :=
  if isIpv4 packet then (packet.getD 0 0 &&& 0x0F).toNat * 4 else 40

def ipProtocol (packet : Bytes) : Option UInt8 := if isIpv4 packet then packet[9]? else packet[6]?

def foldChecksum (sum : ℕ) : UInt16 := UInt16.ofNat (OnesComplement.fold sum)

/-- The loop takes eight octets at a time, then two, then the one that may be left. A span that fits
into memory cannot overflow the 64 bits of the sum. -/
def checksumAdd : Bytes → ℕ → ℕ
  | a :: b :: c :: d :: e :: f :: g :: h :: rest, sum =>
    checksumAdd rest (sum + (a.toNat * 2 ^ 8 + b.toNat) + (c.toNat * 2 ^ 8 + d.toNat) +
      (e.toNat * 2 ^ 8 + f.toNat) + (g.toNat * 2 ^ 8 + h.toNat))
  | a :: b :: rest, sum => checksumAdd rest (sum + (a.toNat * 2 ^ 8 + b.toNat))
  | [a], sum => sum + a.toNat * 2 ^ 8
  | [], sum => sum

def pseudoHeaderSum (packet : Bytes) (protocol : UInt8) (transportLength : ℕ) : Option ℕ :=
  if isIpv4 packet then do
    let addresses ← subspan packet 12 8
    some (checksumAdd addresses protocol.toNat + transportLength)
  else do
    let addresses ← subspan packet 8 32
    some (checksumAdd addresses protocol.toNat + (transportLength >>> 16) + (transportLength &&& 0xFFFF))

def transportChecksumValid (packet : Bytes) : Option Bool :=
  let ipLength := ipHeaderLength packet
  if packet.length < ipLength then some false
  else do
    let transport := packet.drop ipLength
    let protocol ← ipProtocol packet
    let pseudo ← pseudoHeaderSum packet protocol transport.length
    some (foldChecksum (pseudo + checksumAdd transport 0) == 0xFFFF)

def setIpLength (packet : Bytes) (total : ℕ) : Option Bytes :=
  if isIpv4 packet then do
    let packet ← store16 packet 2 (UInt16.ofNat total)
    let packet ← store16 packet 10 0
    let header ← subspan packet 0 (ipHeaderLength packet)
    store16 packet 10 (~~~foldChecksum (checksumAdd header 0))
  else store16 packet 4 (UInt16.ofNat total - 40)

def checksumField (protocol : UInt8) : ℕ := if protocol = kProtocolTcp then 16 else 6

/-- The transport part is a view into the packet, so that a store into it is one into the packet. -/
def finishTransportChecksum (packet : Bytes) (ipLength : ℕ) (protocol : UInt8) : Option Bytes :=
  if packet.length < ipLength then none
  else do
    let field := checksumField protocol
    let packet ← store16 packet (ipLength + field) 0
    let transport := packet.drop ipLength
    let pseudo ← pseudoHeaderSum packet protocol transport.length
    let value := ~~~foldChecksum (pseudo + checksumAdd transport 0)
    let value := if protocol = kProtocolUdp ∧ value = 0 then 0xFFFF else value
    store16 packet (ipLength + field) value

variable {bytes : Bytes} {offset : ℕ}

theorem load16_eq (inside : offset + 1 < bytes.length) :
    load16 bytes offset = some (word16 bytes offset) :=
  bind_eq (read_eq (by omega) 0) (bind_eq (read_eq inside 0) rfl)

theorem load32_eq (inside : offset + 3 < bytes.length) :
    load32 bytes offset = some (word32 bytes offset) :=
  bind_eq (read_eq (by omega) 0) (bind_eq (read_eq (by omega) 0)
    (bind_eq (read_eq (by omega) 0) (bind_eq (read_eq inside 0) rfl)))

theorem store16_eq (inside : offset + 1 < bytes.length) (value : UInt16) :
    store16 bytes offset value = some (setWord16 bytes offset value) :=
  bind_eq (write_eq (by omega) _) (write_eq (by rwa [List.length_set]) _)

theorem store16_none (outside : bytes.length ≤ offset + 1) (value : UInt16) : store16 bytes offset value = none := by
  rw [store16, write]
  split_ifs
  · rw [Option.bind_eq_bind, Option.bind_some, write, if_neg]
    rw [List.length_set]
    omega
  · rfl

theorem store32_eq (inside : offset + 3 < bytes.length) (value : UInt32) :
    store32 bytes offset value = some (setWord32 bytes offset value) := by
  refine bind_eq (write_eq (by omega) _) (bind_eq (write_eq ?_ _)
    (bind_eq (write_eq ?_ _) (write_eq ?_ _)))
  all_goals
    simp only [List.length_set]
    omega

theorem store32_length {after : Bytes} {value : UInt32} (wrote : store32 bytes offset value = some after) :
    after.length = bytes.length := by
  obtain ⟨first, one, wrote⟩ := Option.bind_eq_some_iff.mp wrote
  obtain ⟨second, two, wrote⟩ := Option.bind_eq_some_iff.mp wrote
  obtain ⟨third, three, four⟩ := Option.bind_eq_some_iff.mp wrote
  rw [write_length four, write_length three, write_length two, write_length one]

theorem subspan_eq {count : ℕ} (inside : offset + count ≤ bytes.length) :
    subspan bytes offset count = some (slice bytes offset count) := if_pos inside

theorem checksumAdd_eq (bytes : Bytes) (initial : ℕ) : checksumAdd bytes initial = initial + wordSum bytes := by
  fun_induction checksumAdd bytes initial with
  | case1 a b c d e f g h rest sum ih =>
    rw [ih]
    simp only [wordSum]
    omega
  | case2 a b rest sum few ih =>
    rw [ih, wordSum]
    omega
  | case3 => rfl
  | case4 => rfl

theorem foldChecksum_toNat (sum : ℕ) : (foldChecksum sum).toNat = fold sum :=
  UInt16.toNat_ofNat_of_lt' (fold_lt sum)

theorem complement_toNat (sum : ℕ) : (~~~foldChecksum sum).toNat = 65535 - fold sum := by
  rw [UInt16.toNat_not, foldChecksum_toNat]
  rfl

theorem foldChecksum_ones (sum : ℕ) : foldChecksum sum = 0xFFFF ↔ fold sum = 65535 := by
  rw [← UInt16.toNat_inj, foldChecksum_toNat]
  rfl

/-! What a store leaves alone -/

section Alike

variable {first second : Bytes} {count : ℕ} (length : first.length = second.length)
  (same : ∀ index < count, first.getD index 0 = second.getD index 0)

include length same

theorem isIpv4_congr (some : 0 < count) : isIpv4 first = isIpv4 second := by
  have empty : first.isEmpty = second.isEmpty := by
    rw [Bool.eq_iff_iff, List.isEmpty_iff_length_eq_zero, List.isEmpty_iff_length_eq_zero, length]
  rw [isIpv4, isIpv4, empty, same 0 some]

theorem ipHeaderLength_congr (some : 0 < count) : ipHeaderLength first = ipHeaderLength second := by
  rw [ipHeaderLength, ipHeaderLength, isIpv4_congr length same some, same 0 some]

theorem subspan_congr (offset size : ℕ) (inside : offset + size ≤ count) :
    subspan first offset size = subspan second offset size := by
  have start := List.take_eq_of_getD 0 length same
  have cut (bytes : Bytes) : slice bytes offset size = slice (bytes.take count) offset size := by
    rw [slice, slice, List.drop_take, List.take_take, min_eq_left (by omega)]
  rw [subspan, subspan, length, cut first, cut second, start]

theorem pseudoHeaderSum_congr (header : ipHeaderLength first ≤ count) (long : 20 ≤ ipHeaderLength first)
    (protocol : UInt8) (transportLength : ℕ) :
    pseudoHeaderSum first protocol transportLength = pseudoHeaderSum second protocol transportLength := by
  have version := isIpv4_congr length same (by omega)
  rw [pseudoHeaderSum, pseudoHeaderSum, version]
  by_cases four : isIpv4 second = true
  · rw [if_pos four, if_pos four, subspan_congr length same 12 8 (by omega)]
  · rw [ipHeaderLength, version, if_neg four] at header
    rw [if_neg four, if_neg four, subspan_congr length same 8 32 (by omega)]

end Alike

theorem drop_setWord16 (bytes : Bytes) (start offset : ℕ) (value : UInt16) :
    (setWord16 bytes (start + offset) value).drop start = setWord16 (bytes.drop start) offset value := by
  simp only [setWord16, List.drop_set]
  rw [if_neg (by omega), if_neg (by omega)]
  congr 2
  · omega
  · omega

theorem take_setWord16 (bytes : Bytes) (count offset : ℕ) (value : UInt16) :
    (setWord16 bytes offset value).take count = setWord16 (bytes.take count) offset value := by
  rw [setWord16, setWord16, List.take_set, List.take_set]

/-- A checksum over a buffer whose field was cleared, written into the field, closes the sum. -/
theorem closes_sum (bytes : Bytes) (index rest : ℕ) (inside : 2 * index + 1 < bytes.length)
    (cleared : word16 bytes (2 * index) = 0) (some : 0 < rest + wordSum bytes) :
    fold (rest + wordSum (setWord16 bytes (2 * index) (~~~foldChecksum (rest + wordSum bytes)))) =
      65535 := by
  have sum := wordSum_setWord16 bytes index (~~~foldChecksum (rest + wordSum bytes)) inside
  rw [cleared, complement_toNat, UInt16.toNat_zero, Nat.add_zero] at sum
  rw [sum, ← Nat.add_assoc]
  exact fold_add_complement some

variable {packet : Bytes} {protocol : UInt8}

theorem ipHeaderLength_ipv6 (six : isIpv4 packet = false) : ipHeaderLength packet = 40 := by
  rw [ipHeaderLength, six]
  rfl

theorem first_octet (four : isIpv4 packet = true) : packet.getD 0 0 ≠ 0 := by
  intro zero
  rw [isIpv4, zero, Bool.and_eq_true] at four
  exact absurd four.2 (by decide)

theorem ipProtocol_eq (long : 20 ≤ packet.length) :
    ipProtocol packet = some (packet.getD (if isIpv4 packet then 9 else 6) 0) := by
  unfold ipProtocol
  split_ifs
  · exact read_eq (by omega) 0
  · exact read_eq (by omega) 0

/-- What `set_ip_length` writes: the length, and for IPv4 a header that sums to all ones. -/
structure Relengthed (packet : Bytes) (total : ℕ) (after : Bytes) : Prop where
  length : after.length = packet.length
  ipv4 : isIpv4 packet = true → word16 after 2 = UInt16.ofNat total ∧
    OnesComplement.fold (wordSum (after.take (ipHeaderLength packet))) = 65535 ∧
    ∀ index, index < 2 ∨ 4 ≤ index ∧ index < 10 ∨ 12 ≤ index → after.getD index 0 = packet.getD index 0
  ipv6 : isIpv4 packet = false → word16 after 4 = UInt16.ofNat total - 40 ∧
    ∀ index, index < 4 ∨ 6 ≤ index → after.getD index 0 = packet.getD index 0

theorem setIpLength_spec (inside : ipHeaderLength packet ≤ packet.length) (long : 20 ≤ ipHeaderLength packet)
    (total : ℕ) : ∃ after, setIpLength packet total = some after ∧ Relengthed packet total after := by
  unfold setIpLength
  cases four : isIpv4 packet with
  | false =>
    rw [if_neg (by decide), store16_eq (by omega)]
    refine ⟨_, rfl, length_setWord16 _ _ _, fun six => ?_, fun _ => ⟨?_, fun index apart => ?_⟩⟩
    · rw [four] at six
      cases six
    · exact word16_setWord16 _ _ (by omega)
    · exact getD_setWord16_apart _ _ _ (by omega)
  | true =>
    rw [if_pos rfl]
    set sized := setWord16 packet 2 (UInt16.ofNat total) with sizes
    set cleared := setWord16 sized 10 0 with clears
    have lengths : cleared.length = packet.length := by
      rw [clears, sizes, length_setWord16, length_setWord16]
    have start : ∀ index < 1, cleared.getD index 0 = packet.getD index 0 := by
      intro index small
      rw [clears, getD_setWord16_apart _ _ _ (by omega), sizes, getD_setWord16_apart _ _ _ (by omega)]
    have same : ipHeaderLength cleared = ipHeaderLength packet := ipHeaderLength_congr lengths start one_pos
    set header := ipHeaderLength packet with headers
    have taken : slice cleared 0 header = cleared.take header := by
      rw [slice, List.drop_zero]
    have sum : checksumAdd (cleared.take header) 0 = wordSum (cleared.take header) := by
      rw [checksumAdd_eq, Nat.zero_add]
    have short : (cleared.take header).length = header := List.length_take_of_le (by omega)
    refine ⟨setWord16 cleared 10 (~~~foldChecksum (wordSum (cleared.take header))), ?_, ?_, fun _ => ⟨?_, ?_, ?_⟩,
      fun six => ?_⟩
    · refine bind_eq (store16_eq (by omega) _) (bind_eq (store16_eq ?_ _) (bind_eq
        (subspan_eq ?_) ?_))
      · rw [length_setWord16]
        omega
      · rw [same, length_setWord16, length_setWord16, Nat.zero_add]
        exact inside
      · rw [← sizes, ← clears, same, taken, sum]
        exact store16_eq (by omega) _
    · rw [length_setWord16, lengths]
    · rw [← word16_setWord16 packet (UInt16.ofNat total) (by omega : 2 + 1 < packet.length)]
      apply word16_congr
      all_goals
        rw [getD_setWord16_apart _ _ _ (by omega), clears, getD_setWord16_apart _ _ _ (by omega)]
    · have field : word16 (cleared.take header) 10 = 0 := by
        rw [clears, take_setWord16]
        apply word16_setWord16
        rw [sizes, take_setWord16, length_setWord16, List.length_take_of_le inside]
        omega
      have octet : (cleared.take header).getD 0 0 ≠ 0 := by
        rw [List.getD_eq_getElem?_getD, List.getElem?_take_of_lt (by omega), ← List.getD_eq_getElem?_getD,
          start 0 one_pos]
        exact first_octet four
      have closed := closes_sum (cleared.take header) 5 0 (by omega) field
      rw [Nat.zero_add, Nat.zero_add] at closed
      rw [take_setWord16]
      exact closed (wordSum_pos octet)
    · intro index apart
      rw [getD_setWord16_apart _ _ _ (by omega), clears, getD_setWord16_apart _ _ _ (by omega), sizes,
        getD_setWord16_apart _ _ _ (by omega)]
    · rw [four] at six
      cases six

/-- What `finish_transport_checksum` writes: a checksum that makes the transport part sum to all ones. -/
structure Closed (packet : Bytes) (ipLength field : ℕ) (protocol : UInt8) (after : Bytes) : Prop where
  length : after.length = packet.length
  apart : ∀ index, index < ipLength + field ∨ ipLength + field + 1 < index →
    after.getD index 0 = packet.getD index 0
  sum : ∃ pseudo, pseudoHeaderSum after protocol (after.drop ipLength).length = some pseudo ∧
    OnesComplement.fold (pseudo + wordSum (after.drop ipLength)) = 65535

theorem pseudoHeaderSum_pos (inside : ipHeaderLength packet ≤ packet.length) (long : 20 ≤ ipHeaderLength packet)
    (some : protocol ≠ 0) (transportLength : ℕ) :
    ∃ pseudo, pseudoHeaderSum packet protocol transportLength = .some pseudo ∧ 0 < pseudo := by
  have positive : protocol.toNat ≠ 0 := fun zero => some (UInt8.toNat_inj.mp zero)
  unfold pseudoHeaderSum
  split_ifs with four
  · refine ⟨_, bind_eq (subspan_eq (by omega)) rfl, ?_⟩
    rw [checksumAdd_eq]
    omega
  · rw [ipHeaderLength_ipv6 (Bool.eq_false_iff.mpr four)] at inside
    refine ⟨_, bind_eq (subspan_eq (by omega)) rfl, ?_⟩
    rw [checksumAdd_eq]
    omega

theorem finishTransportChecksum_spec (inside : ipHeaderLength packet + checksumField protocol + 1 < packet.length)
    (long : 20 ≤ ipHeaderLength packet) (some : protocol ≠ 0) :
    ∃ after, finishTransportChecksum packet (ipHeaderLength packet) protocol = .some after ∧
      Closed packet (ipHeaderLength packet) (checksumField protocol) protocol after := by
  set ipLength := ipHeaderLength packet with lengths
  set field := checksumField protocol with fields
  obtain ⟨half, even⟩ : ∃ half, field = 2 * half := by
    rw [fields, checksumField]
    split_ifs
    · exact ⟨8, rfl⟩
    · exact ⟨3, rfl⟩
  set cleared := setWord16 packet (ipLength + field) 0 with clears
  have size : cleared.length = packet.length := by
    rw [clears, length_setWord16]
  have alike : ∀ index < ipLength, cleared.getD index 0 = packet.getD index 0 := by
    intro index small
    rw [clears, getD_setWord16_apart _ _ _ (by omega)]
  have header : ipHeaderLength cleared = ipLength := ipHeaderLength_congr size alike (by omega)
  have held : ipHeaderLength cleared ≤ cleared.length := by omega
  obtain ⟨pseudo, computed, positive⟩ :=
    pseudoHeaderSum_pos held (by omega) some (cleared.drop ipLength).length
  set sum := pseudo + wordSum (cleared.drop ipLength) with sums
  set value : UInt16 := if protocol = kProtocolUdp ∧ ~~~foldChecksum sum = 0 then 0xFFFF else ~~~foldChecksum sum
    with values
  have room : 2 * half + 1 < (cleared.drop ipLength).length := by
    rw [List.length_drop, size]
    omega
  have blank : word16 (cleared.drop ipLength) (2 * half) = 0 := by
    rw [clears, drop_setWord16, even]
    apply word16_setWord16
    rw [List.length_drop]
    omega
  have total : fold (sum + value.toNat) = 65535 := by
    rw [values]
    split_ifs with zero
    · apply fold_add_ones
      have nothing := congrArg UInt16.toNat zero.2
      have bound := fold_lt sum
      rw [complement_toNat, UInt16.toNat_zero] at nothing
      omega
    · rw [complement_toNat]
      exact fold_add_complement (by omega)
  refine ⟨setWord16 cleared (ipLength + field) value, ?_, ?_⟩
  · rw [finishTransportChecksum, if_neg (by omega)]
    refine bind_eq (store16_eq inside 0) (bind_eq computed ?_)
    rw [checksumAdd_eq, Nat.zero_add]
    exact store16_eq (by rw [← clears, size]; exact inside) _
  · constructor
    · rw [length_setWord16, size]
    · intro index apart
      rw [getD_setWord16_apart _ _ _ (by omega), clears, getD_setWord16_apart _ _ _ (by omega)]
    · have kept : ∀ index < ipLength,
          (setWord16 cleared (ipLength + field) value).getD index 0 = cleared.getD index 0 := by
        intro index small
        exact getD_setWord16_apart _ _ _ (by omega)
      have same := length_setWord16 cleared (ipLength + field) value
      have again : ipHeaderLength (setWord16 cleared (ipLength + field) value) = ipLength :=
        (ipHeaderLength_congr same kept (by omega)).trans header
      refine ⟨pseudo, ?_, ?_⟩
      · rw [pseudoHeaderSum_congr same kept (by omega) (by omega), List.length_drop, same, ← List.length_drop]
        exact computed
      · have written := wordSum_setWord16 (cleared.drop ipLength) half value room
        rw [blank, UInt16.toNat_zero, Nat.add_zero, ← even] at written
        rw [drop_setWord16, written, ← Nat.add_assoc]
        exact total

theorem finishTransportChecksum_none {ipLength : ℕ}
    (outside : packet.length ≤ ipLength + checksumField protocol + 1) :
    finishTransportChecksum packet ipLength protocol = none := by
  unfold finishTransportChecksum
  split_ifs
  · rfl
  · apply bind_none
    intro cleared wrote
    rw [store16_none outside] at wrote
    cases wrote

/-- A packet whose transport part sums to all ones is one the checksum test lets through. -/
theorem transportChecksumValid_of {pseudo : ℕ} (inside : ipHeaderLength packet ≤ packet.length)
    (held : ipProtocol packet = some protocol)
    (computed : pseudoHeaderSum packet protocol (packet.drop (ipHeaderLength packet)).length = some pseudo)
    (ones : fold (pseudo + wordSum (packet.drop (ipHeaderLength packet))) = 65535) :
    transportChecksumValid packet = some true := by
  rw [transportChecksumValid, if_neg (by omega)]
  refine bind_eq held (bind_eq computed ?_)
  rw [checksumAdd_eq, Nat.zero_add, (foldChecksum_ones _).mpr ones]
  rfl

end Norr.Offload
