import Mathlib.Data.FinEnum
import Norr.Offload.Coalescer
import Norr.Offload.Segments
import Norr.Lib.Grouping
import Norr.Lib.Lists

/-! What the items of the coalescer hold: the packets that were put together, and what they have in
common. -/

namespace Norr.Offload

open ByteOrder (slice)
open Words (word16 word32)

def body (packet : Bytes) : Bytes := packet.drop (headersLength packet)

def sequenceNumber (packet : Bytes) : UInt32 := word32 packet (ipHeaderLength packet + 4)

theorem isCandidate_iff (packet : Bytes) : isCandidate packet = true ↔ 40 ≤ packet.length ∧
    (packet.getD 0 0 >>> 4 = 4 ∧ packet.getD 0 0 &&& 0x0F = 5 ∧ packet.getD 9 0 = kProtocolTcp ∧
        word16 packet 6 &&& 0x3FFF = 0 ∨
      packet.getD 0 0 >>> 4 = 6 ∧ 60 ≤ packet.length ∧ packet.getD 6 0 = kProtocolTcp) := by
  rw [isCandidate]
  generalize packet.getD 0 0 = octet
  have apart : octet >>> 4 = 6 → octet >>> 4 ≠ 4 := by
    intro six
    rw [six]
    decide
  split_ifs with short four header protocol
  · simp only [false_iff]
    omega
  · simp only [false_iff]
    tauto
  · simp only [false_iff]
    tauto
  · simp only [beq_iff_eq]
    have long : 40 ≤ packet.length := by omega
    tauto
  · simp only [Bool.and_eq_true, beq_iff_eq, decide_eq_true_eq]
    have long : 40 ≤ packet.length := by omega
    tauto

/-- What `add` knows of the packets that it does not pass on as they are. -/
structure Segment (packet : Bytes) : Prop where
  ipv4 : isIpv4 packet = true → packet.getD 0 0 = 0x45 ∧ ipHeaderLength packet = 20 ∧ packet.getD 9 0 = kProtocolTcp
  ipv6 : isIpv4 packet = false →
    packet.getD 0 0 >>> 4 = 6 ∧ ipHeaderLength packet = 40 ∧ packet.getD 6 0 = kProtocolTcp
  long : 20 ≤ tcpHeaderLength packet
  carries : headersLength packet < packet.length

theorem isIpv4_iff {packet : Bytes} (some : 0 < packet.length) :
    isIpv4 packet = true ↔ packet.getD 0 0 >>> 4 = 4 := by
  rw [isIpv4, List.isEmpty_eq_false_iff.mpr (List.length_pos_iff.mp some)]
  simp

theorem segment_of_carries {packet : Bytes} (carries : carriesData packet = true) : Segment packet := by
  rw [carriesData, Bool.and_eq_true, decide_eq_true_eq, isCandidate_iff] at carries
  obtain ⟨⟨-, family⟩, long, inside⟩ := carries
  have version := isIpv4_iff (Nat.lt_of_le_of_lt (Nat.zero_le _) inside)
  refine ⟨?_, ?_, long, inside⟩
  · intro four
    have high := version.mp four
    rcases family with ⟨-, header, protocol, -⟩ | ⟨six, -⟩
    · refine ⟨?_, by rw [ipHeaderLength, if_pos four, header]; rfl, protocol⟩
      have octets : ∀ octet : UInt8, octet >>> 4 = 4 → octet &&& 0x0F = 5 → octet = 0x45 := by
        decide +kernel
      exact octets _ high header
    · rw [high] at six
      exact absurd six (by decide)
  · intro six
    have header : ipHeaderLength packet = 40 := by
      rw [ipHeaderLength, six]
      rfl
    rcases family with ⟨four, -⟩ | ⟨high, -, protocol⟩
    · rw [version.mpr four] at six
      cases six
    · exact ⟨high, header, protocol⟩

/-- The octets of the headers that `try_append` compares, or that are known. -/
def Compared (ipv4 : Bool) (ip place : ℕ) : Prop :=
  ¬ (2 ≤ place ∧ place < 6) ∧ ¬ (ipv4 = true ∧ 10 ≤ place ∧ place < 12) ∧ ¬ (ip + 4 ≤ place ∧ place < ip + 8) ∧
    ¬ (ip + 12 ≤ place ∧ place < ip + 14) ∧ ¬ (ip + 16 ≤ place ∧ place < ip + 20)

/-- A segment with the headers of another one, as far as they are compared. -/
structure Alike (first packet : Bytes) : Prop where
  ipv4 : isIpv4 packet = isIpv4 first
  ipLength : ipHeaderLength packet = ipHeaderLength first
  tcpLength : tcpHeaderLength packet = tcpHeaderLength first
  same : ∀ place < headersLength first, Compared (isIpv4 first) (ipHeaderLength first) place →
    packet.getD place 0 = first.getD place 0

theorem Alike.headers {first packet : Bytes} (alike : Alike first packet) :
    headersLength packet = headersLength first := by
  rw [headersLength, headersLength, alike.ipLength, alike.tcpLength]

/-- An item that `add` appends the packet to. -/
structure Joins (item : Item Bytes) (packet : Bytes) : Prop where
  isOpen : item.isOpen = true
  ipv4 : item.ipv4 = isIpv4 packet
  ipLength : item.ipLength = ipHeaderLength packet
  tcpLength : item.tcpLength = tcpHeaderLength packet
  small : (body packet).length ≤ item.segment
  limit : item.total + (body packet).length ≤ kMaximumOffloadFrame
  next : sequenceNumber packet = item.nextSequence
  flags : tcpFlags packet &&& kNotAckOrPush = 0
  ip : if isIpv4 packet then
      (∀ place, 12 ≤ place → place < 20 → packet.getD place 0 = item.head.getD place 0) ∧
      (∀ place, place = 1 ∨ 6 ≤ place ∧ place < 9 → packet.getD place 0 = item.head.getD place 0)
    else ∀ place, place < 2 ∨ 7 ≤ place ∧ place < 40 → packet.getD place 0 = item.head.getD place 0
  tcp : ∀ place, place < 4 ∨ 8 ≤ place ∧ place < 12 ∨ 14 ≤ place ∧ place < 16 ∨
      20 ≤ place ∧ place < tcpHeaderLength packet →
    packet.getD (ipHeaderLength packet + place) 0 = item.head.getD (ipHeaderLength packet + place) 0

theorem same_of_words {first second : Bytes} {count : ℕ} (start : ℕ)
    (same : ∀ index < count, first.getD (start + index) 0 = second.getD (start + index) 0) {place : ℕ}
    (low : start ≤ place) (high : place < start + count) : first.getD place 0 = second.getD place 0 := by
  have octet := same (place - start) (by omega)
  rwa [Nat.add_sub_cancel' low] at octet

theorem sameIpHeader_spec {item : Item Bytes} {packet : Bytes} (same : item.sameIpHeader packet = true) :
    if isIpv4 packet then
      (∀ place, 12 ≤ place → place < 20 → packet.getD place 0 = item.head.getD place 0) ∧
      (∀ place, place = 1 ∨ 6 ≤ place ∧ place < 9 → packet.getD place 0 = item.head.getD place 0)
    else ∀ place, place < 2 ∨ 7 ≤ place ∧ place < 40 → packet.getD place 0 = item.head.getD place 0 := by
  rw [Item.sameIpHeader] at same
  split_ifs at same ⊢
  · simp only [Bool.and_eq_true, beq_iff_eq] at same
    obtain ⟨⟨⟨addresses, service, hops⟩, -⟩, fragment⟩ := same
    refine ⟨fun place low high => same_of_words 12 (Words.octets_of_slice addresses) low high, ?_⟩
    rintro place (rfl | ⟨low, high⟩)
    · exact service
    · rcases Nat.lt_or_ge place 8 with lower | upper
      · exact same_of_words 6 (Words.octets_of_word16 fragment) low lower
      · rw [show place = 8 by omega]
        exact hops
  · simp only [Bool.and_eq_true, beq_iff_eq] at same
    obtain ⟨addresses, ⟨version, traffic⟩, hops⟩ := same
    rintro place (low | ⟨low, high⟩)
    · interval_cases place
      · exact version
      · exact traffic
    · rcases Nat.lt_or_ge place 8 with lower | upper
      · rw [show place = 7 by omega]
        exact hops
      · exact same_of_words 8 (Words.octets_of_slice addresses) upper high

theorem sameTcpHeader_spec {item : Item Bytes} {packet : Bytes} (same : item.sameTcpHeader packet = true) :
    sequenceNumber packet = item.nextSequence ∧ tcpFlags packet &&& kNotAckOrPush = 0 ∧
      ∀ place, place < 4 ∨ 8 ≤ place ∧ place < 12 ∨ 14 ≤ place ∧ place < 16 ∨
          20 ≤ place ∧ place < tcpHeaderLength packet →
        packet.getD (ipHeaderLength packet + place) 0 = item.head.getD (ipHeaderLength packet + place) 0 := by
  simp only [Item.sameTcpHeader, Bool.and_eq_true, beq_iff_eq] at same
  obtain ⟨⟨⟨⟨⟨ports, next⟩, acknowledged⟩, window⟩, flags⟩, options⟩ := same
  have shift (bytes : Bytes) (place : ℕ) :
      (bytes.drop (ipHeaderLength packet)).getD place 0 = bytes.getD (ipHeaderLength packet + place) 0 := by
    rw [List.getD_eq_getElem?_getD, List.getElem?_drop, ← List.getD_eq_getElem?_getD]
  rw [Words.word32_drop] at next
  rw [shift] at flags
  refine ⟨next, flags, ?_⟩
  intro place apart
  rw [← shift, ← shift]
  rcases apart with low | ⟨low, high⟩ | ⟨low, high⟩ | ⟨low, high⟩
  · exact same_of_words 0 (Words.octets_of_word32 ports) (Nat.zero_le _) (by omega)
  · exact same_of_words 8 (Words.octets_of_word32 acknowledged) low high
  · exact same_of_words 14 (Words.octets_of_word16 window) low high
  · exact same_of_words 20 (Words.octets_of_slice options) low (by omega)

theorem joins_of_tryAppend {item : Item Bytes} {packet : Bytes} (joins : item.tryAppend packet = true) :
    Joins item packet := by
  simp only [Item.tryAppend, Bool.and_eq_true, decide_eq_true_eq] at joins
  obtain ⟨⟨⟨⟨⟨-, isOpen, ipv4, ipLength, tcpLength⟩, -, small⟩, limit, -⟩, ip⟩, tcp⟩ := joins
  have length : (body packet).length = packet.length - ipHeaderLength packet - tcpHeaderLength packet := by
    rw [body, List.length_drop, headersLength, Nat.sub_add_eq]
  rw [← length] at small limit
  obtain ⟨next, flags, same⟩ := sameTcpHeader_spec tcp
  exact ⟨isOpen, ipv4, ipLength, tcpLength, small, limit, next, flags, sameIpHeader_spec ip, same⟩

/-- An item with the segments that were merged into it. -/
structure Merged (item : Item Bytes) (first : Bytes) (rest : List Bytes) : Prop where
  data : ∀ packet ∈ first :: rest, Segment packet
  alike : ∀ packet ∈ rest, Alike first packet
  tcp : item.tcp = true
  ipv4 : item.ipv4 = isIpv4 first
  ipLength : item.ipLength = ipHeaderLength first
  tcpLength : item.tcpLength = tcpHeaderLength first
  segment : item.segment = (body first).length
  headLength : item.head.length = headersLength first
  head : ∀ place < headersLength first, place ≠ ipHeaderLength first + 13 →
    item.head.getD place 0 = first.getD place 0
  flags : ∀ last ∈ (first :: rest).getLast?,
    item.head.getD (ipHeaderLength first + 13) 0 = tcpFlags first ||| (tcpFlags last &&& kTcpPsh)
  payloads : item.payloads = (first :: rest).map body
  total : item.total = headersLength first + item.payloads.flatten.length
  next : item.nextSequence = sequenceNumber first + UInt32.ofNat item.payloads.flatten.length
  sequence : ∀ k packet, (first :: rest)[k]? = some packet →
    sequenceNumber packet = sequenceNumber first + UInt32.ofNat (k * item.segment)
  full : ∀ packet ∈ (first :: rest).dropLast,
    (body packet).length = item.segment ∧ tcpFlags packet &&& kTcpPsh = 0
  small : ∀ packet ∈ rest, (body packet).length ≤ item.segment
  pushes : ∀ packet ∈ rest, tcpFlags packet &&& kNotAckOrPush = 0
  plain : rest ≠ [] → tcpFlags first = kTcpAck
  limit : rest ≠ [] → item.total ≤ kMaximumOffloadFrame
  isOpen : item.isOpen = true → tcpFlags first = kTcpAck ∧
    ∀ packet ∈ first :: rest, (body packet).length = item.segment ∧ tcpFlags packet &&& kTcpPsh = 0

theorem or_own_push (flags : UInt8) : flags ||| (flags &&& kTcpPsh) = flags := by
  revert flags
  decide +kernel

theorem merged_opening {packet : Bytes} (segment : Segment packet) :
    Merged (Item.opening packet (body packet)) packet [] := by
  have carries := segment.carries
  have length : (body packet).length = packet.length - headersLength packet := List.length_drop
  have read (place : ℕ) (inside : place < headersLength packet) :
      (packet.take (headersLength packet)).getD place 0 = packet.getD place 0 := by
    rw [List.getD_eq_getElem?_getD, List.getElem?_take_of_lt inside, ← List.getD_eq_getElem?_getD]
  have long := segment.long
  constructor
  case data => simpa using segment
  case alike => simp
  case tcp => rfl
  case ipv4 => rfl
  case ipLength => rfl
  case tcpLength => rfl
  case segment => exact length.symm
  case headLength => exact List.length_take_of_le carries.le
  case head => exact fun place inside _ => read place inside
  case flags =>
    intro last found
    obtain rfl : packet = last := Option.some_inj.mp found
    rw [or_own_push]
    exact read _ (by rw [headersLength]; omega)
  case payloads => rfl
  case total =>
    change packet.length = headersLength packet + [body packet].flatten.length
    rw [List.flatten_singleton, length]
    omega
  case next =>
    change UInt32.ofNat (_ + (packet.length - headersLength packet)) = _ + UInt32.ofNat [body packet].flatten.length
    rw [List.flatten_singleton, length, UInt32.ofNat_add, UInt32.ofNat_toNat]
    rfl
  case sequence =>
    intro k other found
    obtain ⟨rfl, rfl⟩ : k = 0 ∧ packet = other := by
      cases k with
      | zero => exact ⟨rfl, Option.some_inj.mp found⟩
      | succ k => cases found
    simp
  case full => simp
  case small => simp
  case pushes => simp
  case plain => simp
  case limit => simp
  case isOpen =>
    intro flags
    have plain : tcpFlags packet = kTcpAck := eq_of_beq flags
    refine ⟨plain, ?_⟩
    intro other member
    rw [List.mem_singleton.mp member, plain]
    exact ⟨length, by decide⟩

theorem append_head (item : Item Bytes) (packet part : Bytes) (inside : item.ipLength + 13 < item.head.length) :
    (item.append packet part).head.length = item.head.length ∧
      (∀ place, place ≠ item.ipLength + 13 →
        (item.append packet part).head.getD place 0 = item.head.getD place 0) ∧
      (item.append packet part).head.getD (item.ipLength + 13) 0 =
        item.head.getD (item.ipLength + 13) 0 ||| (tcpFlags packet &&& kTcpPsh) := by
  have pushes : ∀ flags : UInt8, flags &&& kTcpPsh ≠ 0 → flags &&& kTcpPsh = kTcpPsh := by
    decide +kernel
  simp only [Item.append]
  split_ifs with pushed
  · have set := pushes _ (bne_iff_ne.mp pushed)
    refine ⟨List.length_set, ?_, ?_⟩
    · intro place other
      rw [List.getD_set_slot _ _ _ _ _ inside, if_neg other.symm]
    · rw [List.getD_set_slot _ _ _ _ _ inside, if_pos rfl, set]
  · have clear : tcpFlags packet &&& kTcpPsh = 0 := by
      simpa using pushed
    rw [clear, UInt8.or_zero]
    exact ⟨rfl, fun _ _ => rfl, rfl⟩

namespace Merged

variable {item : Item Bytes} {first packet : Bytes} {rest : List Bytes}

theorem alike_of_joins (merged : Merged item first rest) (segment : Segment packet) (joins : Joins item packet) :
    Alike first packet := by
  have family : isIpv4 packet = isIpv4 first := joins.ipv4.symm.trans merged.ipv4
  have ip : ipHeaderLength packet = ipHeaderLength first := joins.ipLength.symm.trans merged.ipLength
  have tcp : tcpHeaderLength packet = tcpHeaderLength first := joins.tcpLength.symm.trans merged.tcpLength
  refine ⟨family, ip, tcp, ?_⟩
  intro place inside compared
  obtain ⟨low, checksum, sequence, flags, urgent⟩ := compared
  have opened := merged.data first List.mem_cons_self
  have head := merged.head place inside (by omega)
  have header : place < ipHeaderLength first → packet.getD place 0 = first.getD place 0 := by
    intro early
    have same := joins.ip
    cases version : isIpv4 first with
    | true =>
      obtain ⟨octet, length, protocol⟩ := opened.ipv4 version
      obtain ⟨octet', -, protocol'⟩ := segment.ipv4 (family.trans version)
      rw [if_pos (family.trans version)] at same
      have apart : ¬ (10 ≤ place ∧ place < 12) := fun between => checksum ⟨version, between⟩
      rcases (by omega : place = 0 ∨ (place = 1 ∨ 6 ≤ place ∧ place < 9) ∨ place = 9 ∨ 12 ≤ place ∧ place < 20) with
        rfl | field | rfl | ⟨from12, to20⟩
      · rw [octet, octet']
      · rw [same.2 place field, head]
      · rw [protocol, protocol']
      · rw [same.1 place from12 to20, head]
    | false =>
      obtain ⟨-, length, protocol⟩ := opened.ipv6 version
      obtain ⟨-, -, protocol'⟩ := segment.ipv6 (family.trans version)
      rw [if_neg (by rw [family, version]; decide)] at same
      rcases (by omega : place = 6 ∨ place < 2 ∨ 7 ≤ place ∧ place < 40) with rfl | field
      · rw [protocol, protocol']
      · rw [same place field, head]
  rcases Nat.lt_or_ge place (ipHeaderLength first) with early | late
  · exact header early
  · have same := joins.tcp (place - ipHeaderLength first) (by rw [tcp]; rw [headersLength] at inside; omega)
    rw [ip, Nat.add_sub_cancel' late] at same
    rw [same, head]

theorem append (merged : Merged item first rest) (segment : Segment packet) (joins : Joins item packet) :
    Merged (item.append packet (body packet)) first (rest ++ [packet]) := by
  obtain ⟨ack, opened⟩ := merged.isOpen joins.isOpen
  have alike := merged.alike_of_joins segment joins
  have length : (body packet).length = packet.length - headersLength packet := List.length_drop
  have parts : item.payloads ++ [body packet] = (first :: (rest ++ [packet])).map body := by
    rw [merged.payloads, ← List.cons_append, List.map_append, List.map_singleton]
  have size : (item.payloads ++ [body packet]).flatten.length =
      item.payloads.flatten.length + (body packet).length := by
    rw [List.flatten_append, List.flatten_singleton, List.length_append]
  have whole : item.payloads.flatten.length = (first :: rest).length * item.segment := by
    rw [merged.payloads, List.length_flatten, List.map_map, List.sum_eq_card_nsmul _ item.segment, List.length_map,
      smul_eq_mul]
    intro size member
    obtain ⟨other, here, rfl⟩ := List.mem_map.mp member
    exact (opened other here).1
  have long := segment.long
  have place : item.ipLength + 13 < item.head.length := by
    rw [merged.headLength, merged.ipLength, headersLength, ← alike.tcpLength]
    omega
  obtain ⟨headLength, others, flags⟩ := append_head item packet (body packet) place
  constructor
  case data =>
    intro other member
    rw [← List.cons_append] at member
    rcases List.mem_append.mp member with old | new
    · exact merged.data other old
    · rwa [List.mem_singleton.mp new]
  case alike =>
    intro other member
    rcases List.mem_append.mp member with old | new
    · exact merged.alike other old
    · rwa [List.mem_singleton.mp new]
  case tcp => exact merged.tcp
  case ipv4 => exact merged.ipv4
  case ipLength => exact merged.ipLength
  case tcpLength => exact merged.tcpLength
  case segment => exact merged.segment
  case headLength => exact headLength.trans merged.headLength
  case head =>
    intro place inside apart
    rw [others place (by rwa [merged.ipLength]), merged.head place inside apart]
  case flags =>
    intro last found
    rw [← List.cons_append, List.getLast?_concat] at found
    obtain rfl : packet = last := Option.some_inj.mp found
    -- nothing that came before pushes, so that the head still has the flags of the first
    obtain ⟨before, ends⟩ : ∃ before, (first :: rest).getLast? = some before :=
      ⟨_, List.getLast?_eq_some_getLast (List.cons_ne_nil _ _)⟩
    have quiet := (opened before (List.mem_of_getLast? ends)).2
    rw [← merged.ipLength, flags, merged.ipLength, merged.flags before ends, quiet, UInt8.or_zero]
  case payloads => exact parts
  case total =>
    change item.total + (packet.length - headersLength packet) = headersLength first + _
    rw [merged.total, ← length, Nat.add_assoc, ← size]
    rfl
  case next =>
    change UInt32.ofNat (item.nextSequence.toNat + (packet.length - headersLength packet)) = _ + UInt32.ofNat _
    rw [← length, UInt32.ofNat_add, UInt32.ofNat_toNat, merged.next, UInt32.add_assoc, ← UInt32.ofNat_add, ← size]
    rfl
  case sequence =>
    intro k other found
    rw [← List.cons_append] at found
    rcases List.getElem?_concat_cases found with ⟨-, found⟩ | ⟨rfl, rfl⟩
    · exact merged.sequence k other found
    · rw [joins.next, merged.next, whole]
      rfl
  case full =>
    intro other member
    rw [← List.cons_append, List.dropLast_concat] at member
    exact opened other member
  case small =>
    intro other member
    rcases List.mem_append.mp member with old | new
    · exact merged.small other old
    · rw [List.mem_singleton.mp new]
      exact joins.small
  case pushes =>
    intro other member
    rcases List.mem_append.mp member with old | new
    · exact merged.pushes other old
    · rw [List.mem_singleton.mp new]
      exact joins.flags
  case plain => exact fun _ => ack
  case limit =>
    intro _
    have limit := joins.limit
    rw [length] at limit
    exact limit
  case isOpen =>
    intro still
    change (if _ then false else item.isOpen) = true at still
    split_ifs at still with closes
    rw [not_or, ← length] at closes
    refine ⟨ack, ?_⟩
    intro other member
    rw [← List.cons_append] at member
    rcases List.mem_append.mp member with old | new
    · exact opened other old
    · rw [List.mem_singleton.mp new]
      exact ⟨le_antisymm joins.small (Nat.not_lt.mp closes.1), by simpa using closes.2⟩

end Merged

/-- An item with the packets that are in it. -/
inductive Holds : Item Bytes → List Bytes → Prop
  | whole (packet : Bytes) (plain : carriesData packet = false) : Holds (Item.whole packet packet) [packet]
  | merged {item : Item Bytes} {first : Bytes} {rest : List Bytes} (merged : Merged item first rest) :
      Holds item (first :: rest)

theorem findFlow_lt {items : List (Item Bytes)} {packet : Bytes} {bound index : ℕ}
    (found : Item.findFlow items packet bound = some index) : index < bound := by
  induction bound with
  | zero => cases found
  | succ bound ih =>
    rw [Item.findFlow] at found
    split_ifs at found
    · rw [← Option.some_inj.mp found]
      exact Nat.lt_succ_self _
    · exact Nat.lt_succ_of_lt (ih found)

theorem target_spec {items : List (Item Bytes)} {packet : Bytes} {index : ℕ}
    (target : Item.target items packet = some index) :
    carriesData packet = true ∧ index < items.length ∧
      ∀ item, items[index]? = some item → item.tryAppend packet = true := by
  rw [Item.target] at target
  split_ifs at target with carries
  obtain ⟨found, joins⟩ := Option.filter_eq_some_iff.mp target
  refine ⟨carries, findFlow_lt found, ?_⟩
  intro item here
  rw [here] at joins
  exact joins

/-- The items, and beside them the packets in each one with their places among those added. -/
structure Ledger where
  items : List (Item Bytes) := []
  groups : List (List (Bytes × ℕ)) := []
  added : ℕ := 0

def Ledger.add (ledger : Ledger) (packet : Bytes) : Ledger :=
  { items := Item.insert ledger.items packet packet.drop
    groups := Grouping.place ledger.groups (Item.target ledger.items packet) (packet, ledger.added)
    added := ledger.added + 1 }

def ledger (packets : List Bytes) : Ledger := packets.foldl Ledger.add {}

theorem ledger_concat (packets : List Bytes) (packet : Bytes) :
    ledger (packets ++ [packet]) = (ledger packets).add packet := by
  rw [ledger, List.foldl_append]
  rfl

/-- What is true of the books at any time. -/
structure Ledger.Accounts (ledger : Ledger) (packets : List Bytes) : Prop where
  items : ledger.items = Norr.Offload.merged packets
  added : ledger.added = packets.length
  holds : List.Forall₂ (fun item group => Holds item (group.map Prod.fst)) ledger.items ledger.groups
  all : ledger.groups.flatten.Perm packets.zipIdx

theorem Ledger.Accounts.inside {ledger : Ledger} {packets : List Bytes} (accounts : ledger.Accounts packets)
    (packet : Bytes) : ∀ index ∈ Item.target ledger.items packet, index < ledger.groups.length := by
  intro index target
  rw [← accounts.holds.length_eq]
  exact (target_spec target).2.1

theorem Ledger.Accounts.add {ledger : Ledger} {packets : List Bytes} (accounts : ledger.Accounts packets)
    (packet : Bytes) : (ledger.add packet).Accounts (packets ++ [packet]) := by
  refine ⟨?_, ?_, ?_, ?_⟩
  · rw [Ledger.add, accounts.items, Norr.Offload.merged, Norr.Offload.merged, List.foldl_append]
    rfl
  · rw [Ledger.add, accounts.added, List.length_append, List.length_singleton]
  · rw [Ledger.add, Item.insert]
    cases carries : carriesData packet with
    | false =>
      have none : Item.target ledger.items packet = none := by
        rw [Item.target, carries]
        rfl
      rw [none]
      exact Grouping.tracks_place_none accounts.holds (Holds.whole packet carries)
    | true =>
      cases target : Item.target ledger.items packet with
      | none =>
        apply Grouping.tracks_place_none accounts.holds
        exact Holds.merged (merged_opening (segment_of_carries carries))
      | some index =>
        obtain ⟨-, inside, joins⟩ := target_spec target
        apply Grouping.tracks_place_some accounts.holds inside
        intro item group here holds
        rw [List.map_append, List.map_singleton]
        have appends := joins_of_tryAppend (joins item here)
        generalize group.map Prod.fst = members at holds
        cases holds with
        | whole other plain =>
          -- such an item is never open
          cases appends.isOpen
        | merged merged => exact Holds.merged (merged.append (segment_of_carries carries) appends)
  · rw [List.zipIdx_append, List.zipIdx_singleton, Nat.zero_add]
    apply (Grouping.place_perm (accounts.inside packet) _).trans
    rw [accounts.added]
    exact List.Perm.append_right _ accounts.all

theorem ledger_accounts (packets : List Bytes) : (ledger packets).Accounts packets := by
  induction packets using List.reverseRecOn with
  | nil => exact ⟨rfl, rfl, List.Forall₂.nil, List.Perm.refl _⟩
  | append_singleton packets packet ih =>
    rw [ledger_concat]
    exact ih.add packet

end Norr.Offload
