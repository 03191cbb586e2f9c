import Norr.Offload.Expand

/-! The segments that `expand_offloaded` emits, and the packets on which it leaves its buffer. -/

namespace Norr.Offload

open Checked

open OnesComplement (wordSum)
open Words (word16 word32)

namespace SuperPacket

variable {super : SuperPacket}

/-- Every segment that the loop cuts has room for its transport checksum. -/
def Roomy (super : SuperPacket) : Prop :=
  ∀ k, k * super.segment < super.payload.length →
    super.ipLength + checksumField super.protocol + 1 < (super.raw (k * super.segment)).length

/-- Then the loop emits one segment for each multiple of the segment size below the end of the payload. -/
theorem Loaded.cutFrom_spec (loaded : super.Loaded) (roomy : super.Roomy) (rounds index : ℕ)
    (enough : super.payload.length ≤ index * super.segment + rounds) :
    ∃ outs, super.cutFrom rounds (index * super.segment) index = some outs ∧
      (∀ k, k < outs.length ↔ (index + k) * super.segment < super.payload.length) ∧
      ∀ k out, outs[k]? = some out → super.Cut ((index + k) * super.segment) (index + k) out := by
  have some := loaded.segment
  have done (index : ℕ) (passed : super.payload.length ≤ index * super.segment) (k : ℕ) :
      k < ([] : List Bytes).length ↔ (index + k) * super.segment < super.payload.length := by
    rw [List.length_nil, Nat.add_mul]
    omega
  induction rounds generalizing index with
  | zero => exact ⟨[], rfl, done index (by omega), fun k out found => by cases found⟩
  | succ rounds ih =>
    rw [cutFrom]
    split_ifs with inside
    · have next : (index + 1) * super.segment = index * super.segment + super.segment := Nat.succ_mul _ _
      obtain ⟨out, cuts, cut⟩ := loaded.cut_spec inside (roomy index inside) index
      obtain ⟨outs, rest, count, each⟩ := ih (index + 1) (by omega)
      rw [next] at rest
      refine ⟨out :: outs, bind_eq cuts (bind_eq rest rfl), fun k => ?_, fun k other found => ?_⟩
      · cases k with
        | zero => simpa using inside
        | succ k =>
          rw [List.length_cons, Nat.add_lt_add_iff_right, count k, Nat.add_right_comm]
          rfl
      · cases k with
        | zero =>
          cases found
          exact cut
        | succ k =>
          have later := each k other found
          rw [Nat.add_right_comm] at later
          exact later
    · exact ⟨[], rfl, done index (by omega), fun k out found => by cases found⟩

theorem Loaded.segments_spec (loaded : super.Loaded) (roomy : super.Roomy) :
    ∃ outs, super.segments = some outs ∧
      (∀ k, k < outs.length ↔ k * super.segment < super.payload.length) ∧
      ∀ k out, outs[k]? = some out → super.Cut (k * super.segment) k out := by
  obtain ⟨outs, cuts, count, each⟩ := loaded.cutFrom_spec roomy super.payload.length 0 (Nat.le_add_left _ _)
  simp only [Nat.zero_mul, Nat.zero_add] at cuts count each
  exact ⟨outs, cuts, count, each⟩

theorem Loaded.cut_none (loaded : super.Loaded) (tcp : super.tcp = true) {offset : ℕ}
    (inside : offset < super.payload.length) (short : (super.raw offset).length < super.ipLength + 18) (index : ℕ) :
    super.cut offset index = none := by
  obtain ⟨four, header⟩ := loaded.raw_start offset
  obtain ⟨head, body⟩ := loaded.copied inside
  have held : super.ipLength ≤ (super.raw offset).length := by
    have transport := loaded.transport
    rw [loaded.raw_length]
    omega
  obtain ⟨labelled, relabel, relabelled⟩ := relabel_spec four header loaded.long held index
  refine bind_none fun copy copied => bind_none fun chunk taken => bind_none
    fun same again => bind_none fun numbered renumber => ?_
  rw [head, Option.some_inj] at copied
  rw [body, Option.some_inj] at taken
  rw [← copied, ← taken] at again
  have unchanged : same = labelled := Option.some_inj.mp (again.symm.trans relabel)
  have size : numbered.length = labelled.length := by
    rw [SuperPacket.renumber, if_pos tcp, unchanged] at renumber
    obtain ⟨marked, stored, flagged⟩ := Option.bind_eq_some_iff.mp renumber
    rw [write_length flagged, store32_length stored]
  apply finishTransportChecksum_none
  rw [size, relabelled.length, loaded.field.1, if_pos tcp]
  omega

theorem Loaded.cutFrom_none (loaded : super.Loaded) (tcp : super.tcp = true) {rounds offset : ℕ} (index k : ℕ)
    (enough : k < rounds) (inside : offset + k * super.segment < super.payload.length)
    (short : (super.raw (offset + k * super.segment)).length < super.ipLength + 18) :
    super.cutFrom rounds offset index = none := by
  have some := loaded.segment
  induction k generalizing rounds offset index with
  | zero =>
    obtain ⟨rounds, rfl⟩ := Nat.exists_eq_add_of_lt enough
    rw [Nat.zero_mul, Nat.add_zero] at inside short
    rw [Nat.zero_add, cutFrom, if_pos inside]
    apply bind_none
    intro out cuts
    rw [loaded.cut_none tcp inside short] at cuts
    cases cuts
  | succ k ih =>
    obtain ⟨rounds, rfl⟩ : ∃ more, rounds = more + 1 := ⟨rounds - 1, by omega⟩
    have step : offset + (k + 1) * super.segment = offset + super.segment + k * super.segment := by
      rw [Nat.succ_mul]
      omega
    rw [step] at inside short
    rw [cutFrom, if_pos (by omega)]
    apply bind_none
    intro out cuts
    apply bind_none
    intro rest cutRest
    rw [ih (index + 1) (by omega) inside short] at cutRest
    cases cutRest

/-- The length of the last segment's payload; no segment carries less. -/
def lastChunk (super : SuperPacket) : ℕ := (super.payload.length - 1) % super.segment + 1

theorem Loaded.lastChunk_le (loaded : super.Loaded) (k : ℕ) (inside : k * super.segment < super.payload.length) :
    super.lastChunk ≤ (super.chunk (k * super.segment)).length := by
  have some := loaded.segment
  have remainder := Nat.mod_lt (super.payload.length - 1) some
  rw [chunk_length, lastChunk]
  apply le_min
  · omega
  · have below : super.segment * k ≤ super.payload.length - 1 := by
      rw [Nat.mul_comm]
      omega
    have shorter := Nat.mod_le (super.payload.length - 1 - super.segment * k) super.segment
    rw [Nat.sub_mul_mod below, Nat.mul_comm] at shorter
    omega

theorem Loaded.last_offset (loaded : super.Loaded) (some : 0 < super.payload.length) :
    (super.payload.length - 1) / super.segment * super.segment < super.payload.length ∧
      (super.chunk ((super.payload.length - 1) / super.segment * super.segment)).length = super.lastChunk := by
  have positive := loaded.segment
  have division := Nat.div_add_mod' (super.payload.length - 1) super.segment
  have remainder := Nat.mod_lt (super.payload.length - 1) positive
  refine ⟨by omega, ?_⟩
  rw [chunk_length, lastChunk]
  omega

/-- The loop leaves its buffer exactly when the last segment of a TCP packet has no room for a checksum. -/
theorem Loaded.segments_none (loaded : super.Loaded) : super.segments = none ↔
    super.tcp = true ∧ 0 < super.payload.length ∧ super.headers + super.lastChunk < super.ipLength + 18 := by
  obtain ⟨field, -⟩ := loaded.field
  constructor
  · intro left
    by_contra held
    have roomy : super.Roomy := by
      intro k inside
      have least := loaded.lastChunk_le k inside
      have transport := loaded.transport
      rw [loaded.raw_length, field]
      cases kind : super.tcp with
      | true =>
        have room := not_and.mp (not_and.mp held kind) (by omega)
        rw [if_pos rfl]
        omega
      | false =>
        rw [if_neg (by decide)]
        have positive : 0 < super.lastChunk := Nat.succ_pos _
        omega
    obtain ⟨outs, cuts, -⟩ := loaded.segments_spec roomy
    rw [left] at cuts
    cases cuts
  · rintro ⟨tcp, some, short⟩
    obtain ⟨inside, size⟩ := loaded.last_offset some
    apply loaded.cutFrom_none tcp 0 ((super.payload.length - 1) / super.segment)
    · exact lt_of_le_of_lt (Nat.div_le_self _ _) (by omega)
    · rw [Nat.zero_add]
      exact inside
    · rw [Nat.zero_add, loaded.raw_length, size]
      exact short

end SuperPacket

/-- The length of the transport header that a packet declares. -/
def declaredTransport (packet : Bytes) (tcp : Bool) : ℕ :=
  if tcp then (packet.getD (ipHeaderLength packet + 12) 0 >>> 4).toNat * 4 else 8

theorem declaredTransport_eq {packet : Bytes} {tcp : Bool}
    (whole : ipHeaderLength packet + (if tcp then 20 else 8) ≤ packet.length) :
    transportHeaderLength packet (ipHeaderLength packet) tcp = some (declaredTransport packet tcp) := by
  unfold transportHeaderLength declaredTransport
  split_ifs with kind
  · rw [if_pos kind] at whole
    exact bind_eq (read_eq (by omega) 0) rfl
  · rfl

/-- The packets that pass every test of `expand_offloaded` and reach its loop. -/
structure Segmentable (header : VirtioHeader) (packet : Bytes) (tcp : Bool) : Prop where
  gso : if tcp then header.gsoType = kGsoTcpV4 ∨ header.gsoType = kGsoTcpV6 else header.gsoType = kGsoUdpL4
  size : header.gsoSize ≠ 0
  long : 20 ≤ ipHeaderLength packet
  whole : ipHeaderLength packet + (if tcp then 20 else 8) ≤ packet.length
  protocol : packet.getD (if isIpv4 packet then 9 else 6) 0 = if tcp then kProtocolTcp else kProtocolUdp
  enough : 8 ≤ declaredTransport packet tcp
  inside : ipHeaderLength packet + declaredTransport packet tcp ≤ packet.length

def superOf (header : VirtioHeader) (packet : Bytes) (tcp : Bool) : SuperPacket where
  packet := packet
  ipv4 := isIpv4 packet
  tcp := tcp
  protocol := if tcp then kProtocolTcp else kProtocolUdp
  ipLength := ipHeaderLength packet
  headers := ipHeaderLength packet + declaredTransport packet tcp
  segment := header.gsoSize.toNat
  sequence := if tcp then word32 packet (ipHeaderLength packet + 4) else 0
  flags := if tcp then packet.getD (ipHeaderLength packet + 13) 0 else 0
  identifier := if isIpv4 packet then word16 packet 4 else 0

namespace Segmentable

variable {header : VirtioHeader} {packet : Bytes} {tcp : Bool}

theorem ipProtocol_eq (segmentable : Segmentable header packet tcp) :
    ipProtocol packet = some (if tcp then kProtocolTcp else kProtocolUdp) := by
  have long := segmentable.long
  have whole := segmentable.whole
  rw [Offload.ipProtocol_eq (by omega), segmentable.protocol]

theorem loaded (segmentable : Segmentable header packet tcp) : (superOf header packet tcp).Loaded where
  ipv4 := rfl
  ipLength := rfl
  long := segmentable.long
  transport := Nat.add_le_add_left segmentable.enough _
  inside := segmentable.inside
  protocol := segmentable.ipProtocol_eq
  kind := rfl
  segment := Nat.pos_of_ne_zero fun zero => segmentable.size (UInt16.toNat_inj.mp zero)

theorem kinds (segmentable : Segmentable header packet tcp) : header.gsoType ≠ kGsoNone ∧
    (header.gsoType == kGsoTcpV4 || header.gsoType == kGsoTcpV6) = tcp ∧ (header.gsoType == kGsoUdpL4) = !tcp := by
  have gso := segmentable.gso
  cases tcp with
  | false =>
    rw [if_neg (by decide)] at gso
    rw [gso]
    decide
  | true =>
    rw [if_pos rfl] at gso
    rcases gso with four | six
    · rw [four]
      decide
    · rw [six]
      decide

theorem load_eq (segmentable : Segmentable header packet tcp) :
    loadSuper header packet (if tcp then kProtocolTcp else kProtocolUdp) tcp (declaredTransport packet tcp) =
      some (superOf header packet tcp) := by
  have whole := segmentable.whole
  have long := segmentable.long
  have sequence : (if tcp then load32 packet (ipHeaderLength packet + 4) else some 0) =
      some (if tcp then word32 packet (ipHeaderLength packet + 4) else 0) := by
    split_ifs with kind
    · rw [if_pos kind] at whole
      exact load32_eq (by omega)
    · rfl
  have flags : (if tcp then packet[ipHeaderLength packet + 13]? else some 0) =
      some (if tcp then packet.getD (ipHeaderLength packet + 13) 0 else 0) := by
    split_ifs with kind
    · rw [if_pos kind] at whole
      exact read_eq (by omega) 0
    · rfl
  have identifier : (if isIpv4 packet then load16 packet 4 else some 0) =
      some (if isIpv4 packet then word16 packet 4 else 0) := by
    split_ifs
    · exact load16_eq (by omega)
    · rfl
  unfold loadSuper
  refine bind_eq sequence ?_
  refine bind_eq flags ?_
  exact bind_eq identifier rfl

theorem expandSegmented_eq (segmentable : Segmentable header packet tcp) :
    expandSegmented header packet (if tcp then kProtocolTcp else kProtocolUdp) tcp =
      (superOf header packet tcp).segments.map (Prod.mk true) := by
  have enough := segmentable.enough
  have inside := segmentable.inside
  rw [expandSegmented, if_neg (not_lt.mpr segmentable.whole), declaredTransport_eq segmentable.whole,
    Option.bind_eq_bind, Option.bind_some, if_neg (by omega), segmentable.load_eq, Option.bind_eq_bind,
      Option.bind_some,
    Option.bind_eq_bind, Option.map_eq_bind]
  rfl

theorem expand (segmentable : Segmentable header packet tcp) :
    expandOffloaded header packet = (superOf header packet tcp).segments.map (Prod.mk true) := by
  have long := segmentable.long
  have whole := segmentable.whole
  obtain ⟨offloaded, isTcp, isUdp⟩ := segmentable.kinds
  rw [expandOffloaded, if_neg (by omega), if_neg (by omega), segmentable.ipProtocol_eq, Option.bind_eq_bind,
    Option.bind_some, if_neg offloaded, isTcp, isUdp, ← segmentable.expandSegmented_eq]
  cases tcp with
  | false => simp [segmentable.size]
  | true => simp [segmentable.size]

end Segmentable

theorem completeChecksum_isSome (header : VirtioHeader) (packet : Bytes) (protocol : UInt8) :
    completeChecksum header packet protocol ≠ none := by
  unfold completeChecksum
  split_ifs with needs
  · dsimp only
    split_ifs with outside
    · exact Option.some_ne_none _
    · have wrote (value : UInt16) := store16_eq
        (by omega : header.checksumStart.toNat + header.checksumOffset.toNat + 1 < packet.length) value
      rw [subspan_eq (by omega), Option.bind_eq_bind, Option.bind_some, wrote]
      exact Option.some_ne_none _
  · exact Option.some_ne_none _

theorem expandSegmented_none {header : VirtioHeader} {packet : Bytes} {protocol : UInt8} {tcp : Bool}
    (left : expandSegmented header packet protocol tcp = none) :
    ipHeaderLength packet + (if tcp then 20 else 8) ≤ packet.length ∧ 8 ≤ declaredTransport packet tcp ∧
      ipHeaderLength packet + declaredTransport packet tcp ≤ packet.length := by
  rw [expandSegmented] at left
  by_cases short : packet.length < ipHeaderLength packet + (if tcp then 20 else 8)
  · rw [if_pos short] at left
    cases left
  have whole := not_lt.mp short
  rw [if_neg short, declaredTransport_eq whole, Option.bind_eq_bind, Option.bind_some] at left
  by_cases bad : declaredTransport packet tcp < 8 ∨
      ipHeaderLength packet + declaredTransport packet tcp > packet.length
  · rw [if_pos bad] at left
    cases left
  exact ⟨whole, by omega, by omega⟩

theorem segmentable_of_none {header : VirtioHeader} {packet : Bytes}
    (left : expandOffloaded header packet = none) : ∃ tcp, Segmentable header packet tcp := by
  rw [expandOffloaded] at left
  by_cases short : packet.length < 20
  · rw [if_pos short] at left
    cases left
  by_cases bad : ipHeaderLength packet < 20 ∨ packet.length < ipHeaderLength packet
  · rw [if_neg short, if_pos bad] at left
    cases left
  have read := ipProtocol_eq (not_lt.mp short)
  rw [if_neg short, if_neg bad, read, Option.bind_eq_bind, Option.bind_some] at left
  by_cases plain : header.gsoType = kGsoNone
  · rw [if_pos plain] at left
    exact absurd left (completeChecksum_isSome _ _ _)
  rw [if_neg plain] at left
  generalize held : packet.getD (if isIpv4 packet then 9 else 6) 0 = protocol at left
  dsimp only at left
  split_ifs at left with unknown notTcp notUdp
  obtain ⟨known, size⟩ := not_or.mp unknown
  obtain ⟨whole, enough, inside⟩ := expandSegmented_none left
  refine ⟨header.gsoType == kGsoTcpV4 || header.gsoType == kGsoTcpV6, ?_, size, by omega, whole, ?_, enough, inside⟩
  · cases tcp : header.gsoType == kGsoTcpV4 || header.gsoType == kGsoTcpV6 with
    | true => simpa using tcp
    | false =>
      rw [tcp] at known
      simpa using known
  · rw [held]
    cases tcp : header.gsoType == kGsoTcpV4 || header.gsoType == kGsoTcpV6 with
    | true => exact not_not.mp fun other => notTcp ⟨tcp, other⟩
    | false =>
      rw [tcp] at known
      have udp : (header.gsoType == kGsoUdpL4) = true := by simpa using known
      exact not_not.mp fun other => notUdp ⟨udp, other⟩

/-- A TCP packet that declares fewer than five words of header and ends in a segment too short for the
fields of a TCP header. -/
structure Overruns (header : VirtioHeader) (packet : Bytes) : Prop extends Segmentable header packet true where
  payload : ipHeaderLength packet + declaredTransport packet true < packet.length
  short : declaredTransport packet true +
    ((packet.length - (ipHeaderLength packet + declaredTransport packet true) - 1) % header.gsoSize.toNat + 1) < 18

/-- Every read and write stays inside its buffer, except on these packets. -/
theorem expand_in_bounds_iff (header : VirtioHeader) (packet : Bytes) :
    (expandOffloaded header packet).isSome = true ↔ ¬ Overruns header packet := by
  rw [← not_iff_not, not_not, Option.not_isSome_iff_eq_none]
  constructor
  · intro left
    obtain ⟨tcp, segmentable⟩ := segmentable_of_none left
    rw [segmentable.expand, Option.map_eq_none_iff, segmentable.loaded.segments_none] at left
    obtain ⟨kind, some, short⟩ := left
    change tcp = true at kind
    subst kind
    simp only [superOf, SuperPacket.payload, SuperPacket.lastChunk, List.length_drop] at some short
    exact ⟨segmentable, by omega, by omega⟩
  · intro overruns
    rw [overruns.expand, Option.map_eq_none_iff, overruns.loaded.segments_none]
    have payload := overruns.payload
    have short := overruns.short
    simp only [superOf, SuperPacket.payload, SuperPacket.lastChunk, List.length_drop]
    exact ⟨trivial, by omega, by omega⟩

/-- A data offset of two words, and segments of one octet. -/
def shortHeaderPacket : Bytes :=
  [0x45, 0, 0, 40, 0, 0, 0, 0, 64, 6, 0, 0, 10, 0, 0, 1, 10, 0, 0, 2,
    0, 80, 0, 81, 0, 0, 0, 1, 0, 0, 0, 0, 0x20, 0x10, 0, 0, 0, 0, 0, 0]

theorem short_header_overruns :
    expandOffloaded { gsoType := kGsoTcpV4, gsoSize := 1 } shortHeaderPacket = none := by
  decide +kernel

/-- An IPv4 packet, with or without options, or an IPv6 packet, as long as it says it is. -/
structure WellFormed (packet : Bytes) : Prop where
  version : packet.getD 0 0 >>> 4 = 4 ∨ packet.getD 0 0 >>> 4 = 6
  long : 20 ≤ ipHeaderLength packet
  inside : ipHeaderLength packet ≤ packet.length
  declared : packet.length =
    if isIpv4 packet then (word16 packet 2).toNat else (word16 packet 4).toNat + 40

/-- The packet number `k` of those into which a larger one is cut, with `size` octets of payload in each
but the last. -/
structure SegmentOf (packet : Bytes) (tcp : Bool) (size k : ℕ) (segment : Bytes) : Prop where
  payload : segment.drop (ipHeaderLength packet + declaredTransport packet tcp) =
    ((packet.drop (ipHeaderLength packet + declaredTransport packet tcp)).drop (k * size)).take size
  ipv4 : isIpv4 packet = true → (word16 segment 2).toNat = segment.length ∧
    word16 segment 4 = word16 packet 4 + UInt16.ofNat k ∧
    foldChecksum (checksumAdd (segment.take (ipHeaderLength packet)) 0) = 0xFFFF
  ipv6 : isIpv4 packet = false → (word16 segment 4).toNat + 40 = segment.length
  sequence : tcp = true →
    word32 segment (ipHeaderLength packet + 4) = word32 packet (ipHeaderLength packet + 4) + UInt32.ofNat (k * size)
  flags : tcp = true →
    let old := packet.getD (ipHeaderLength packet + 13) 0
    let new := segment.getD (ipHeaderLength packet + 13) 0
    (new &&& (kTcpFin ||| kTcpPsh) = if packet.length ≤
        ipHeaderLength packet + declaredTransport packet tcp + (k + 1) * size
      then old &&& (kTcpFin ||| kTcpPsh) else 0) ∧
    (new &&& kTcpCwr = if k = 0 then old &&& kTcpCwr else 0) ∧
    new &&& ~~~(kTcpFin ||| kTcpPsh ||| kTcpCwr) = old &&& ~~~(kTcpFin ||| kTcpPsh ||| kTcpCwr)
  udp : tcp = false → ipHeaderLength packet + (word16 segment (ipHeaderLength packet + 4)).toNat = segment.length
  valid : transportChecksumValid segment = some true
  kept : ∀ place < ipHeaderLength packet + declaredTransport packet tcp,
    ¬ (if isIpv4 packet then 2 ≤ place ∧ place < 6 ∨ 10 ≤ place ∧ place < 12 else 4 ≤ place ∧ place < 6) →
    ¬ (ipHeaderLength packet + 4 ≤ place ∧ place < ipHeaderLength packet + 8) →
    ¬ (tcp = true ∧ (place = ipHeaderLength packet + 13 ∨
      ipHeaderLength packet + 16 ≤ place ∧ place < ipHeaderLength packet + 18)) →
    segment.getD place 0 = packet.getD place 0

namespace SuperPacket

theorem segmentFlags_spec (super : SuperPacket) (index : ℕ) (last : Bool) :
    (super.segmentFlags index last &&& (kTcpFin ||| kTcpPsh) =
      if last then super.flags &&& (kTcpFin ||| kTcpPsh) else 0) ∧
    (super.segmentFlags index last &&& kTcpCwr = if index = 0 then super.flags &&& kTcpCwr else 0) ∧
    super.segmentFlags index last &&& ~~~(kTcpFin ||| kTcpPsh ||| kTcpCwr) =
      super.flags &&& ~~~(kTcpFin ||| kTcpPsh ||| kTcpCwr) := by
  have masks : (kKeepUnlessLast &&& (kTcpFin ||| kTcpPsh) = 0) ∧ (kKeepUnlessFirst &&& kTcpCwr = 0) ∧
      (kKeepUnlessFirst &&& (kTcpFin ||| kTcpPsh) = kTcpFin ||| kTcpPsh) ∧ (kKeepUnlessLast &&& kTcpCwr = kTcpCwr) ∧
      (kKeepUnlessLast &&& ~~~(kTcpFin ||| kTcpPsh ||| kTcpCwr) = ~~~(kTcpFin ||| kTcpPsh ||| kTcpCwr)) ∧
      kKeepUnlessFirst &&& ~~~(kTcpFin ||| kTcpPsh ||| kTcpCwr) = ~~~(kTcpFin ||| kTcpPsh ||| kTcpCwr) := by
    decide
  obtain ⟨dropLast, dropFirst, keepFirst, keepLast, restLast, restFirst⟩ := masks
  unfold segmentFlags
  rcases Nat.eq_zero_or_pos index with rfl | later
  · cases last with
    | true => simp
    | false => simp [UInt8.and_assoc, dropLast, keepLast, restLast]
  · have positive : index ≠ 0 := by omega
    cases last with
    | true => simp [later, positive, UInt8.and_assoc, dropFirst, keepFirst, restFirst]
    | false => simp [later, positive, UInt8.and_assoc, dropFirst, keepFirst, restFirst, dropLast, restLast]

end SuperPacket

theorem Segmentable.segmentOf {header : VirtioHeader} {packet : Bytes} {tcp : Bool} {k : ℕ} {out : Bytes}
    (segmentable : Segmentable header packet tcp) (full : (if tcp then 20 else 8) ≤ declaredTransport packet tcp)
    (limit : packet.length ≤ 65535) (cut : (superOf header packet tcp).Cut (k * header.gsoSize.toNat) k out) :
    SegmentOf packet tcp header.gsoSize.toNat k out := by
  set super := superOf header packet tcp with supers
  have loaded : super.Loaded := segmentable.loaded
  have long := segmentable.long
  have inside := segmentable.inside
  have headers : super.headers = ipHeaderLength packet + declaredTransport packet tcp := rfl
  have ip : super.ipLength = ipHeaderLength packet := rfl
  have size := cut.length.trans (loaded.raw_length _)
  have carried := super.chunk_length (k * header.gsoSize.toNat)
  have payload : super.payload.length = packet.length - super.headers := List.length_drop
  have bounded : out.length < UInt16.size := by
    change out.length < 65536
    omega
  have written (place : ℕ) (rewritten : super.Rewritten place) : place < super.headers := by
    have enough := segmentable.enough
    rcases rewritten with low | transport | ⟨kind, fields⟩
    · split_ifs at low
      · omega
      · omega
    · omega
    · have kind : tcp = true := kind
      rw [if_pos kind] at full
      omega
  refine ⟨?_, ?_, ?_, ?_, ?_, ?_, cut.valid, ?_⟩
  · rw [← headers, List.drop_eq_of_getD 0 cut.length fun place after => cut.kept place fun rewritten => by
      have := written place rewritten
      omega]
    rw [SuperPacket.raw, List.drop_append_of_le_length (by rw [List.length_take_of_le loaded.inside])]
    rw [List.drop_eq_nil_of_le (by rw [List.length_take_of_le loaded.inside]), List.nil_append]
    rfl
  · intro four
    obtain ⟨total, identifier, ones⟩ := cut.ipv4 four
    have original : super.identifier = word16 packet 4 := if_pos four
    refine ⟨?_, ?_, ?_⟩
    · rw [total]
      exact UInt16.toNat_ofNat_of_lt' bounded
    · rw [identifier, original, UInt16.ofNat_add, UInt16.ofNat_toNat]
    · rw [foldChecksum_ones, checksumAdd_eq, Nat.zero_add]
      exact ones
  · intro six
    have whole : 40 ≤ out.length := by
      have := ipHeaderLength_ipv6 six
      omega
    have total : (UInt16.ofNat out.length).toNat = out.length := UInt16.toNat_ofNat_of_lt' bounded
    rw [cut.ipv6 six, UInt16.toNat_sub_of_le _ _ (UInt16.le_iff_toNat_le.mpr (by rw [total]; exact whole)), total]
    exact Nat.sub_add_cancel whole
  · intro kind
    have original : super.sequence = word32 packet (ipHeaderLength packet + 4) := if_pos kind
    rw [← original, ← ip, (cut.tcp kind).1, UInt32.ofNat_add, UInt32.ofNat_toNat]
  · intro kind
    have original : super.flags = packet.getD (ipHeaderLength packet + 13) 0 := if_pos kind
    obtain ⟨last, first, others⟩ := super.segmentFlags_spec k
      (decide (k * header.gsoSize.toNat + (super.chunk (k * header.gsoSize.toNat)).length ≥ super.payload.length))
    rw [← (cut.tcp kind).2, ip, original] at last first others
    refine ⟨last.trans (if_congr ?_ rfl rfl), first, others⟩
    have segment : super.segment = header.gsoSize.toNat := rfl
    rw [decide_eq_true_iff, Nat.succ_mul]
    omega
  · intro kind
    have transport : declaredTransport packet tcp = 8 := by
      rw [kind]
      rfl
    rw [← ip, cut.udp kind, UInt16.toNat_ofNat_of_lt' (by omega)]
    omega
  · intro place small notIp notHeader notTcp
    refine (cut.kept place fun rewritten => ?_).trans (loaded.raw_header _ small)
    rcases rewritten with low | transport | fields
    · exact notIp low
    · exact notHeader transport
    · exact notTcp fields

/-- A packet of which something can be cut off. -/
structure Cuttable (header : VirtioHeader) (packet : Bytes) (tcp : Bool) : Prop extends WellFormed packet where
  gso : if tcp then header.gsoType = kGsoTcpV4 ∨ header.gsoType = kGsoTcpV6 else header.gsoType = kGsoUdpL4
  size : 1 ≤ header.gsoSize
  limit : packet.length ≤ 65535
  protocol : ipProtocol packet = some (if tcp then kProtocolTcp else kProtocolUdp)
  full : (if tcp then 20 else 8) ≤ declaredTransport packet tcp
  payload : ipHeaderLength packet + declaredTransport packet tcp < packet.length

namespace Cuttable

variable {header : VirtioHeader} {packet : Bytes} {tcp : Bool}

theorem segmentable (cuttable : Cuttable header packet tcp) : Segmentable header packet tcp := by
  have long := cuttable.long
  have full := cuttable.full
  have payload := cuttable.payload
  have protocol := cuttable.protocol
  rw [ipProtocol_eq (by omega), Option.some_inj] at protocol
  refine ⟨cuttable.gso, ?_, long, by omega, protocol, ?_, payload.le⟩
  · intro zero
    have size := cuttable.size
    rw [zero] at size
    exact absurd size (by decide)
  · split_ifs at full
    · omega
    · exact full

theorem roomy (cuttable : Cuttable header packet tcp) : (superOf header packet tcp).Roomy := by
  intro k inside
  have loaded := cuttable.segmentable.loaded
  have full := cuttable.full
  have least := loaded.lastChunk_le k inside
  have some : 0 < (superOf header packet tcp).lastChunk := Nat.succ_pos _
  have headers : (superOf header packet tcp).headers = ipHeaderLength packet + declaredTransport packet tcp := rfl
  have ip : (superOf header packet tcp).ipLength = ipHeaderLength packet := rfl
  have kind : (superOf header packet tcp).tcp = tcp := rfl
  rw [loaded.raw_length, loaded.field.1, kind]
  split_ifs at full ⊢
  · omega
  · omega

end Cuttable

/-- Segmentation is exact: the segments carry the payload piece by piece, each under the headers of the
packet with its own lengths, numbers, flags and checksums. -/
theorem expand_exact {header : VirtioHeader} {packet : Bytes} {tcp : Bool} (cuttable : Cuttable header packet tcp) :
    ∃ segments, expandOffloaded header packet = some (true, segments) ∧
      (segments.map (·.drop (ipHeaderLength packet + declaredTransport packet tcp))).flatten =
        packet.drop (ipHeaderLength packet + declaredTransport packet tcp) ∧
      (∀ k, k < segments.length ↔
        k * header.gsoSize.toNat < packet.length - (ipHeaderLength packet + declaredTransport packet tcp)) ∧
      ∀ k segment, segments[k]? = some segment → SegmentOf packet tcp header.gsoSize.toNat k segment := by
  have segmentable := cuttable.segmentable
  obtain ⟨segments, cuts, count, each⟩ := segmentable.loaded.segments_spec cuttable.roomy
  have payload : (superOf header packet tcp).payload.length =
      packet.length - (ipHeaderLength packet + declaredTransport packet tcp) := List.length_drop
  rw [payload] at count
  have segmentOf (k : ℕ) (segment : Bytes) (found : segments[k]? = some segment) :
      SegmentOf packet tcp header.gsoSize.toNat k segment :=
    segmentable.segmentOf cuttable.full cuttable.limit (each k segment found)
  refine ⟨segments, ?_, ?_, count, segmentOf⟩
  · rw [segmentable.expand, cuts]
    rfl
  · apply List.flatten_of_chunks header.gsoSize.toNat
    · intro k
      rw [List.length_map, List.length_drop]
      exact count k
    · intro k part found
      rw [List.getElem?_map, Option.map_eq_some_iff] at found
      obtain ⟨segment, here, rfl⟩ := found
      exact (segmentOf k segment here).payload

/-- A TCP segment with options in front of seven octets, to be cut in threes. -/
def optionPacket : Bytes :=
  [0x46, 0, 0, 55, 0x12, 0x34, 0x40, 0, 64, 6, 0, 0, 10, 0, 0, 1, 10, 0, 0, 2, 1, 1, 1, 0,
    0, 80, 0, 81, 0xFF, 0xFF, 0xFF, 0xFE, 0, 0, 0, 9, 0x60, 0x99, 0, 0, 0, 0, 0, 0, 1, 1, 1, 0,
    1, 2, 3, 4, 5, 6, 7]

theorem expand_exact_options :
    ∃ segments, expandOffloaded { gsoType := kGsoTcpV4, gsoSize := 3 } optionPacket = some (true, segments) ∧
      segments.length = 3 := by
  have cuttable : Cuttable { gsoType := kGsoTcpV4, gsoSize := 3 } optionPacket true := by
    refine ⟨⟨by decide, by decide, by decide, by decide⟩, by decide, by decide, by decide, by decide, by decide,
      by decide⟩
  obtain ⟨segments, expanded, -, count, -⟩ := expand_exact cuttable
  refine ⟨segments, expanded, ?_⟩
  have third := (count 2).mpr (by decide)
  have fourth := (count 3).not.mpr (by decide)
  omega

end Norr.Offload
