import Norr.Offload.Checksum

/-! Segmentation of the packets that the kernel hands over whole: `expand_offloaded`. -/

namespace Norr.Offload

open Words

open OnesComplement (wordSum)
open Words (word16 word32 setWord16 setWord32)

def kVirtioNeedsChecksum : UInt8 := 1

def kGsoNone : UInt8 := 0

def kGsoTcpV4 : UInt8 := 1

def kGsoTcpV6 : UInt8 := 4

def kGsoUdpL4 : UInt8 := 5

def kTcpFin : UInt8 := 0x01

def kTcpPsh : UInt8 := 0x08

def kTcpAck : UInt8 := 0x10

def kTcpCwr : UInt8 := 0x80

def kKeepUnlessLast : UInt8 := 0xFF &&& ~~~(kTcpFin ||| kTcpPsh)

def kKeepUnlessFirst : UInt8 := 0xFF &&& ~~~kTcpCwr

structure VirtioHeader where
  flags : UInt8 := 0
  gsoType : UInt8 := 0
  headerLength : UInt16 := 0
  gsoSize : UInt16 := 0
  checksumStart : UInt16 := 0
  checksumOffset : UInt16 := 0
  deriving DecidableEq, Repr

/-- What the loop of `expand_offloaded` reads: the packet, and what was taken from its headers. -/
structure SuperPacket where
  packet : Bytes
  ipv4 : Bool
  tcp : Bool
  protocol : UInt8
  ipLength : ℕ
  headers : ℕ
  segment : ℕ
  sequence : UInt32
  flags : UInt8
  identifier : UInt16

namespace SuperPacket

def payload (super : SuperPacket) : Bytes := super.packet.drop super.headers

def relabel (super : SuperPacket) (index : ℕ) (out : Bytes) : Option Bytes := do
  let out ← if super.ipv4 then store16 out 4 (UInt16.ofNat (super.identifier.toNat + index)) else some out
  setIpLength out out.length

/-- FIN and PSH stay with the last segment, CWR with the first. -/
def segmentFlags (super : SuperPacket) (index : ℕ) (last : Bool) : UInt8 :=
  let flags := if last then super.flags else super.flags &&& kKeepUnlessLast
  if index > 0 then flags &&& kKeepUnlessFirst else flags

def renumber (super : SuperPacket) (offset index chunk : ℕ) (last : Bool) (out : Bytes) : Option Bytes :=
  if super.tcp then do
    let out ← store32 out (super.ipLength + 4) (UInt32.ofNat (super.sequence.toNat + offset))
    Checked.write out (super.ipLength + 13) (super.segmentFlags index last)
  else store16 out (super.ipLength + 4) (UInt16.ofNat (8 + chunk))

/-- One round of the loop. -/
def cut (super : SuperPacket) (offset index : ℕ) : Option Bytes := do
  let chunk := min super.segment (super.payload.length - offset)
  let last := decide (offset + chunk ≥ super.payload.length)
  let head ← subspan super.packet 0 super.headers
  let body ← subspan super.payload offset chunk
  let out ← super.relabel index (head ++ body)
  let out ← super.renumber offset index chunk last out
  finishTransportChecksum out super.ipLength super.protocol

/-- The loop over the payload; a segment is not empty, so that the payload bounds the rounds. -/
def cutFrom (super : SuperPacket) : ℕ → ℕ → ℕ → Option (List Bytes)
  | 0, _, _ => some []
  | rounds + 1, offset, index =>
    if offset < super.payload.length then do
      let out ← super.cut offset index
      let rest ← super.cutFrom rounds (offset + super.segment) (index + 1)
      some (out :: rest)
    else some []

def segments (super : SuperPacket) : Option (List Bytes) := super.cutFrom super.payload.length 0 0

end SuperPacket

/-- A packet that needs no segmentation, only its checksum at times. -/
def completeChecksum (header : VirtioHeader) (packet : Bytes) (protocol : UInt8) : Option (Bool × List Bytes) :=
  if header.flags &&& kVirtioNeedsChecksum ≠ 0 then
    let start := header.checksumStart.toNat
    let field := start + header.checksumOffset.toNat
    if field + 2 > packet.length ∨ start ≥ packet.length then some (false, [])
    else do
      let covered ← subspan packet start (packet.length - start)
      let value := ~~~foldChecksum (checksumAdd covered 0)
      let value := if protocol = kProtocolUdp ∧ value = 0 then 0xFFFF else value
      let packet ← store16 packet field value
      some (true, [packet])
  else some (true, [packet])

def transportHeaderLength (packet : Bytes) (ipLength : ℕ) (tcp : Bool) : Option ℕ :=
  if tcp then do
    let octet ← packet[ipLength + 12]?
    some ((octet >>> 4).toNat * 4)
  else some 8

/-- Everything the loop needs, once the packet has passed the tests before it. -/
def loadSuper (header : VirtioHeader) (packet : Bytes) (protocol : UInt8) (tcp : Bool) (transportLength : ℕ) :
    Option SuperPacket := do
  let ipLength := ipHeaderLength packet
  let sequence ← (if tcp then load32 packet (ipLength + 4) else some 0)
  let flags ← (if tcp then packet[ipLength + 13]? else some 0)
  let identifier ← (if isIpv4 packet then load16 packet 4 else some 0)
  some { packet, ipv4 := isIpv4 packet, tcp, protocol, ipLength, headers := ipLength + transportLength,
         segment := header.gsoSize.toNat, sequence, flags, identifier }

/-- The rest of `expand_offloaded`, once the offload type is known to fit the protocol. -/
def expandSegmented (header : VirtioHeader) (packet : Bytes) (protocol : UInt8) (tcp : Bool) :
    Option (Bool × List Bytes) :=
  let ipLength := ipHeaderLength packet
  if packet.length < ipLength + (if tcp then 20 else 8) then some (false, [])
  else do
    let transportLength ← transportHeaderLength packet ipLength tcp
    if transportLength < 8 ∨ ipLength + transportLength > packet.length then some (false, [])
    else do
      let super ← loadSuper header packet protocol tcp transportLength
      let segments ← super.segments
      some (true, segments)

/-- The flag of the source is the first component, what goes to the sink the second. -/
def expandOffloaded (header : VirtioHeader) (packet : Bytes) : Option (Bool × List Bytes) :=
  let ipLength := ipHeaderLength packet
  if packet.length < 20 then some (false, [])
  else if ipLength < 20 ∨ packet.length < ipLength then some (false, [])
  else do
    let protocol ← ipProtocol packet
    if header.gsoType = kGsoNone then completeChecksum header packet protocol
    else
      let tcp := header.gsoType == kGsoTcpV4 || header.gsoType == kGsoTcpV6
      let udp := header.gsoType == kGsoUdpL4
      if (!tcp && !udp) ∨ header.gsoSize = 0 then some (false, [])
      else if tcp ∧ protocol ≠ kProtocolTcp then some (false, [])
      else if udp ∧ protocol ≠ kProtocolUdp then some (false, [])
      else expandSegmented header packet protocol tcp

namespace SuperPacket

variable {super : SuperPacket}

/-- The packets that reach the loop. -/
structure Loaded (super : SuperPacket) : Prop where
  ipv4 : isIpv4 super.packet = super.ipv4
  ipLength : ipHeaderLength super.packet = super.ipLength
  long : 20 ≤ super.ipLength
  transport : super.ipLength + 8 ≤ super.headers
  inside : super.headers ≤ super.packet.length
  protocol : ipProtocol super.packet = some super.protocol
  kind : super.protocol = if super.tcp then kProtocolTcp else kProtocolUdp
  segment : 0 < super.segment

/-- The IP header of a segment, seen from the octets it was copied from. -/
structure Relabelled (super : SuperPacket) (index : ℕ) (raw after : Bytes) : Prop where
  length : after.length = raw.length
  later : ∀ place, 12 ≤ place → after.getD place 0 = raw.getD place 0
  version : ∀ place, place < 2 ∨ 6 ≤ place ∧ place < 10 → after.getD place 0 = raw.getD place 0
  ipv4 : super.ipv4 = true → word16 after 2 = UInt16.ofNat raw.length ∧
    word16 after 4 = UInt16.ofNat (super.identifier.toNat + index) ∧
    OnesComplement.fold (wordSum (after.take super.ipLength)) = 65535
  ipv6 : super.ipv4 = false → word16 after 4 = UInt16.ofNat raw.length - 40 ∧
    ∀ place, place < 4 ∨ 6 ≤ place → after.getD place 0 = raw.getD place 0

theorem relabel_spec {raw : Bytes} (four : isIpv4 raw = super.ipv4) (header : ipHeaderLength raw = super.ipLength)
    (long : 20 ≤ super.ipLength) (inside : super.ipLength ≤ raw.length) (index : ℕ) :
    ∃ after, super.relabel index raw = some after ∧ super.Relabelled index raw after := by
  unfold relabel
  cases version : super.ipv4 with
  | false =>
    rw [version] at four
    obtain ⟨after, sized, relengthed⟩ := setIpLength_spec (header ▸ inside) (header ▸ long) raw.length
    obtain ⟨length, same⟩ := relengthed.ipv6 four
    refine ⟨after, sized, relengthed.length, fun place high => same place (by omega), ?_, ?_, ?_⟩
    · exact fun place apart => same place (by omega)
    · intro absurdity
      rw [version] at absurdity
      cases absurdity
    · exact fun _ => ⟨length, same⟩
  | true =>
    rw [version] at four
    set marked := setWord16 raw 4 (UInt16.ofNat (super.identifier.toNat + index)) with marks
    have size : marked.length = raw.length := by
      rw [marks, length_setWord16]
    have start : ∀ place < 4, marked.getD place 0 = raw.getD place 0 := by
      intro place small
      rw [marks, getD_setWord16_apart _ _ _ (by omega)]
    have again : ipHeaderLength marked = super.ipLength :=
      (ipHeaderLength_congr size start (by omega)).trans header
    have still : isIpv4 marked = true := (isIpv4_congr size start (by omega)).trans four
    have fits : ipHeaderLength marked ≤ marked.length := by omega
    obtain ⟨after, sized, relengthed⟩ := setIpLength_spec fits (by omega) marked.length
    obtain ⟨length, ones, same⟩ := relengthed.ipv4 still
    rw [again] at ones
    rw [size] at length
    refine ⟨after, ?_, relengthed.length.trans size, ?_, ?_, fun _ => ⟨length, ?_, ones⟩, ?_⟩
    · exact Checked.bind_eq (store16_eq (by omega) _) sized
    · intro place high
      rw [same place (by omega), marks, getD_setWord16_apart _ _ _ (by omega)]
    · intro place apart
      rw [same place (by omega), marks, getD_setWord16_apart _ _ _ (by omega)]
    · have written := word16_setWord16 raw (UInt16.ofNat (super.identifier.toNat + index))
        (by omega : 4 + 1 < raw.length)
      rw [← written]
      exact word16_congr 4 (same 4 (by omega)) (same 5 (by omega))
    · intro absurdity
      rw [version] at absurdity
      cases absurdity

/-- The transport header of a segment before its checksum. -/
structure Renumbered (super : SuperPacket) (offset index chunk : ℕ) (last : Bool) (before after : Bytes) : Prop where
  length : after.length = before.length
  earlier : ∀ place, place < super.ipLength + 4 → after.getD place 0 = before.getD place 0
  tcp : super.tcp = true → word32 after (super.ipLength + 4) = UInt32.ofNat (super.sequence.toNat + offset) ∧
    after.getD (super.ipLength + 13) 0 = super.segmentFlags index last ∧
    ∀ place, super.ipLength + 8 ≤ place → place ≠ super.ipLength + 13 → after.getD place 0 = before.getD place 0
  udp : super.tcp = false → word16 after (super.ipLength + 4) = UInt16.ofNat (8 + chunk) ∧
    ∀ place, super.ipLength + 6 ≤ place → after.getD place 0 = before.getD place 0

theorem renumber_spec {before : Bytes} (room : super.ipLength + (if super.tcp then 13 else 5) < before.length)
    (offset index chunk : ℕ) (last : Bool) : ∃ after, super.renumber offset index chunk last before = some after ∧
      super.Renumbered offset index chunk last before after := by
  unfold renumber
  cases kind : super.tcp with
  | true =>
    rw [kind, if_pos rfl] at room
    set marked := setWord32 before (super.ipLength + 4) (UInt32.ofNat (super.sequence.toNat + offset)) with marks
    have size : marked.length = before.length := by
      rw [marks, length_setWord32]
    have flag (place : ℕ) : (marked.set (super.ipLength + 13) (super.segmentFlags index last)).getD place 0 =
        if super.ipLength + 13 = place then super.segmentFlags index last else marked.getD place 0 :=
      List.getD_set_slot _ _ _ _ _ (by omega)
    refine ⟨marked.set (super.ipLength + 13) (super.segmentFlags index last), ?_, ?_, ?_,
      fun _ => ⟨?_, ?_, ?_⟩, ?_⟩
    · exact Checked.bind_eq (store32_eq (by omega) _) (Checked.write_eq (by rw [← marks, size]; exact room) _)
    · rw [List.length_set, size]
    · intro place low
      rw [flag, if_neg (by omega), marks, getD_setWord32_apart _ _ _ (by omega)]
    · have written := word32_setWord32 before (UInt32.ofNat (super.sequence.toNat + offset))
        (by omega : super.ipLength + 4 + 3 < before.length)
      rw [← marks] at written
      rw [← written]
      apply word32_congr
      intro place low high
      rw [flag, if_neg (by omega)]
    · rw [flag, if_pos rfl]
    · intro place high differs
      rw [flag, if_neg (Ne.symm differs), marks, getD_setWord32_apart _ _ _ (by omega)]
    · intro absurdity
      rw [kind] at absurdity
      cases absurdity
  | false =>
    rw [kind, if_neg (by decide)] at room
    refine ⟨setWord16 before (super.ipLength + 4) (UInt16.ofNat (8 + chunk)), store16_eq (by omega) _,
      length_setWord16 _ _ _, ?_, ?_, fun _ => ⟨?_, ?_⟩⟩
    · exact fun place low => getD_setWord16_apart _ _ _ (by omega)
    · intro absurdity
      rw [kind] at absurdity
      cases absurdity
    · exact word16_setWord16 _ _ (by omega)
    · exact fun place high => getD_setWord16_apart _ _ _ (by omega)

/-- The part of the payload that the segment at an offset carries. -/
def chunk (super : SuperPacket) (offset : ℕ) : Bytes := (super.payload.drop offset).take super.segment

/-- A segment as it is copied, before any field of it is written. -/
def raw (super : SuperPacket) (offset : ℕ) : Bytes := super.packet.take super.headers ++ super.chunk offset

theorem chunk_length (super : SuperPacket) (offset : ℕ) :
    (super.chunk offset).length = min super.segment (super.payload.length - offset) := by
  rw [chunk, List.length_take, List.length_drop]

namespace Loaded

theorem raw_length (loaded : super.Loaded) (offset : ℕ) :
    (super.raw offset).length = super.headers + (super.chunk offset).length := by
  rw [raw, List.length_append, List.length_take_of_le loaded.inside]

theorem raw_header (loaded : super.Loaded) (offset : ℕ) {place : ℕ} (inside : place < super.headers) :
    (super.raw offset).getD place 0 = super.packet.getD place 0 := by
  have held := loaded.inside
  rw [raw, List.getD_append _ _ _ _ (by rw [List.length_take_of_le held]; exact inside),
    List.getD_eq_getElem?_getD, List.getElem?_take_of_lt inside, ← List.getD_eq_getElem?_getD]

theorem raw_start (loaded : super.Loaded) (offset : ℕ) :
    isIpv4 (super.raw offset) = super.ipv4 ∧ ipHeaderLength (super.raw offset) = super.ipLength := by
  have some : 0 < super.headers := by
    have := loaded.transport
    omega
  have first := loaded.raw_header offset some
  have present : (super.raw offset).isEmpty = super.packet.isEmpty := by
    rw [Bool.eq_iff_iff, List.isEmpty_iff_length_eq_zero, List.isEmpty_iff_length_eq_zero, loaded.raw_length]
    have := loaded.inside
    omega
  have version : isIpv4 (super.raw offset) = isIpv4 super.packet := by
    rw [isIpv4, isIpv4, present, first]
  refine ⟨version.trans loaded.ipv4, ?_⟩
  rw [← loaded.ipLength, ipHeaderLength, ipHeaderLength, version, first]

theorem copied (loaded : super.Loaded) {offset : ℕ} (inside : offset < super.payload.length) :
    subspan super.packet 0 super.headers = some (super.packet.take super.headers) ∧
      subspan super.payload offset (min super.segment (super.payload.length - offset)) =
        some (super.chunk offset) := by
  constructor
  · rw [subspan_eq (by rw [Nat.zero_add]; exact loaded.inside), ByteOrder.slice, List.drop_zero]
  · rw [subspan_eq (by omega), ByteOrder.slice, chunk, ← List.length_drop, ← List.take_eq_take_min]

end Loaded

/-- The octets of a segment that are not copied. -/
def Rewritten (super : SuperPacket) (place : ℕ) : Prop :=
  (if super.ipv4 then 2 ≤ place ∧ place < 6 ∨ 10 ≤ place ∧ place < 12 else 4 ≤ place ∧ place < 6) ∨
    super.ipLength + 4 ≤ place ∧ place < super.ipLength + 8 ∨
    super.tcp = true ∧ (place = super.ipLength + 13 ∨ super.ipLength + 16 ≤ place ∧ place < super.ipLength + 18)

/-- A segment, seen from the octets it was copied from. -/
structure Cut (super : SuperPacket) (offset index : ℕ) (out : Bytes) : Prop where
  length : out.length = (super.raw offset).length
  kept : ∀ place, ¬ super.Rewritten place → out.getD place 0 = (super.raw offset).getD place 0
  ipv4 : super.ipv4 = true → word16 out 2 = UInt16.ofNat out.length ∧
    word16 out 4 = UInt16.ofNat (super.identifier.toNat + index) ∧
    OnesComplement.fold (wordSum (out.take super.ipLength)) = 65535
  ipv6 : super.ipv4 = false → word16 out 4 = UInt16.ofNat out.length - 40
  tcp : super.tcp = true → word32 out (super.ipLength + 4) = UInt32.ofNat (super.sequence.toNat + offset) ∧
    out.getD (super.ipLength + 13) 0 =
      super.segmentFlags index (decide (offset + (super.chunk offset).length ≥ super.payload.length))
  udp : super.tcp = false → word16 out (super.ipLength + 4) = UInt16.ofNat (8 + (super.chunk offset).length)
  valid : transportChecksumValid out = some true

theorem Loaded.field (loaded : super.Loaded) :
    checksumField super.protocol = (if super.tcp then 16 else 6) ∧ super.protocol ≠ 0 := by
  rw [loaded.kind]
  cases super.tcp with
  | false => decide
  | true => decide

/-- The three passes over a segment write apart from each other. -/
theorem Loaded.assembled (loaded : super.Loaded) {offset index : ℕ} {labelled numbered out : Bytes}
    (relabelled : super.Relabelled index (super.raw offset) labelled)
    (renumbered : super.Renumbered offset index (super.chunk offset).length
      (decide (offset + (super.chunk offset).length ≥ super.payload.length)) labelled numbered)
    (closed : Closed numbered super.ipLength (checksumField super.protocol) super.protocol out) :
    super.Cut offset index out := by
  obtain ⟨four, header⟩ := loaded.raw_start offset
  have field := loaded.field.1
  have long := loaded.long
  have held : super.ipLength + 8 ≤ (super.raw offset).length := by
    have := loaded.transport
    rw [loaded.raw_length]
    omega
  have space : 6 ≤ checksumField super.protocol := by
    rw [field]
    split_ifs <;> norm_num
  have length : out.length = (super.raw offset).length :=
    closed.length.trans (renumbered.length.trans relabelled.length)
  have low (place : ℕ) (small : place < super.ipLength + 4) : out.getD place 0 = labelled.getD place 0 := by
    rw [closed.apart place (by omega), renumbered.earlier place small]
  have version (place : ℕ) (apart : place < 2 ∨ 6 ≤ place ∧ place < 10) :
      out.getD place 0 = (super.raw offset).getD place 0 :=
    (low place (by omega)).trans (relabelled.version place apart)
  have start : ∀ place < 1, out.getD place 0 = (super.raw offset).getD place 0 :=
    fun place small => version place (by omega)
  have still : isIpv4 out = super.ipv4 := (isIpv4_congr length start one_pos).trans four
  have again : ipHeaderLength out = super.ipLength := (ipHeaderLength_congr length start one_pos).trans header
  refine ⟨length, ?_, ?_, ?_, ?_, ?_, ?_⟩
  · intro place kept
    rw [Rewritten, not_or, not_or] at kept
    obtain ⟨notIp, notHeader, notTcp⟩ := kept
    by_cases small : place < super.ipLength + 4
    · rw [low place small]
      cases version : super.ipv4 with
      | true =>
        rw [if_pos version] at notIp
        by_cases high : 12 ≤ place
        · exact relabelled.later place high
        · exact relabelled.version place (by omega)
      | false =>
        rw [if_neg (by rw [version]; decide)] at notIp
        exact (relabelled.ipv6 version).2 place (by omega)
    · rw [← relabelled.later place (by omega)]
      cases kind : super.tcp with
      | true =>
        rw [kind, if_pos rfl] at field
        have apart := not_or.mp fun tcp => notTcp ⟨kind, tcp⟩
        rw [closed.apart place (by omega)]
        exact (renumbered.tcp kind).2.2 place (by omega) apart.1
      | false =>
        rw [kind, if_neg (by decide)] at field
        rw [closed.apart place (by omega)]
        exact (renumbered.udp kind).2 place (by omega)
  · intro ipv4
    obtain ⟨size, identifier, ones⟩ := relabelled.ipv4 ipv4
    rw [length, ← size, ← identifier, ← ones]
    refine ⟨word16_congr 2 (low 2 (by omega)) (low 3 (by omega)),
      word16_congr 4 (low 4 (by omega)) (low 5 (by omega)), ?_⟩
    rw [List.take_eq_of_getD 0 (length.trans relabelled.length.symm) fun place small => low place (by omega)]
  · intro ipv6
    rw [length, ← (relabelled.ipv6 ipv6).1]
    exact word16_congr 4 (low 4 (by omega)) (low 5 (by omega))
  · intro tcp
    obtain ⟨sequence, flags, -⟩ := renumbered.tcp tcp
    rw [tcp, if_pos rfl] at field
    rw [← sequence, ← flags]
    refine ⟨word32_congr _ fun place from_ below => closed.apart place (by omega), closed.apart _ (by omega)⟩
  · intro udp
    rw [← (renumbered.udp udp).1]
    exact word16_congr _ (closed.apart _ (by omega)) (closed.apart _ (by omega))
  · obtain ⟨pseudo, computed, ones⟩ := closed.sum
    have protocol : ipProtocol out = some super.protocol := by
      have transport := loaded.transport
      have inside := loaded.inside
      rw [ipProtocol_eq (by omega), still, version _ (by split_ifs <;> omega),
        loaded.raw_header _ (by split_ifs <;> omega), ← loaded.ipv4, ← ipProtocol_eq (by omega), loaded.protocol]
    rw [← again] at computed ones
    exact transportChecksumValid_of (by omega) protocol computed ones

theorem Loaded.cut_spec (loaded : super.Loaded) {offset : ℕ} (inside : offset < super.payload.length)
    (room : super.ipLength + checksumField super.protocol + 1 < (super.raw offset).length) (index : ℕ) :
    ∃ out, super.cut offset index = some out ∧ super.Cut offset index out := by
  obtain ⟨four, header⟩ := loaded.raw_start offset
  obtain ⟨head, body⟩ := loaded.copied inside
  obtain ⟨field, some⟩ := loaded.field
  have long := loaded.long
  obtain ⟨labelled, relabel, relabelled⟩ := relabel_spec four header long (by omega) index
  set last := decide (offset + (super.chunk offset).length ≥ super.payload.length) with lasts
  have space : super.ipLength + (if super.tcp then 13 else 5) < labelled.length := by
    rw [relabelled.length]
    rw [field] at room
    split_ifs at room ⊢
    · omega
    · omega
  obtain ⟨numbered, renumber, renumbered⟩ := renumber_spec space offset index (super.chunk offset).length last
  have size : numbered.length = (super.raw offset).length := renumbered.length.trans relabelled.length
  have first : ∀ place < 1, numbered.getD place 0 = (super.raw offset).getD place 0 := by
    intro place small
    rw [renumbered.earlier place (by omega), relabelled.version place (by omega)]
  have again : ipHeaderLength numbered = super.ipLength := (ipHeaderLength_congr size first one_pos).trans header
  have fits : ipHeaderLength numbered + checksumField super.protocol + 1 < numbered.length := by omega
  obtain ⟨out, finished, closed⟩ := finishTransportChecksum_spec fits (by omega) some
  rw [again] at finished closed
  refine ⟨out, ?_, ?_⟩
  · have cutting := super.chunk_length offset
    rw [lasts, cutting] at renumber
    exact Checked.bind_eq head (Checked.bind_eq body (Checked.bind_eq relabel (Checked.bind_eq renumber finished)))
  · exact loaded.assembled relabelled renumbered closed

end SuperPacket

end Norr.Offload
