import Norr.Offload.Merging

/-! The frames that the coalescer writes, and the packets that come out when they are segmented again. -/

namespace Norr.Offload

open Words (word16 word32 setWord16)

variable {item : Item Bytes} {first : Bytes} {rest : List Bytes}

theorem isIpv4_of_octet {packet other : Bytes} (some : 0 < packet.length) (some' : 0 < other.length)
    (same : packet.getD 0 0 = other.getD 0 0) : isIpv4 packet = isIpv4 other := by
  rw [Bool.eq_iff_iff, isIpv4_iff some, isIpv4_iff some', same]

theorem ipHeaderLength_of_octet {packet other : Bytes} (some : 0 < packet.length) (some' : 0 < other.length)
    (same : packet.getD 0 0 = other.getD 0 0) : ipHeaderLength packet = ipHeaderLength other := by
  rw [ipHeaderLength, ipHeaderLength, isIpv4_of_octet some some' same, same]

theorem Segment.sizes {packet : Bytes} (segment : Segment packet) :
    headersLength packet = ipHeaderLength packet + tcpHeaderLength packet ∧ 20 ≤ ipHeaderLength packet ∧
      20 ≤ tcpHeaderLength packet ∧ headersLength packet < packet.length ∧
      (isIpv4 packet = false → ipHeaderLength packet = 40) := by
  refine ⟨rfl, ?_, segment.long, segment.carries, fun six => (segment.ipv6 six).2.1⟩
  cases version : isIpv4 packet with
  | true => exact (segment.ipv4 version).2.1.ge
  | false => exact (segment.ipv6 version).2.1 ▸ by decide

theorem Segment.length_eq {packet : Bytes} (segment : Segment packet) :
    packet.length = headersLength packet + (body packet).length := by
  have carries := segment.carries
  rw [body, List.length_drop]
  omega

theorem Merged.payload_length (merged : Merged item first rest) :
    item.payloads.flatten.length = (body first).length + (rest.map body).flatten.length := by
  rw [merged.payloads, List.map_cons, List.flatten_cons, List.length_append]

/-- The octets of the headers that stay as they were in the first segment. -/
def Untouched (ipv4 : Bool) (ip place : ℕ) : Prop :=
  ¬ (if ipv4 then 2 ≤ place ∧ place < 4 ∨ 10 ≤ place ∧ place < 12 else 4 ≤ place ∧ place < 6) ∧
    place ≠ ip + 13 ∧ ¬ (ip + 16 ≤ place ∧ place < ip + 18)

/-- The frame of a merged item, seen from the segments in it. -/
structure Written (item : Item Bytes) (first : Bytes) (rest : List Bytes) (frame : Frame) : Prop where
  header : parseVirtioHeader frame.virtio = item.virtio
  length : frame.bytes.length = item.total
  payload : frame.bytes.drop (headersLength first) = item.payloads.flatten
  kept : ∀ place < headersLength first, Untouched (isIpv4 first) (ipHeaderLength first) place →
    frame.bytes.getD place 0 = first.getD place 0
  flags : ∀ last ∈ (first :: rest).getLast?,
    frame.bytes.getD (ipHeaderLength first + 13) 0 = kTcpAck ||| (tcpFlags last &&& kTcpPsh)
  declared : item.total =
    if isIpv4 first then (word16 frame.bytes 2).toNat else (word16 frame.bytes 4).toNat + 40

theorem pseudoHeaderSum_some {packet : Bytes} (long : 20 ≤ packet.length)
    (longer : isIpv4 packet = false → 40 ≤ packet.length) (protocol : UInt8) (length : ℕ) :
    ∃ sum, pseudoHeaderSum packet protocol length = some sum := by
  rw [pseudoHeaderSum]
  split_ifs with four
  · rw [subspan_eq (by omega)]
    exact ⟨_, rfl⟩
  · rw [subspan_eq (by have := longer (by simpa using four); omega)]
    exact ⟨_, rfl⟩

theorem Merged.written (merged : Merged item first rest) (several : rest ≠ []) :
    ∃ frame, item.frame = some frame ∧ Written item first rest frame := by
  have opened := merged.data first List.mem_cons_self
  obtain ⟨headers, ipLong, long, carries, ipSix⟩ := opened.sizes
  have limit := merged.limit several
  have headLength := merged.headLength
  have count : 2 ≤ item.payloads.length := by
    have some := List.length_pos_iff.mpr several
    rw [merged.payloads, List.length_map, List.length_cons]
    omega
  have octet : item.head.getD 0 0 = first.getD 0 0 := merged.head 0 (by omega) (by omega)
  have family : isIpv4 item.head = isIpv4 first := isIpv4_of_octet (by omega) (by omega) octet
  have ip : ipHeaderLength item.head = ipHeaderLength first := ipHeaderLength_of_octet (by omega) (by omega) octet
  obtain ⟨sized, sizes, relengthed⟩ := setIpLength_spec (by omega : ipHeaderLength item.head ≤ item.head.length)
    (by omega) item.total
  have sizedLength := relengthed.length
  obtain ⟨sum, sums⟩ := pseudoHeaderSum_some (by omega : 20 ≤ sized.length)
    (by
      intro six
      have same : sized.getD 0 0 = item.head.getD 0 0 := by
        cases version : isIpv4 item.head with
        | true => exact (relengthed.ipv4 version).2.2 0 (by omega)
        | false => exact (relengthed.ipv6 version).2 0 (by omega)
      rw [isIpv4_of_octet (by omega) (by omega) same, family] at six
      have := ipSix six
      omega) kProtocolTcp (item.total - item.ipLength)
  have place : item.ipLength + 16 + 1 < sized.length := by
    rw [merged.ipLength]
    omega
  set final := setWord16 sized (item.ipLength + 16) (foldChecksum sum) with finals
  have finalLength : final.length = headersLength first := by
    rw [finals, Words.length_setWord16]
    omega
  refine ⟨⟨writeVirtioHeader item.virtio (List.replicate kVirtioHeaderSize 0), final, item.payloads⟩, ?_, ?_⟩
  · rw [Item.frame, if_neg (by rw [merged.tcp]; simp; omega)]
    exact Checked.bind_eq sizes (Checked.bind_eq sums (Checked.bind_eq (store16_eq place _) rfl))
  · have inner (place : ℕ) (inside : place < headersLength first) :
        (final ++ item.payloads.flatten).getD place 0 = final.getD place 0 := List.getD_append _ _ _ _ (by omega)
    have apart (place : ℕ) (away : place < ipHeaderLength first + 16 ∨ ipHeaderLength first + 17 < place) :
        final.getD place 0 = sized.getD place 0 := by
      rw [finals]
      apply Words.getD_setWord16_apart
      rw [merged.ipLength]
      omega
    have resized (place : ℕ)
        (away : ¬ (if isIpv4 first then 2 ≤ place ∧ place < 4 ∨ 10 ≤ place ∧ place < 12
          else 4 ≤ place ∧ place < 6)) :
        sized.getD place 0 = item.head.getD place 0 := by
      cases version : isIpv4 first with
      | true =>
        rw [if_pos version] at away
        exact (relengthed.ipv4 (family.trans version)).2.2 place (by omega)
      | false =>
        rw [if_neg (by rw [version]; decide)] at away
        exact (relengthed.ipv6 (family.trans version)).2 place (by omega)
    refine ⟨parse_write_virtio _ (List.length_replicate).ge, ?_, ?_, ?_, ?_, ?_⟩
    · change (final ++ item.payloads.flatten).length = item.total
      rw [List.length_append, finalLength, merged.total]
    · change (final ++ item.payloads.flatten).drop (headersLength first) = _
      rw [← finalLength, List.drop_left]
    · intro place inside untouched
      obtain ⟨lengths, flags, checksum⟩ := untouched
      calc
        _ = final.getD place 0 := inner place inside
        _ = sized.getD place 0 := apart place (by omega)
        _ = item.head.getD place 0 := resized place lengths
        _ = first.getD place 0 := merged.head place inside flags
    · intro last ends
      calc
        _ = final.getD (ipHeaderLength first + 13) 0 := inner _ (by omega)
        _ = sized.getD (ipHeaderLength first + 13) 0 := apart _ (by omega)
        _ = item.head.getD (ipHeaderLength first + 13) 0 := resized _ (by split_ifs <;> omega)
        _ = _ := by rw [merged.flags last ends, merged.plain several]
    · have field (offset : ℕ) (low : offset < 5) :
          word16 (final ++ item.payloads.flatten) offset = word16 sized offset := by
        apply Words.word16_congr
        · rw [inner _ (by omega), apart _ (by omega)]
        · rw [inner _ (by omega), apart _ (by omega)]
      have small : item.total < UInt16.size := Nat.lt_succ_of_le limit
      split_ifs with four
      · change _ = (word16 (final ++ item.payloads.flatten) 2).toNat
        rw [field 2 (by omega), (relengthed.ipv4 (family.trans four)).1, UInt16.toNat_ofNat_of_lt' small]
      · change _ = (word16 (final ++ item.payloads.flatten) 4).toNat + 40
        have six : isIpv4 first = false := by simpa using four
        have total := merged.total
        have forty := ipSix six
        rw [field 4 (by omega), (relengthed.ipv6 (family.trans six)).1, UInt16.toNat_sub_of_le]
        · rw [UInt16.toNat_ofNat_of_lt' small]
          change item.total = item.total - 40 + 40
          omega
        · rw [UInt16.le_iff_toNat_le, UInt16.toNat_ofNat_of_lt' small]
          change 40 ≤ item.total
          omega

namespace Written

variable {frame : Frame}

/-- What the frame has in common with the first segment. -/
theorem shape (written : Written item first rest frame) (merged : Merged item first rest) :
    isIpv4 frame.bytes = isIpv4 first ∧ ipHeaderLength frame.bytes = ipHeaderLength first ∧
      declaredTransport frame.bytes true = tcpHeaderLength first := by
  obtain ⟨headers, ipLong, long, carries, -⟩ := (merged.data first List.mem_cons_self).sizes
  have total := merged.total
  have length := written.length
  have octet : frame.bytes.getD 0 0 = first.getD 0 0 :=
    written.kept 0 (by omega) ⟨by split_ifs <;> omega, by omega, by omega⟩
  have ip : ipHeaderLength frame.bytes = ipHeaderLength first := ipHeaderLength_of_octet (by omega) (by omega) octet
  refine ⟨isIpv4_of_octet (by omega) (by omega) octet, ip, ?_⟩
  rw [declaredTransport, if_pos rfl, ip, written.kept (ipHeaderLength first + 12) (by omega)]
  · rfl
  · exact ⟨by split_ifs <;> omega, by omega, by omega⟩

theorem cuttable (written : Written item first rest frame) (merged : Merged item first rest) (several : rest ≠ []) :
    Cuttable item.virtio frame.bytes true := by
  obtain ⟨family, ip, transport⟩ := written.shape merged
  have opened := merged.data first List.mem_cons_self
  obtain ⟨headers, ipLong, long, carries, -⟩ := opened.sizes
  have total := merged.total
  have length := written.length
  have limit := merged.limit several
  have some := opened.length_eq
  have payload := merged.payload_length
  have octet : frame.bytes.getD 0 0 = first.getD 0 0 :=
    written.kept 0 (by omega) ⟨by split_ifs <;> omega, by omega, by omega⟩
  refine ⟨⟨?_, by omega, by omega, ?_⟩, ?_, ?_, ?_, ?_, by rw [transport]; exact long, by omega⟩
  · rw [octet]
    cases version : isIpv4 first with
    | true => exact Or.inl ((isIpv4_iff (by omega)).mp version)
    | false => exact Or.inr (opened.ipv6 version).1
  · rw [family, length]
    exact written.declared
  · rw [if_pos rfl, Item.virtio]
    split_ifs
    · exact Or.inl rfl
    · exact Or.inr rfl
  · rw [UInt16.le_iff_toNat_le]
    change 1 ≤ (UInt16.ofNat item.segment).toNat
    rw [UInt16.toNat_ofNat_of_lt' (Nat.lt_succ_of_le (by rw [merged.segment]; exact le_trans (by omega) limit)),
      merged.segment]
    omega
  · rw [length]
    exact limit
  · rw [ipProtocol_eq (by omega), family, if_pos rfl, Option.some_inj]
    cases version : isIpv4 first with
    | true =>
      rw [if_pos rfl, written.kept 9 (by omega) ⟨by rw [version]; simp, by omega, by omega⟩]
      exact (opened.ipv4 version).2.2
    | false =>
      rw [if_neg (by decide), written.kept 6 (by omega) ⟨by rw [version]; simp, by omega, by omega⟩]
      exact (opened.ipv6 version).2.2

end Written

/-- A segment of a frame, seen from the packet that was merged at its place. -/
structure Recovered (first packet out : Bytes) : Prop where
  segment : Segment packet
  alike : packet = first ∨ Alike first packet
  length : out.length = packet.length
  payload : out.drop (headersLength packet) = body packet
  declared : out.length = if isIpv4 packet then (word16 out 2).toNat else (word16 out 4).toNat + 40
  sequence : word32 out (ipHeaderLength packet + 4) = sequenceNumber packet
  flags : out.getD (ipHeaderLength packet + 13) 0 = kTcpAck ||| (tcpFlags packet &&& kTcpPsh)
  pushes : tcpFlags packet &&& kNotAckOrPush = 0
  valid : transportChecksumValid out = some true
  kept : ∀ place < headersLength packet,
    ¬ (if isIpv4 packet then 2 ≤ place ∧ place < 6 ∨ 10 ≤ place ∧ place < 12 else 4 ≤ place ∧ place < 6) →
    ¬ (ipHeaderLength packet + 4 ≤ place ∧ place < ipHeaderLength packet + 8) →
    ¬ (place = ipHeaderLength packet + 13 ∨
      ipHeaderLength packet + 16 ≤ place ∧ place < ipHeaderLength packet + 18) →
    out.getD place 0 = first.getD place 0

/-- The flags of a segment are put together from three parts. -/
theorem flags_of_parts {old new push : UInt8} {last : Prop} [Decidable last] {k : ℕ}
    (flags : old = kTcpAck ||| (push &&& kTcpPsh))
    (ends : new &&& (kTcpFin ||| kTcpPsh) = if last then old &&& (kTcpFin ||| kTcpPsh) else 0)
    (starts : new &&& kTcpCwr = if k = 0 then old &&& kTcpCwr else 0)
    (others : new &&& ~~~(kTcpFin ||| kTcpPsh ||| kTcpCwr) = old &&& ~~~(kTcpFin ||| kTcpPsh ||| kTcpCwr)) :
    new = kTcpAck ||| if last then push &&& kTcpPsh else 0 := by
  have parts : ∀ octet : UInt8, octet = (octet &&& (kTcpFin ||| kTcpPsh)) ||| (octet &&& kTcpCwr) |||
      (octet &&& ~~~(kTcpFin ||| kTcpPsh ||| kTcpCwr)) := by
    decide +kernel
  have pushed : ∀ octet : UInt8, let flags := kTcpAck ||| (octet &&& kTcpPsh)
      flags &&& (kTcpFin ||| kTcpPsh) = octet &&& kTcpPsh ∧ flags &&& kTcpCwr = 0 ∧
        flags &&& ~~~(kTcpFin ||| kTcpPsh ||| kTcpCwr) = kTcpAck := by
    decide +kernel
  obtain ⟨end_, start, other⟩ := pushed push
  rw [flags, end_] at ends
  rw [flags, start, ite_self] at starts
  rw [flags, other] at others
  rw [parts new, ends, starts, others, UInt8.or_zero, UInt8.or_comm]

namespace Written

variable {frame : Frame}

theorem gsoSize (merged : Merged item first rest) (several : rest ≠ []) :
    item.virtio.gsoSize.toNat = item.segment := by
  have limit := merged.limit several
  have total := merged.total
  have payload := merged.payload_length
  have segment := merged.segment
  exact UInt16.toNat_ofNat_of_lt' (Nat.lt_succ_of_le (le_trans (by omega) limit))

theorem chunks (merged : Merged item first rest) :
    (∀ k, k < (first :: rest).length ↔ k * item.segment < item.payloads.flatten.length) ∧
      ∀ k packet, (first :: rest)[k]? = some packet →
        (item.payloads.flatten.drop (k * item.segment)).take item.segment = body packet := by
  have sizes : ∀ packet ∈ first :: rest, 0 < (body packet).length ∧ (body packet).length ≤ item.segment := by
    intro packet member
    have length := (merged.data packet member).length_eq
    have carries := (merged.data packet member).carries
    refine ⟨by omega, ?_⟩
    rcases List.mem_cons.mp member with rfl | later
    · exact merged.segment.ge
    · exact merged.small packet later
  have full : ∀ part ∈ item.payloads.dropLast, part.length = item.segment := by
    intro part member
    rw [merged.payloads, ← List.map_dropLast] at member
    obtain ⟨packet, here, rfl⟩ := List.mem_map.mp member
    exact (merged.full packet here).1
  have small : ∀ part ∈ item.payloads, 0 < part.length ∧ part.length ≤ item.segment := by
    intro part member
    rw [merged.payloads] at member
    obtain ⟨packet, here, rfl⟩ := List.mem_map.mp member
    exact sizes packet here
  obtain ⟨count, cut⟩ := List.chunks_of_flatten full small
  refine ⟨?_, ?_⟩
  · intro k
    rw [← count k, merged.payloads, List.length_map]
  · intro k packet found
    apply cut k
    rw [merged.payloads, List.getElem?_map, found]
    rfl

theorem recovered (written : Written item first rest frame) (merged : Merged item first rest) (several : rest ≠ [])
    {k : ℕ} {packet out : Bytes} (found : (first :: rest)[k]? = some packet)
    (segmentOf : SegmentOf frame.bytes true item.segment k out) : Recovered first packet out := by
  obtain ⟨family, ip, transport⟩ := written.shape merged
  obtain ⟨count, cut⟩ := chunks merged
  have member := List.mem_of_getElem? found
  have segment := merged.data packet member
  have alike : packet = first ∨ Alike first packet := (List.mem_cons.mp member).imp_right (merged.alike packet)
  have common : isIpv4 packet = isIpv4 first ∧ ipHeaderLength packet = ipHeaderLength first ∧
      headersLength packet = headersLength first := by
    rcases alike with rfl | alike
    · exact ⟨rfl, rfl, rfl⟩
    · exact ⟨alike.ipv4, alike.ipLength, alike.headers⟩
  obtain ⟨version, ipLength, headers⟩ := common
  have frameHeaders : ipHeaderLength frame.bytes + declaredTransport frame.bytes true = headersLength first := by
    rw [ip, transport]
    rfl
  have payload := segmentOf.payload
  rw [frameHeaders, written.payload, cut k packet found] at payload
  have size := congrArg List.length payload
  have length := segment.length_eq
  have carries := segment.carries
  obtain ⟨sum, ipLong, long, -⟩ := (merged.data first List.mem_cons_self).sizes
  rw [List.length_drop] at size
  constructor
  case segment => exact segment
  case alike => exact alike
  case length => omega
  case payload => rwa [headers]
  case declared =>
    rw [version]
    split_ifs with four
    · exact (segmentOf.ipv4 (family.trans four)).1.symm
    · exact (segmentOf.ipv6 (family.trans (by simpa using four))).symm
  case sequence =>
    have start : word32 frame.bytes (ipHeaderLength first + 4) = sequenceNumber first := by
      apply Words.word32_congr
      intro place low high
      exact written.kept place (by omega) ⟨by split_ifs <;> omega, by omega, by omega⟩
    rw [ipLength, ← ip, segmentOf.sequence rfl, ip, start, merged.sequence k packet found]
  case flags =>
    obtain ⟨last, ends⟩ : ∃ last, (first :: rest).getLast? = some last :=
      ⟨_, List.getLast?_eq_some_getLast (List.cons_ne_nil _ _)⟩
    have old := written.flags last ends
    rw [← ip] at old
    obtain ⟨final, initial, others⟩ := segmentOf.flags rfl
    rw [ipLength, ← ip, flags_of_parts old final initial others, frameHeaders]
    have more := count (k + 1)
    have total := merged.total
    have whole := written.length
    split_ifs with done
    · -- what is cut last is the last of the segments
      have here := (List.getElem?_eq_some_iff.mp found).1
      rw [List.getLast?_eq_getElem?, show (first :: rest).length - 1 = k by omega, found] at ends
      rw [Option.some_inj.mp ends]
    · have inner : packet ∈ (first :: rest).dropLast := by
        refine List.mem_of_getElem? (?_ : _[k]? = _)
        rw [List.getElem?_dropLast, if_pos (by omega), found]
      rw [(merged.full packet inner).2]
  case pushes =>
    rcases List.mem_cons.mp member with rfl | later
    · rw [merged.plain several]
      decide
    · exact merged.pushes packet later
  case valid => exact segmentOf.valid
  case kept =>
    intro place inside lengths sequence fields
    rw [version] at lengths
    rw [ipLength] at sequence fields
    have same := segmentOf.kept place
    rw [frameHeaders, family, ip] at same
    rw [same (by omega) lengths sequence (fun tcp => fields tcp.2)]
    refine written.kept place (by omega) ⟨?_, by omega, by omega⟩
    split_ifs at lengths ⊢
    · omega
    · omega

theorem packets (written : Written item first rest frame) (merged : Merged item first rest) (several : rest ≠ []) :
    ∃ outs, frame.packets = some outs ∧ List.Forall₂ (Recovered first) (first :: rest) outs := by
  obtain ⟨family, ip, transport⟩ := written.shape merged
  have size := gsoSize merged several
  obtain ⟨outs, expanded, -, count, each⟩ := expand_exact (written.cuttable merged several)
  rw [size] at count each
  refine ⟨outs, ?_, ?_⟩
  · have merges : (parseVirtioHeader frame.virtio).gsoType ≠ kGsoNone := by
      rw [written.header]
      change (if item.ipv4 then kGsoTcpV4 else kGsoTcpV6) ≠ kGsoNone
      split_ifs
      · decide
      · decide
    rw [Frame.packets, if_neg merges, written.header, expanded]
    rfl
  · have payload : frame.bytes.length - (ipHeaderLength frame.bytes + declaredTransport frame.bytes true) =
        item.payloads.flatten.length := by
      rw [written.length, merged.total, ip, transport]
      exact Nat.add_sub_cancel_left _ _
    rw [payload] at count
    have same (k : ℕ) : k < outs.length ↔ k < (first :: rest).length := (count k).trans ((chunks merged).1 k).symm
    have lengths : (first :: rest).length = outs.length := by
      have one := (same outs.length).not.mp (lt_irrefl _)
      have other := (same (first :: rest).length).not.mpr (lt_irrefl _)
      omega
    apply List.forall₂_iff_get.mpr ⟨lengths, ?_⟩
    intro k here there
    exact written.recovered merged several (List.getElem?_eq_getElem here)
      (each k _ (List.getElem?_eq_getElem there))

end Written

/-- What becomes of the packets in an item. -/
structure Resegmented (group : List Bytes) (frame : Frame) (outs : List Bytes) : Prop where
  occupied : group ≠ []
  packets : frame.packets = some outs
  single : ∀ packet, group = [packet] →
    frame.bytes = packet ∧ outs = [packet] ∧ (parseVirtioHeader frame.virtio).flags = 0
  several : 2 ≤ group.length → (parseVirtioHeader frame.virtio).flags = kVirtioNeedsChecksum ∧
    WellFormed frame.bytes ∧ frame.bytes.length ≤ kMaximumOffloadFrame ∧
    ∀ first ∈ group.head?, List.Forall₂ (Recovered first) group outs

theorem resegmented_single {packet : Bytes} {frame : Frame} (bytes : frame.bytes = packet)
    (plain : parseVirtioHeader frame.virtio = {}) : Resegmented [packet] frame [packet] := by
  refine ⟨List.cons_ne_nil _ _, ?_, ?_, ?_⟩
  · rw [Frame.packets, plain, bytes]
    rfl
  · intro other same
    obtain rfl := List.singleton_inj.mp same
    exact ⟨bytes, rfl, by rw [plain]⟩
  · intro several
    exact absurd several (by simp)

theorem Merged.head_single {packet : Bytes} (merged : Merged item packet []) :
    item.head = packet.take (headersLength packet) := by
  have segment := merged.data packet List.mem_cons_self
  apply List.ext_getElem
  · rw [merged.headLength, List.length_take_of_le segment.carries.le]
  · intro place inside _
    rw [List.getElem_take, ← List.getD_eq_getElem item.head 0 inside]
    rw [merged.headLength] at inside
    have read : item.head.getD place 0 = packet.getD place 0 := by
      rcases eq_or_ne place (ipHeaderLength packet + 13) with rfl | apart
      · rw [merged.flags packet rfl, or_own_push]
        rfl
      · exact merged.head place inside apart
    rw [read]
    exact List.getD_eq_getElem _ _ (inside.trans segment.carries)

theorem Holds.resegmented {group : List Bytes} (holds : Holds item group) :
    ∃ frame outs, item.frame = some frame ∧ Resegmented group frame outs := by
  have blank : parseVirtioHeader (List.replicate kVirtioHeaderSize 0) = {} := by
    decide
  cases holds with
  | whole packet plain =>
    refine ⟨⟨List.replicate kVirtioHeaderSize 0, [], [packet]⟩, [packet], rfl, resegmented_single ?_ blank⟩
    simp [Frame.bytes]
  | @merged item first rest merged =>
    rcases eq_or_ne rest [] with rfl | several
    · refine ⟨⟨List.replicate kVirtioHeaderSize 0, item.head, item.payloads⟩, [first], ?_,
        resegmented_single ?_ blank⟩
      · rw [Item.frame, if_pos]
        rw [merged.payloads]
        exact Or.inr Nat.one_lt_two
      · rw [Frame.bytes, merged.payloads, merged.head_single, List.map_singleton, List.flatten_singleton, body,
          List.take_append_drop]
    · obtain ⟨frame, framed, written⟩ := merged.written several
      obtain ⟨outs, packets, recovered⟩ := written.packets merged several
      refine ⟨frame, outs, framed, List.cons_ne_nil _ _, packets, ?_, ?_⟩
      · intro packet single
        exact absurd (List.cons.inj single).2 several
      · intro _
        have cuttable := written.cuttable merged several
        refine ⟨by rw [written.header]; rfl, cuttable.toWellFormed, cuttable.limit, ?_⟩
        intro head starts
        obtain rfl : first = head := Option.some_inj.mp starts
        exact recovered

theorem frames_of_holds {items : List (Item Bytes)} {groups : List (List (Bytes × ℕ))}
    (holds : List.Forall₂ (fun item group => Holds item (group.map Prod.fst)) items groups) :
    ∃ written : List (Frame × List Bytes), items.mapM Item.frame = some (written.map Prod.fst) ∧
      List.Forall₂ (fun group pair => Resegmented (group.map Prod.fst) pair.1 pair.2) groups written := by
  induction holds with
  | nil => exact ⟨[], rfl, List.Forall₂.nil⟩
  | cons one _ ih =>
    obtain ⟨frame, outs, framed, resegmented⟩ := one.resegmented
    obtain ⟨written, more, rest⟩ := ih
    refine ⟨(frame, outs) :: written, ?_, List.Forall₂.cons resegmented rest⟩
    rw [List.mapM_cons, framed, more]
    rfl

/-- The frames that the writer receives, each with the packets that it stands for. -/
structure Writes (coalescer : TcpCoalescer) (written : List (Frame × List Bytes)) : Prop where
  frames : ∃ after, coalescer.flush = some (written.map Prod.fst, after)
  packets : ∀ pair ∈ written, pair.1.packets = some pair.2

/-- A flush always goes through, and every frame is accounted for. -/
theorem flush_resegmented (buffers : List Bytes) (packets : List (Bytes × Bool)) :
    ∃ written, Writes ((TcpCoalescer.flushed buffers).addAll packets) written ∧
      List.Forall₂ (fun group pair => Resegmented (group.map Prod.fst) pair.1 pair.2)
        (ledger (packets.map Prod.fst)).groups written := by
  have accounts := ledger_accounts (packets.map Prod.fst)
  obtain ⟨written, framed, resegmented⟩ := frames_of_holds accounts.holds
  have flush := TcpCoalescer.flush_addAll buffers packets
  rw [← accounts.items, framed, Option.map_eq_some_iff] at flush
  obtain ⟨⟨frames, after⟩, flush, rfl⟩ := flush
  refine ⟨written, ⟨⟨after, flush⟩, ?_⟩, resegmented⟩
  intro pair member
  obtain ⟨group, -, here⟩ := Grouping.source_of_result resegmented member
  exact here.packets

end Norr.Offload
