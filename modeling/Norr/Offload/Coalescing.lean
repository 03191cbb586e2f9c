import Norr.Offload.Resegment

/-! What coalescing keeps of the packets, and what it does not. -/

namespace Norr.Offload

open Grouping TcpCoalescer Words

variable {first packet out : Bytes}

namespace Recovered

theorem common (recovered : Recovered first packet out) :
    isIpv4 packet = isIpv4 first ∧ ipHeaderLength packet = ipHeaderLength first ∧
      headersLength packet = headersLength first := by
  rcases recovered.alike with rfl | alike
  · exact ⟨rfl, rfl, rfl⟩
  · exact ⟨alike.ipv4, alike.ipLength, alike.headers⟩

theorem same (recovered : Recovered first packet out) {place : ℕ} (inside : place < headersLength packet)
    (compared : Compared (isIpv4 packet) (ipHeaderLength packet) place) :
    out.getD place 0 = packet.getD place 0 := by
  obtain ⟨family, ip, headers⟩ := recovered.common
  have original : packet.getD place 0 = first.getD place 0 := by
    rcases recovered.alike with rfl | alike
    · rfl
    · exact alike.same place (headers ▸ inside) (by rwa [family, ip] at compared)
  obtain ⟨lengths, checksum, sequence, flags, urgent⟩ := compared
  rw [original]
  refine recovered.kept place inside ?_ (by omega) (by omega)
  split_ifs with four
  · have apart : ¬ (10 ≤ place ∧ place < 12) := fun between => checksum ⟨four, between⟩
    omega
  · omega

end Recovered

/-- The packet that comes out for the one that went in. -/
structure Delivered (packet out : Bytes) : Prop where
  plain : ipProtocol packet ≠ some kProtocolTcp ∨ packet.length ≤ headersLength packet → out = packet
  ipv4 : isIpv4 out = isIpv4 packet
  addresses : addressOctets (isIpv4 packet) out = addressOctets (isIpv4 packet) packet
  ports : word32 out (ipHeaderLength packet) = word32 packet (ipHeaderLength packet)
  sequence : word32 out (ipHeaderLength packet + 4) = word32 packet (ipHeaderLength packet + 4)
  payload : out.drop (headersLength packet) = packet.drop (headersLength packet)
  length : out.length = packet.length

theorem delivered_self (packet : Bytes) : Delivered packet packet := ⟨fun _ => rfl, rfl, rfl, rfl, rfl, rfl, rfl⟩

theorem Recovered.delivered (recovered : Recovered first packet out) :
    Delivered packet out := by
  have segment := recovered.segment
  obtain ⟨headers, ipLong, long, carries, ipSix⟩ := segment.sizes
  have length := recovered.length
  have octet (place : ℕ) (low : place < ipHeaderLength packet + 4) (high : place = 0 ∨ 12 ≤ place ∨
      isIpv4 packet = false ∧ 8 ≤ place) : out.getD place 0 = packet.getD place 0 := by
    apply recovered.same (by omega)
    refine ⟨by omega, ?_, by omega, by omega, by omega⟩
    rintro ⟨four, between⟩
    rcases high with zero | late | ⟨six, -⟩
    · omega
    · omega
    · rw [four] at six
      cases six
  refine ⟨?_, ?_, ?_, ?_, recovered.sequence, recovered.payload, length⟩
  · rintro (other | empty)
    · exfalso
      apply other
      rw [ipProtocol_eq (by omega)]
      cases version : isIpv4 packet with
      | true => exact congrArg some (segment.ipv4 version).2.2
      | false => exact congrArg some (segment.ipv6 version).2.2
    · omega
  · exact isIpv4_of_octet (by omega) (by omega) (octet 0 (by omega) (by omega))
  · cases version : isIpv4 packet with
    | true =>
      apply slice_congr length
      exact fun place low high => octet place (by omega) (by omega)
    | false =>
      have forty := ipSix version
      apply slice_congr length
      exact fun place low high => octet place (by omega) (Or.inr (Or.inr ⟨version, low⟩))
  · apply word32_congr
    exact fun place low high => octet place high (by omega)

theorem Resegmented.delivered {group : List Bytes} {frame : Frame} {outs : List Bytes}
    (resegmented : Resegmented group frame outs) : List.Forall₂ Delivered group outs := by
  match group, resegmented with
  | [], resegmented => exact absurd rfl resegmented.occupied
  | [packet], resegmented =>
    rw [(resegmented.single packet rfl).2.1]
    exact List.Forall₂.cons (delivered_self packet) List.Forall₂.nil
  | first :: second :: rest, resegmented =>
    obtain ⟨-, -, -, members⟩ := resegmented.several (by simp)
    exact List.Forall₂.imp (fun _ _ recovered => recovered.delivered) (members first rfl)

theorem delivered_all {written : List (Frame × List Bytes)} {groups : List (List (Bytes × ℕ))}
    (resegmented : List.Forall₂ (fun group pair => Resegmented (group.map Prod.fst) pair.1 pair.2) groups written) :
    List.Forall₂ Delivered (groups.flatten.map Prod.fst) (written.map Prod.snd).flatten := by
  rw [List.map_flatten]
  apply List.rel_flatten
  rw [List.forall₂_map_left_iff, List.forall₂_map_right_iff]
  exact List.Forall₂.imp (fun _ _ here => here.delivered) resegmented

/-- Nothing is lost and nothing is made up, whatever is merged with what. -/
theorem coalescing_keeps_packets (buffers : List Bytes) (packets : List (Bytes × Bool))
    (wellFormed : ∀ packet ∈ packets, WellFormed packet.1 ∧ packet.1.length ≤ kMaximumOffloadFrame) :
    ∃ written, Writes ((flushed buffers).addAll packets) written ∧
      (∃ order, order.Perm (packets.map Prod.fst) ∧
        List.Forall₂ Delivered order (written.map Prod.snd).flatten) ∧
      ∀ pair ∈ written, pair.1.bytes.length ≤ kMaximumOffloadFrame ∧ WellFormed pair.1.bytes := by
  obtain ⟨written, writes, resegmented⟩ := flush_resegmented buffers packets
  have all := (ledger_accounts (packets.map Prod.fst)).all
  have order := all.map Prod.fst
  rw [List.zipIdx_map_fst] at order
  refine ⟨written, writes, ⟨_, order, delivered_all resegmented⟩, ?_⟩
  intro pair member
  obtain ⟨group, here, frame⟩ := source_of_result resegmented member
  rcases Nat.lt_or_ge (group.map Prod.fst).length 2 with one | more
  · obtain ⟨packet, single⟩ : ∃ packet, group.map Prod.fst = [packet] := by
      apply List.length_eq_one_iff.mp
      have some := List.length_pos_iff.mpr frame.occupied
      omega
    have added : packet ∈ packets.map Prod.fst := by
      apply order.subset
      rw [List.map_flatten]
      apply List.mem_flatten.mpr ⟨_, List.mem_map_of_mem here, ?_⟩
      rw [single]
      exact List.mem_singleton_self packet
    obtain ⟨input, known, rfl⟩ := List.mem_map.mp added
    rw [(frame.single _ single).1]
    exact (wellFormed input known).symm
  · obtain ⟨-, formed, limit, -⟩ := frame.several more
    exact ⟨limit, formed⟩

/-- Two segments of one connection that follow each other, and an acknowledgement without payload. -/
def firstSegment : Bytes :=
  [0x45, 0, 0, 42, 0, 1, 0x40, 0, 64, 6, 38, 203, 10, 0, 0, 1, 10, 0, 0, 2,
    0, 80, 1, 187, 0, 0, 0, 1, 0, 0, 0, 9, 0x50, 0x10, 1, 0, 151, 185, 0, 0, 1, 2]

def nextSegment : Bytes :=
  [0x45, 0, 0, 42, 0, 2, 0x40, 0, 64, 6, 38, 202, 10, 0, 0, 1, 10, 0, 0, 2,
    0, 80, 1, 187, 0, 0, 0, 3, 0, 0, 0, 9, 0x50, 0x10, 1, 0, 149, 181, 0, 0, 3, 4]

def bareAck : Bytes :=
  [0x45, 0, 0, 40, 0, 7, 0x40, 0, 64, 6, 38, 199, 10, 0, 0, 1, 10, 0, 0, 2,
    0, 80, 1, 187, 0, 0, 0, 3, 0, 0, 0, 9, 0x50, 0x10, 1, 0, 152, 187, 0, 0]

theorem coalescing_keeps_three :
    ∃ written, Writes ((flushed [[7]]).addAll
        [(firstSegment, false), (bareAck, true), (nextSegment, false)]) written ∧
      (∃ order, order.Perm [firstSegment, bareAck, nextSegment] ∧
        List.Forall₂ Delivered order (written.map Prod.snd).flatten) ∧
      ∀ pair ∈ written, pair.1.bytes.length ≤ kMaximumOffloadFrame ∧ WellFormed pair.1.bytes := by
  apply coalescing_keeps_packets
  intro packet member
  have formed : (WellFormed firstSegment ∧ firstSegment.length ≤ kMaximumOffloadFrame) ∧
      (WellFormed bareAck ∧ bareAck.length ≤ kMaximumOffloadFrame) ∧
      WellFormed nextSegment ∧ nextSegment.length ≤ kMaximumOffloadFrame :=
    ⟨⟨⟨by decide, by decide, by decide, by decide⟩, by decide⟩,
      ⟨⟨by decide, by decide, by decide, by decide⟩, by decide⟩,
      ⟨by decide, by decide, by decide, by decide⟩, by decide⟩
  simp only [List.mem_cons, List.not_mem_nil, or_false] at member
  rcases member with rfl | rfl | rfl
  · exact formed.1
  · exact formed.2.1
  · exact formed.2.2

/-- The octets that re-segmentation may change: the IPv4 identification and header checksum, and the TCP
checksum. -/
def Exempt (packet : Bytes) (place : ℕ) : Prop :=
  isIpv4 packet = true ∧ (4 ≤ place ∧ place < 6 ∨ 10 ≤ place ∧ place < 12) ∨
    ipHeaderLength packet + 16 ≤ place ∧ place < ipHeaderLength packet + 18

structure Reproduced (packet out : Bytes) : Prop where
  length : out.length = packet.length
  octets : ∀ place, ¬ Exempt packet place → out.getD place 0 = packet.getD place 0

/-- What is not compared, and has to be the same all the same. -/
structure Agrees (first packet : Bytes) : Prop where
  flowLabel : isIpv4 packet = false → word16 packet 2 = word16 first 2
  reserved : packet.getD (ipHeaderLength packet + 12) 0 = first.getD (ipHeaderLength packet + 12) 0
  acknowledges : tcpFlags packet &&& kTcpAck ≠ 0
  urgent : word16 packet (ipHeaderLength packet + 18) = word16 first (ipHeaderLength packet + 18)
  declared : packet.length = if isIpv4 packet then (word16 packet 2).toNat else (word16 packet 4).toNat + 40

namespace Recovered

theorem agrees (recovered : Recovered first packet out)
    (reproduced : Reproduced packet out) : Agrees first packet := by
  obtain ⟨headers, ipLong, long, carries, ipSix⟩ := recovered.segment.sizes
  have original (place : ℕ) (inside : place < headersLength packet)
      (lengths : ¬ (if isIpv4 packet then 2 ≤ place ∧ place < 6 ∨ 10 ≤ place ∧ place < 12
        else 4 ≤ place ∧ place < 6))
      (sequence : ¬ (ipHeaderLength packet + 4 ≤ place ∧ place < ipHeaderLength packet + 8))
      (fields : ¬ (place = ipHeaderLength packet + 13 ∨
        ipHeaderLength packet + 16 ≤ place ∧ place < ipHeaderLength packet + 18)) :
      packet.getD place 0 = first.getD place 0 := by
    rw [← recovered.kept place inside lengths sequence fields]
    apply (reproduced.octets place _).symm
    rintro (⟨four, apart⟩ | checksum)
    · rw [if_pos four] at lengths
      omega
    · omega
  refine ⟨?_, ?_, ?_, ?_, ?_⟩
  · intro six
    have forty := ipSix six
    have apart (place : ℕ) (low : place < 4) :
        ¬ (if isIpv4 packet then 2 ≤ place ∧ place < 6 ∨ 10 ≤ place ∧ place < 12 else 4 ≤ place ∧ place < 6) := by
      rw [if_neg (by rw [six]; decide)]
      omega
    apply word16_congr
    · exact original 2 (by omega) (apart 2 (by omega)) (by omega) (by omega)
    · exact original 3 (by omega) (apart 3 (by omega)) (by omega) (by omega)
  · exact original _ (by omega) (by split_ifs <;> omega) (by omega) (by omega)
  · have flags := recovered.flags
    rw [reproduced.octets _ (by rintro (⟨-, apart⟩ | apart) <;> omega)] at flags
    have acknowledges : ∀ push : UInt8, (kTcpAck ||| (push &&& kTcpPsh)) &&& kTcpAck ≠ 0 := by
      decide +kernel
    rw [tcpFlags, flags]
    exact acknowledges _
  · apply word16_congr
    · exact original _ (by omega) (by split_ifs <;> omega) (by omega) (by omega)
    · exact original _ (by omega) (by split_ifs <;> omega) (by omega) (by omega)
  · rw [← reproduced.length, recovered.declared]
    split_ifs with four
    · rw [word16_congr 2 (reproduced.octets 2 _) (reproduced.octets 3 _)]
      all_goals
        rintro (⟨-, apart⟩ | apart) <;> omega
    · rw [word16_congr 4 (reproduced.octets 4 _) (reproduced.octets 5 _)]
      all_goals
        rintro (⟨version, -⟩ | apart)
        · exact four version
        · omega

theorem lengths (recovered : Recovered first packet out) (agrees : Agrees first packet)
    {place : ℕ} (counts : ¬ Exempt packet place) (between : 2 ≤ place ∧ place < 6) :
    out.getD place 0 = packet.getD place 0 := by
  have declared := recovered.declared
  have length := recovered.length
  have agreed := agrees.declared
  obtain ⟨headers, -, long, carries, ipSix⟩ := recovered.segment.sizes
  cases version : isIpv4 packet with
  | true =>
    rw [if_pos version] at declared agreed
    have field : word16 out 2 = word16 packet 2 := UInt16.toNat_inj.mp (by omega)
    have early : place < 4 := by
      by_contra late
      exact counts (Or.inl ⟨version, Or.inl (by omega)⟩)
    exact same_of_words 2 (octets_of_word16 field) between.1 early
  | false =>
    rw [if_neg (by rw [version]; decide)] at declared agreed
    have field : word16 out 4 = word16 packet 4 := UInt16.toNat_inj.mp (by omega)
    have forty := ipSix version
    rcases Nat.lt_or_ge place 4 with early | late
    · rw [same_of_words 2 (octets_of_word16 (agrees.flowLabel version)) between.1 early]
      refine recovered.kept place (by omega) ?_ (by omega) (by omega)
      rw [version]
      simp
      omega
    · exact same_of_words 4 (octets_of_word16 field) late between.2

theorem reproduced (recovered : Recovered first packet out)
    (agrees : Agrees first packet) : Reproduced packet out := by
  obtain ⟨headers, ipLong, long, carries, -⟩ := recovered.segment.sizes
  refine ⟨recovered.length, ?_⟩
  intro place counts
  rcases Nat.lt_or_ge place (headersLength packet) with inside | late
  · by_cases compared : Compared (isIpv4 packet) (ipHeaderLength packet) place
    · exact recovered.same inside compared
    · -- what is not compared, field by field
      rcases (by unfold Compared at compared; tauto : (2 ≤ place ∧ place < 6) ∨
          (isIpv4 packet = true ∧ 10 ≤ place ∧ place < 12) ∨
          (ipHeaderLength packet + 4 ≤ place ∧ place < ipHeaderLength packet + 8) ∨
          (ipHeaderLength packet + 12 ≤ place ∧ place < ipHeaderLength packet + 14) ∨
          (ipHeaderLength packet + 16 ≤ place ∧ place < ipHeaderLength packet + 20)) with
        lengths | ⟨four, checksum⟩ | sequence | flags | urgent
      · exact recovered.lengths agrees counts lengths
      · exact absurd (Or.inl ⟨four, Or.inr checksum⟩) counts
      · exact same_of_words _ (octets_of_word32 recovered.sequence) sequence.1 sequence.2
      · rcases (by omega : place = ipHeaderLength packet + 12 ∨ place = ipHeaderLength packet + 13) with rfl | rfl
        · rw [agrees.reserved]
          exact recovered.kept _ inside (by split_ifs <;> omega) (by omega) (by omega)
        · have octets : ∀ flags : UInt8, flags &&& kNotAckOrPush = 0 → flags &&& kTcpAck ≠ 0 →
              kTcpAck ||| (flags &&& kTcpPsh) = flags := by
            decide +kernel
          rw [recovered.flags, octets _ recovered.pushes agrees.acknowledges]
          rfl
      · have apart : ¬ (ipHeaderLength packet + 16 ≤ place ∧ place < ipHeaderLength packet + 18) :=
          fun checksum => counts (Or.inr checksum)
        rw [same_of_words _ (octets_of_word16 agrees.urgent) (by omega) (by omega)]
        exact recovered.kept _ inside (by split_ifs <;> omega) (by omega) (by omega)
  · have payload := congrArg (fun bytes => bytes.getD (place - headersLength packet) 0) recovered.payload
    simp only [body, List.getD_eq_getElem?_getD, List.getElem?_drop, Nat.add_sub_cancel' late] at payload
    simpa only [List.getD_eq_getElem?_getD] using payload

end Recovered

/-- Only the headers of the first segment are kept, so that the others come back as they were where they
agree with it in everything. -/
theorem coalescing_keeps_headers_iff (buffers : List Bytes) (packets : List (Bytes × Bool)) :
    ∃ written, Writes ((flushed buffers).addAll packets) written ∧
      (List.Forall₂ (fun group pair => 2 ≤ group.length → List.Forall₂ Reproduced (group.map Prod.fst) pair.2)
          (ledger (packets.map Prod.fst)).groups written ↔
        ∀ group ∈ (ledger (packets.map Prod.fst)).groups, 2 ≤ group.length →
          ∀ first ∈ group.head?, ∀ packet ∈ group, Agrees first.1 packet.1) := by
  obtain ⟨written, writes, resegmented⟩ := flush_resegmented buffers packets
  refine ⟨written, writes, pairs_iff resegmented ?_⟩
  intro group pair frame
  apply imp_congr_right
  intro more
  obtain ⟨-, -, -, members⟩ := frame.several (by rwa [List.length_map])
  obtain ⟨first, starts⟩ : ∃ first, group.head? = some first := by
    cases group with
    | nil => exact absurd more (by decide)
    | cons first rest => exact ⟨first, rfl⟩
  have recovered := members first.1 (by rw [List.head?_map, starts]; rfl)
  have agree : List.Forall₂ Reproduced (group.map Prod.fst) pair.2 ↔
      ∀ packet ∈ group.map Prod.fst, Agrees first.1 packet :=
    pairs_iff recovered fun _ _ here => ⟨here.agrees, here.reproduced⟩
  rw [agree, List.forall_mem_map, starts]
  simp only [Option.mem_some_iff, forall_eq']

def ipv6Header (label : UInt8) : Bytes :=
  [0x60, 0, 0, label, 0, 22, 6, 64, 0, 0, 0, 0, 0, 0, 0, 0, 0, 0, 0, 0, 0, 0, 0, 1, 0, 0, 0, 0, 0, 0, 0, 0,
    0, 0, 0, 0, 0, 0, 0, 2]

def labelled : Bytes :=
  ipv6Header 1 ++ [0, 80, 1, 187, 0, 0, 0, 1, 0, 0, 0, 9, 0x50, 0x10, 1, 0, 171, 185, 0, 0, 1, 2]

/-- The next segment: another flow label, a reserved bit, no acknowledgement and an urgent pointer. -/
def relabelled : Bytes :=
  ipv6Header 2 ++ [0, 80, 1, 187, 0, 0, 0, 3, 0, 0, 0, 9, 0x52, 0, 1, 0, 167, 190, 0, 7, 3, 4]

/-- The segment that comes out in its place. -/
def levelled : Bytes :=
  ipv6Header 1 ++ [0, 80, 1, 187, 0, 0, 0, 3, 0, 0, 0, 9, 0x50, 0x10, 1, 0, 169, 181, 0, 0, 3, 4]

theorem other_headers_are_lost :
    (((flushed []).addAll [(labelled, false), (relabelled, false)]).flush.bind
        fun result => result.1.mapM Frame.packets) = some [[labelled, levelled]] ∧
      transportChecksumValid labelled = some true ∧ transportChecksumValid relabelled = some true ∧
      ¬ Reproduced relabelled levelled := by
  refine ⟨by decide +kernel, by decide +kernel, by decide +kernel, ?_⟩
  intro reproduced
  have urgent := reproduced.octets 59 (by unfold Exempt; decide)
  exact absurd urgent (by decide)

theorem Ledger.Accounts.occupied {ledger : Ledger} {packets : List Bytes} (accounts : ledger.Accounts packets) :
    ∀ group ∈ ledger.groups, group ≠ [] := by
  rintro group member rfl
  obtain ⟨item, -, holds⟩ := source_of_result accounts.holds member
  cases holds

/-- The frames whose checksum the kernel makes up. -/
def NeedsChecksum (frame : Frame) : Prop := (parseVirtioHeader frame.virtio).flags &&& kVirtioNeedsChecksum ≠ 0

theorem Resegmented.needsChecksum_iff {group outs : List Bytes} {frame : Frame}
    (resegmented : Resegmented group frame outs) : NeedsChecksum frame ↔ 2 ≤ group.length := by
  rcases Nat.lt_or_ge group.length 2 with one | more
  · obtain ⟨packet, rfl⟩ : ∃ packet, group = [packet] := by
      apply List.length_eq_one_iff.mp
      have some := List.length_pos_iff.mpr resegmented.occupied
      omega
    rw [NeedsChecksum, (resegmented.single packet rfl).2.2]
    simp
  · rw [NeedsChecksum, (resegmented.several more).1]
    exact iff_of_true (by decide) more

/-- A merge of packets that would have passed the check of their checksum, all of them. -/
def MergesValid (before : List Bytes) (packet : Bytes) : Prop :=
  ∀ index, Item.target (merged before) packet = some index → transportChecksumValid packet = some true ∧
    ∀ group, (ledger before).groups[index]? = some group →
      ∀ member ∈ group, transportChecksumValid member.1 = some true

theorem sound_iff_along (packets : List Bytes) :
    Sound (fun arrival => transportChecksumValid arrival.1 = some true) (ledger packets).groups ↔
      Along MergesValid packets := by
  induction packets using List.reverseRecOn with
  | nil => exact iff_of_true (fun group member => absurd member List.not_mem_nil) (along_nil _)
  | append_singleton packets packet ih =>
    have accounts := ledger_accounts packets
    rw [along_concat, ← ih, ledger_concat, Ledger.add, MergesValid, ← accounts.items]
    cases target : Item.target (ledger packets).items packet with
    | none => simp [sound_place_none]
    | some index =>
      rw [sound_place_some _ (accounts.inside packet index target) accounts.occupied]
      simp

/-- Nothing checks the checksum of what is merged, while every segment that comes out has a valid one. -/
theorem coalescing_never_repairs_iff (buffers : List Bytes) (packets : List (Bytes × Bool)) :
    ∃ written, Writes ((flushed buffers).addAll packets) written ∧
      (List.Forall₂ (fun group pair => NeedsChecksum pair.1 →
            ∀ arrival ∈ group, transportChecksumValid arrival.1 = some true)
          (ledger (packets.map Prod.fst)).groups written ↔ Along MergesValid (packets.map Prod.fst)) ∧
      ∀ pair ∈ written, NeedsChecksum pair.1 → ∀ out ∈ pair.2, transportChecksumValid out = some true := by
  obtain ⟨written, writes, resegmented⟩ := flush_resegmented buffers packets
  refine ⟨written, writes, ?_, ?_⟩
  · rw [← sound_iff_along]
    apply pairs_iff resegmented
    intro group pair frame
    rw [frame.needsChecksum_iff, List.length_map]
  · intro pair member needs out here
    obtain ⟨group, -, frame⟩ := source_of_result resegmented member
    obtain ⟨-, -, -, members⟩ := frame.several (frame.needsChecksum_iff.mp needs)
    obtain ⟨first, starts⟩ : ∃ first, (group.map Prod.fst).head? = some first :=
      ⟨_, List.head?_eq_some_head frame.occupied⟩
    obtain ⟨packet, -, recovered⟩ := source_of_result (members first starts) here
    exact recovered.valid

/-- The second segment with an octet of its payload changed on the way, and what comes out for it. -/
def damagedSegment : Bytes := nextSegment.set 41 5

def repairedSegment : Bytes := (damagedSegment.set 36 149).set 37 180

theorem damage_is_repaired :
    (((flushed []).addAll [(firstSegment, false), (damagedSegment, false)]).flush.bind
        fun result => result.1.mapM Frame.packets) = some [[firstSegment, repairedSegment]] ∧
      (((flushed []).addAll [(firstSegment, false), (damagedSegment, false)]).flush.map
        fun result => result.1.map fun frame => (parseVirtioHeader frame.virtio).flags) =
          some [kVirtioNeedsChecksum] ∧
      transportChecksumValid damagedSegment = some false ∧ transportChecksumValid repairedSegment = some true := by
  decide +kernel

/-- The connection of a packet, by its addresses and ports; a later fragment has no ports. -/
def connection (packet : Bytes) : Option (Bool × Bytes × UInt32) :=
  if ipProtocol packet = some kProtocolTcp ∧ ipHeaderLength packet + 4 ≤ packet.length ∧
      (isIpv4 packet = true → word16 packet 6 &&& 0x1FFF = 0) then
    some (isIpv4 packet, addressOctets (isIpv4 packet) packet, word32 packet (ipHeaderLength packet))
  else none

/-- A packet that joins an item while a later one holds a packet of its connection. -/
def OvertakesOwn (before : List Bytes) (packet : Bytes) : Prop :=
  ∃ index, Item.target (merged before) packet = some index ∧
    Overtakes (fun arrival => connection arrival.1) (ledger before).groups index (packet, before.length)

/-- The packets of each connection are met in the order in which they were added. -/
def InOrder (groups : List (List (Bytes × ℕ))) : Prop :=
  Ordered (fun earlier later => earlier.2 < later.2) (fun arrival => connection arrival.1) groups

theorem inOrder_iff_along (packets : List Bytes) :
    InOrder (ledger packets).groups ↔ Along (fun before packet => ¬ OvertakesOwn before packet) packets := by
  induction packets using List.reverseRecOn with
  | nil => exact iff_of_true (fun _ => List.Pairwise.nil) (along_nil _)
  | append_singleton packets packet ih =>
    have accounts := ledger_accounts packets
    have within := accounts.inside packet
    have early : ∀ other ∈ (ledger packets).groups.flatten, other.2 < packets.length := by
      intro other member
      have place := List.snd_lt_of_mem_zipIdx (accounts.all.subset member)
      omega
    have never : ∀ other ∈ (ledger packets).groups.flatten, ¬ packets.length < other.2 :=
      fun other member => not_lt.mpr (early other member).le
    rw [along_concat, ← ih, ledger_concat, Ledger.add, OvertakesOwn, ← accounts.items, accounts.added]
    cases target : Item.target (ledger packets).items packet with
    | none =>
      rw [target] at within
      refine ⟨fun ordered => ⟨Ordered.of_place within ordered, ?_⟩, ?_⟩
      · rintro ⟨index, absurdity, -⟩
        cases absurdity
      · exact fun ordered => ordered_place_none ordered.1 early
    | some index =>
      rw [target] at within
      have step (ordered : InOrder (ledger packets).groups) :
          InOrder (place (ledger packets).groups (some index) (packet, packets.length)) ↔
            ¬ Overtakes (fun arrival => connection arrival.1) (ledger packets).groups index
              (packet, packets.length) :=
        ordered_place_some ordered (within index rfl) early never
      constructor
      · intro after
        have ordered : InOrder (ledger packets).groups := Ordered.of_place within after
        refine ⟨ordered, ?_⟩
        rintro ⟨other, same, overtakes⟩
        obtain rfl := Option.some_inj.mp same
        exact (step ordered).mp after overtakes
      · rintro ⟨ordered, alone⟩
        exact (step ordered).mpr fun overtakes => alone ⟨index, rfl, overtakes⟩

/-- The packets of a connection come out in the order in which they were added, unless one of them was
merged into an item before another of them. -/
theorem coalescing_keeps_order_iff (buffers : List Bytes) (packets : List (Bytes × Bool)) :
    ∃ written, Writes ((flushed buffers).addAll packets) written ∧
      (ledger (packets.map Prod.fst)).groups.flatten.Perm (packets.map Prod.fst).zipIdx ∧
      List.Forall₂ Delivered ((ledger (packets.map Prod.fst)).groups.flatten.map Prod.fst)
        (written.map Prod.snd).flatten ∧
      (InOrder (ledger (packets.map Prod.fst)).groups ↔
        Along (fun before packet => ¬ OvertakesOwn before packet) (packets.map Prod.fst)) := by
  obtain ⟨written, writes, resegmented⟩ := flush_resegmented buffers packets
  exact ⟨written, writes, (ledger_accounts _).all, delivered_all resegmented, inOrder_iff_along _⟩

/-- A segment overtakes the acknowledgement that was added before it. -/
theorem bare_ack_is_overtaken :
    (((flushed []).addAll [(firstSegment, false), (bareAck, false), (nextSegment, false)]).flush.bind
        fun result => result.1.mapM Frame.packets) = some [[firstSegment, nextSegment], [bareAck]] ∧
      connection bareAck = connection nextSegment ∧ (connection nextSegment).isSome ∧
      ¬ InOrder (ledger [firstSegment, bareAck, nextSegment]).groups := by
  refine ⟨by decide +kernel, by decide +kernel, by decide +kernel, ?_⟩
  have groups : (ledger [firstSegment, bareAck, nextSegment]).groups =
      [[(firstSegment, 0), (nextSegment, 2)], [(bareAck, 1)]] := by
    decide +kernel
  rw [groups]
  intro ordered
  have pairs := ordered (true, [10, 0, 0, 1, 10, 0, 0, 2], 0x005001BB)
  revert pairs
  decide +kernel

end Norr.Offload
