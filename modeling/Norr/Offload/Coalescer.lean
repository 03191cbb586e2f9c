import Norr.Offload.Expand

/-! The merging of TCP segments on their way to the kernel: `TcpCoalescer` of `offload.cpp`, with the
storage in which it keeps the packets until they are written. -/

namespace Norr.Offload

open ByteOrder (slice)
open Words (word16 word32)

def kVirtioHeaderSize : ℕ := 10

def kMaximumOffloadFrame : ℕ := 65535

def kNotAckOrPush : UInt8 := 0xFF &&& ~~~(kTcpAck ||| kTcpPsh)

/-- The header is in the byte order of the host, a little-endian one. -/
def little (bytes : Bytes) (offset : ℕ) : UInt16 :=
  (bytes.getD (offset + 1) 0).toUInt16 <<< 8 ||| (bytes.getD offset 0).toUInt16

def littleOctets (value : UInt16) : Bytes := [(value &&& 0xFF).toUInt8, (value >>> 8).toUInt8]

def parseVirtioHeader (bytes : Bytes) : VirtioHeader :=
  if bytes.length < kVirtioHeaderSize then {}
  else
    { flags := bytes.getD 0 0, gsoType := bytes.getD 1 0, headerLength := little bytes 2, gsoSize := little bytes 4,
      checksumStart := little bytes 6, checksumOffset := little bytes 8 }

def writeVirtioHeader (header : VirtioHeader) (out : Bytes) : Bytes :=
  if out.length < kVirtioHeaderSize then out
  else
    [header.flags, header.gsoType] ++ littleOctets header.headerLength ++ littleOctets header.gsoSize ++
      littleOctets header.checksumStart ++ littleOctets header.checksumOffset ++ out.drop kVirtioHeaderSize

/-- An octet sequence that is the caller's, or a part of a buffer of the coalescer. -/
inductive Span where
  | borrowed (bytes : Bytes)
  | owned (buffer offset : ℕ)
  deriving DecidableEq, Repr

namespace Span

def subspan : Span → ℕ → Span
  | borrowed bytes, start => borrowed (bytes.drop start)
  | owned buffer offset, start => owned buffer (offset + start)

def bytes (buffers : List Bytes) : Span → Bytes
  | borrowed bytes => bytes
  | owned buffer offset => (buffers.getD buffer []).drop offset

end Span

structure Item (σ : Type) where
  head : Bytes := []
  payloads : List σ := []
  tcp : Bool := false
  ipv4 : Bool := false
  ipLength : ℕ := 0
  tcpLength : ℕ := 0
  segment : ℕ := 0
  total : ℕ := 0
  nextSequence : UInt32 := 0
  isOpen : Bool := false
  deriving DecidableEq, Repr

/-- The lambda at the head of `add`. Its reads, and those of what follows, are behind the length tests. -/
def isCandidate (packet : Bytes) : Bool :=
  if packet.length < 40 then false
  else if packet.getD 0 0 >>> 4 = 4 then
    if packet.getD 0 0 &&& 0x0F ≠ 5 then false
    else if packet.getD 9 0 ≠ kProtocolTcp then false
    else word16 packet 6 &&& 0x3FFF == 0
  else packet.getD 0 0 >>> 4 == 6 && decide (60 ≤ packet.length) && packet.getD 6 0 == kProtocolTcp

def tcpHeaderLength (packet : Bytes) : ℕ := (packet.getD (ipHeaderLength packet + 12) 0 >>> 4).toNat * 4

def headersLength (packet : Bytes) : ℕ := ipHeaderLength packet + tcpHeaderLength packet

def tcpFlags (packet : Bytes) : UInt8 := packet.getD (ipHeaderLength packet + 13) 0

/-- The packets that `add` does not pass on as they are. -/
def carriesData (packet : Bytes) : Bool :=
  isCandidate packet && decide (20 ≤ tcpHeaderLength packet ∧ headersLength packet < packet.length)

def addressOctets (ipv4 : Bool) (packet : Bytes) : Bytes := if ipv4 then slice packet 12 8 else slice packet 8 32

namespace Item

variable {σ τ : Type}

def sameFlow (item : Item σ) (packet : Bytes) : Bool :=
  addressOctets (isIpv4 packet) packet == addressOctets (isIpv4 packet) item.head &&
    word32 packet (ipHeaderLength packet) == word32 item.head item.ipLength

def sameIpHeader (item : Item σ) (packet : Bytes) : Bool :=
  if isIpv4 packet then
    slice packet 12 8 == slice item.head 12 8 &&
    (packet.getD 1 0 == item.head.getD 1 0 && packet.getD 8 0 == item.head.getD 8 0) &&
    word16 packet 6 &&& 0xBFFF == 0 &&
    word16 packet 6 == word16 item.head 6
  else
    slice packet 8 32 == slice item.head 8 32 &&
    (packet.getD 0 0 == item.head.getD 0 0 && packet.getD 1 0 == item.head.getD 1 0 &&
      packet.getD 7 0 == item.head.getD 7 0)

def sameTcpHeader (item : Item σ) (packet : Bytes) : Bool :=
  let tcp := packet.drop (ipHeaderLength packet)
  let first := item.head.drop (ipHeaderLength packet)
  word32 tcp 0 == word32 first 0 && word32 tcp 4 == item.nextSequence && word32 tcp 8 == word32 first 8 &&
    word16 tcp 14 == word16 first 14 && tcp.getD 13 0 &&& kNotAckOrPush == 0 &&
    slice tcp 20 (tcpHeaderLength packet - 20) == slice first 20 (tcpHeaderLength packet - 20)

def tryAppend (item : Item σ) (packet : Bytes) : Bool :=
  let payload := packet.length - ipHeaderLength packet - tcpHeaderLength packet
  decide (item.tcp ∧ item.isOpen ∧ item.ipv4 = isIpv4 packet ∧ item.ipLength = ipHeaderLength packet ∧
    item.tcpLength = tcpHeaderLength packet) &&
  decide (payload ≠ 0 ∧ payload ≤ item.segment) &&
  decide (item.total + payload ≤ kMaximumOffloadFrame ∧ item.payloads.length < 64) &&
  item.sameIpHeader packet && item.sameTcpHeader packet

def append (item : Item σ) (packet : Bytes) (part : σ) : Item σ :=
  let payload := packet.length - headersLength packet
  let pushed := tcpFlags packet &&& kTcpPsh != 0
  { item with
    payloads := item.payloads ++ [part]
    total := item.total + payload
    nextSequence := UInt32.ofNat (item.nextSequence.toNat + payload)
    isOpen := if payload < item.segment ∨ pushed then false else item.isOpen
    head := if pushed then item.head.set (item.ipLength + 13) (item.head.getD (item.ipLength + 13) 0 ||| kTcpPsh)
      else item.head }

/-- The item of a segment that later ones may join. -/
def opening (packet : Bytes) (part : σ) : Item σ :=
  let payload := packet.length - headersLength packet
  { head := packet.take (headersLength packet)
    payloads := [part]
    tcp := true
    ipv4 := isIpv4 packet
    ipLength := ipHeaderLength packet
    tcpLength := tcpHeaderLength packet
    segment := payload
    total := packet.length
    nextSequence := UInt32.ofNat ((word32 packet (ipHeaderLength packet + 4)).toNat + payload)
    isOpen := tcpFlags packet == kTcpAck }

/-- The item of a packet that is passed on as it is. -/
def whole (packet : Bytes) (part : σ) : Item σ := { payloads := [part], total := packet.length }

/-- The loop over the items, from the last one down to the first of the same flow. -/
def findFlow (items : List (Item σ)) (packet : Bytes) : ℕ → Option ℕ
  | 0 => none
  | index + 1 =>
    if items[index]?.any fun item => item.tcp && item.ipv4 == isIpv4 packet && item.sameFlow packet then some index
    else findFlow items packet index

/-- The item that a packet is appended to. -/
def target (items : List (Item σ)) (packet : Bytes) : Option ℕ :=
  if carriesData packet then
    (findFlow items packet items.length).filter fun index => items[index]?.any fun item => item.tryAppend packet
  else none

/-- What `add` does to the items: `part start` is what is kept of the packet, from `start` on. -/
def insert (items : List (Item σ)) (packet : Bytes) (part : ℕ → σ) : List (Item σ) :=
  if carriesData packet then
    match target items packet with
    | some index => items.modify index fun item => item.append packet (part (headersLength packet))
    | none => items ++ [opening packet (part (headersLength packet))]
  else items ++ [whole packet (part 0)]

def map (change : σ → τ) (item : Item σ) : Item τ := { item with payloads := item.payloads.map change }

end Item

/-- What the writer is given. -/
structure Frame where
  virtio : Bytes
  head : Bytes
  payloads : List Bytes
  deriving DecidableEq, Repr

def Frame.bytes (frame : Frame) : Bytes := frame.head ++ frame.payloads.flatten

/-- What a receiver of the frame makes of it: a merged one is segmented. -/
def Frame.packets (frame : Frame) : Option (List Bytes) :=
  let header := parseVirtioHeader frame.virtio
  if header.gsoType = kGsoNone then some [frame.bytes]
  else do
    let (expanded, packets) ← expandOffloaded header frame.bytes
    if expanded then some packets else none

/-- The header that goes with a merged item. -/
def Item.virtio {σ : Type} (item : Item σ) : VirtioHeader :=
  { flags := kVirtioNeedsChecksum
    gsoType := if item.ipv4 then kGsoTcpV4 else kGsoTcpV6
    headerLength := UInt16.ofNat (item.ipLength + item.tcpLength)
    gsoSize := UInt16.ofNat item.segment
    checksumStart := UInt16.ofNat item.ipLength
    checksumOffset := 16 }

/-- One round of the loop of `flush`. -/
def Item.frame (item : Item Bytes) : Option Frame :=
  let header := List.replicate kVirtioHeaderSize 0
  if !item.tcp ∨ item.payloads.length < 2 then some ⟨header, item.head, item.payloads⟩
  else do
    let head ← setIpLength item.head item.total
    let pseudo ← pseudoHeaderSum head kProtocolTcp (item.total - item.ipLength)
    let head ← store16 head (item.ipLength + 16) (foldChecksum pseudo)
    some ⟨writeVirtioHeader item.virtio header, head, item.payloads⟩

structure TcpCoalescer where
  items : List (Item Span) := []
  owned : List Bytes := []
  ownedUsed : ℕ := 0
  deriving DecidableEq, Repr

namespace TcpCoalescer

def retain (coalescer : TcpCoalescer) (packet : Bytes) (stable : Bool) : Span × TcpCoalescer :=
  if stable then (.borrowed packet, coalescer)
  else
    let owned := if coalescer.ownedUsed = coalescer.owned.length then coalescer.owned ++ [[]] else coalescer.owned
    (.owned coalescer.ownedUsed 0,
      { coalescer with owned := owned.set coalescer.ownedUsed packet, ownedUsed := coalescer.ownedUsed + 1 })

def add (coalescer : TcpCoalescer) (packet : Bytes) (stable : Bool) : TcpCoalescer :=
  let (kept, coalescer) := coalescer.retain packet stable
  { coalescer with items := Item.insert coalescer.items packet kept.subspan }

def addAll (coalescer : TcpCoalescer) (packets : List (Bytes × Bool)) : TcpCoalescer :=
  packets.foldl (fun coalescer packet => coalescer.add packet.1 packet.2) coalescer

/-- The items, with the octets that their spans refer to. -/
def view (coalescer : TcpCoalescer) : List (Item Bytes) :=
  coalescer.items.map (Item.map (Span.bytes coalescer.owned))

/-- The buffers stay for the next packets, which write over them. -/
def flush (coalescer : TcpCoalescer) : Option (List Frame × TcpCoalescer) := do
  let frames ← coalescer.view.mapM Item.frame
  some (frames, { coalescer with items := [], ownedUsed := 0 })

end TcpCoalescer

/-! The header of a frame -/

theorem little_octets (value : UInt16) :
    (value >>> 8).toUInt8.toUInt16 <<< 8 ||| (value &&& 0xFF).toUInt8.toUInt16 = value := by
  have words := Words.word16_setWord16 [0, 0] value (by decide : 0 + 1 < 2)
  exact words

theorem parse_write_virtio (header : VirtioHeader) {out : Bytes} (room : kVirtioHeaderSize ≤ out.length) :
    parseVirtioHeader (writeVirtioHeader header out) = header := by
  rw [writeVirtioHeader, if_neg (Nat.not_lt.mpr room), parseVirtioHeader, if_neg]
  · simp only [little, littleOctets, List.cons_append, List.nil_append, List.getD_cons_zero, List.getD_cons_succ,
      little_octets]
  · simp [littleOctets, kVirtioHeaderSize]

/-! The storage: what is kept of a packet stays as it was until the frames are written. -/

namespace Item

variable {σ τ : Type} (change : σ → τ)

theorem findFlow_map (items : List (Item σ)) (packet : Bytes) (bound : ℕ) :
    findFlow (items.map (map change)) packet bound = findFlow items packet bound := by
  induction bound with
  | zero => rfl
  | succ index ih =>
    rw [findFlow, findFlow, ih, List.getElem?_map, Option.any_map]
    rfl

theorem target_map (items : List (Item σ)) (packet : Bytes) :
    target (items.map (map change)) packet = target items packet := by
  have same (item : Item σ) : (item.map change).tryAppend packet = item.tryAppend packet := by
    simp only [tryAppend, map, List.length_map]
    rfl
  simp only [target, findFlow_map, List.length_map, List.getElem?_map, Option.any_map, same]

theorem insert_map (items : List (Item σ)) (packet : Bytes) (part : ℕ → σ) :
    (insert items packet part).map (map change) =
      insert (items.map (map change)) packet (fun start => change (part start)) := by
  have append (item : Item σ) : (item.append packet (part (headersLength packet))).map change =
      (item.map change).append packet (change (part (headersLength packet))) := by
    simp only [Item.append, map, List.map_append, List.map_singleton]
    rfl
  rw [insert, insert, target_map]
  split
  · split
    · apply List.ext_getElem?
      intro place
      rw [List.getElem?_map, List.getElem?_modify, List.getElem?_modify, List.getElem?_map]
      cases items[place]? with
      | none => rfl
      | some item =>
        split
        · exact congrArg some (append item)
        · rfl
    · rw [List.map_append]
      rfl
  · rw [List.map_append]
    rfl

end Item

/-- A span that stays what it is while buffers from `used` on are written. -/
def Span.Backed (used : ℕ) : Span → Prop
  | borrowed _ => True
  | owned buffer _ => buffer < used

theorem Span.Backed.bytes_eq {used : ℕ} {span : Span} (backed : span.Backed used) {before after : List Bytes}
    (same : ∀ buffer < used, after.getD buffer [] = before.getD buffer []) :
    span.bytes after = span.bytes before := by
  cases span with
  | borrowed bytes => rfl
  | owned buffer offset => rw [Span.bytes, Span.bytes, same buffer backed]

theorem Span.bytes_subspan (buffers : List Bytes) (span : Span) (start : ℕ) :
    (span.subspan start).bytes buffers = (span.bytes buffers).drop start := by
  cases span with
  | borrowed bytes => rfl
  | owned buffer offset => rw [Span.subspan, Span.bytes, Span.bytes, List.drop_drop]

namespace TcpCoalescer

/-- The spans of the items refer to buffers in use. -/
structure Backed (coalescer : TcpCoalescer) : Prop where
  used : coalescer.ownedUsed ≤ coalescer.owned.length
  spans : ∀ item ∈ coalescer.items, ∀ span ∈ item.payloads, span.Backed coalescer.ownedUsed

/-- What a packet that is kept leaves behind. -/
structure Kept (coalescer : TcpCoalescer) (packet : Bytes) (kept : Span) (after : TcpCoalescer) : Prop where
  items : after.items = coalescer.items
  bytes : kept.bytes after.owned = packet
  backed : kept.Backed after.ownedUsed
  grows : coalescer.ownedUsed ≤ after.ownedUsed
  used : after.ownedUsed ≤ after.owned.length
  same : ∀ buffer < coalescer.ownedUsed, after.owned.getD buffer [] = coalescer.owned.getD buffer []

theorem retain_kept {coalescer : TcpCoalescer} (used : coalescer.ownedUsed ≤ coalescer.owned.length) (packet : Bytes)
    (stable : Bool) :
    coalescer.Kept packet (coalescer.retain packet stable).1 (coalescer.retain packet stable).2 := by
  cases stable with
  | true => exact ⟨rfl, rfl, trivial, le_rfl, used, fun _ _ => rfl⟩
  | false =>
    set owned := if coalescer.ownedUsed = coalescer.owned.length then coalescer.owned ++ [[]]
      else coalescer.owned with buffers
    have room : coalescer.ownedUsed < owned.length := by
      rw [buffers]
      split
      · rw [List.length_append, List.length_singleton]
        omega
      · omega
    have early (buffer : ℕ) (low : buffer < coalescer.ownedUsed) :
        owned.getD buffer [] = coalescer.owned.getD buffer [] := by
      rw [buffers]
      split
      · exact List.getD_append _ _ _ _ (by omega)
      · rfl
    refine ⟨rfl, ?_, Nat.lt_succ_self _, Nat.le_succ _, ?_, ?_⟩
    · change ((owned.set coalescer.ownedUsed packet).getD coalescer.ownedUsed []).drop 0 = packet
      rw [List.getD_set_slot _ _ _ _ _ room, if_pos rfl, List.drop_zero]
    · change coalescer.ownedUsed + 1 ≤ (owned.set coalescer.ownedUsed packet).length
      rw [List.length_set]
      exact room
    · intro buffer low
      change (owned.set coalescer.ownedUsed packet).getD buffer [] = _
      rw [List.getD_set_slot _ _ _ _ _ room, if_neg low.ne', early buffer low]

theorem mem_insert {σ : Type} {items : List (Item σ)} {packet : Bytes} {part : ℕ → σ} {item : Item σ}
    (member : item ∈ Item.insert items packet part) {piece : σ} (here : piece ∈ item.payloads) :
    (∃ old ∈ items, piece ∈ old.payloads) ∨ ∃ start, piece = part start := by
  rw [Item.insert] at member
  split at member
  · split at member
    · obtain ⟨place, inside, rfl⟩ := List.mem_iff_getElem.mp member
      rw [List.getElem_modify] at here
      rw [List.length_modify] at inside
      split at here
      · rcases List.mem_append.mp here with old | new
        · exact Or.inl ⟨_, List.getElem_mem inside, old⟩
        · exact Or.inr ⟨_, List.mem_singleton.mp new⟩
      · exact Or.inl ⟨_, List.getElem_mem inside, here⟩
    · rcases List.mem_append.mp member with old | new
      · exact Or.inl ⟨item, old, here⟩
      · rw [List.mem_singleton.mp new] at here
        exact Or.inr ⟨_, List.mem_singleton.mp here⟩
  · rcases List.mem_append.mp member with old | new
    · exact Or.inl ⟨item, old, here⟩
    · rw [List.mem_singleton.mp new] at here
      exact Or.inr ⟨_, List.mem_singleton.mp here⟩

theorem Backed.add {coalescer : TcpCoalescer} (backed : coalescer.Backed) (packet : Bytes) (stable : Bool) :
    (coalescer.add packet stable).Backed := by
  have kept := retain_kept backed.used packet stable
  refine ⟨kept.used, ?_⟩
  intro item member span here
  change item ∈ Item.insert (coalescer.retain packet stable).2.items packet
    (coalescer.retain packet stable).1.subspan at member
  rcases mem_insert member here with ⟨old, known, inside⟩ | ⟨start, rfl⟩
  · rw [kept.items] at known
    have before := backed.spans old known span inside
    cases span with
    | borrowed bytes => trivial
    | owned buffer offset => exact lt_of_lt_of_le before kept.grows
  · have new := kept.backed
    revert new
    cases (coalescer.retain packet stable).1 with
    | borrowed bytes => exact fun _ => trivial
    | owned buffer offset => exact id

theorem Backed.view_add {coalescer : TcpCoalescer} (backed : coalescer.Backed) (packet : Bytes) (stable : Bool) :
    (coalescer.add packet stable).view = Item.insert coalescer.view packet packet.drop := by
  have kept := retain_kept backed.used packet stable
  change (Item.insert (coalescer.retain packet stable).2.items packet (coalescer.retain packet stable).1.subspan).map
    (Item.map (Span.bytes (coalescer.retain packet stable).2.owned)) = _
  rw [Item.insert_map, kept.items]
  simp only [Span.bytes_subspan, kept.bytes]
  congr 1
  apply List.map_congr_left
  intro item member
  rw [Item.map, Item.map]
  congr 1
  apply List.map_congr_left
  intro span inside
  exact (backed.spans item member span inside).bytes_eq kept.same

/-- A coalescer between two flushes, with the buffers of those before. -/
def flushed (buffers : List Bytes) : TcpCoalescer := { owned := buffers }

theorem backed_flushed (buffers : List Bytes) : (flushed buffers).Backed :=
  ⟨Nat.zero_le _, fun _ member => absurd member List.not_mem_nil⟩

end TcpCoalescer

/-- The items after the packets were added, without the storage. -/
def merged (packets : List Bytes) : List (Item Bytes) :=
  packets.foldl (fun items packet => Item.insert items packet packet.drop) []

/-- Whether a packet is copied or borrowed makes no difference to what is written. -/
theorem TcpCoalescer.view_addAll (buffers : List Bytes) (packets : List (Bytes × Bool)) :
    ((flushed buffers).addAll packets).view = merged (packets.map Prod.fst) := by
  have general (rest : List (Bytes × Bool)) (coalescer : TcpCoalescer) (backed : coalescer.Backed) :
      (coalescer.addAll rest).view =
        (rest.map Prod.fst).foldl (fun items packet => Item.insert items packet packet.drop) coalescer.view := by
    induction rest generalizing coalescer with
    | nil => rfl
    | cons packet rest ih =>
      rw [List.map_cons, List.foldl_cons, ← backed.view_add packet.1 packet.2]
      exact ih _ (backed.add packet.1 packet.2)
  exact general packets _ (backed_flushed buffers)

theorem TcpCoalescer.flush_addAll (buffers : List Bytes) (packets : List (Bytes × Bool)) :
    ((flushed buffers).addAll packets).flush.map Prod.fst = (merged (packets.map Prod.fst)).mapM Item.frame := by
  rw [flush, view_addAll]
  cases (merged (packets.map Prod.fst)).mapM Item.frame with
  | none => rfl
  | some frames => rfl

end Norr.Offload
