import Norr.Fec.Field

/-! Forward error correction: the plan, the symbol header and the encoder. -/

namespace Norr.Fec

open ByteOrder

def kMaximumFecLanes : ℕ := 4

instance lanes_ne_zero : NeZero 4 := ⟨by decide⟩

def kFecLengthPrefix : ℕ := 2

def kFecHeaderSize : ℕ := 11

def kFecTag : UInt8 := 0x16

def kFecTargetBlockFailure : Float := 1e-3

inductive FecMode
  | off
  | light
  | moderate
  | aggressive
  | automatic
  deriving DecidableEq, Repr

def blockSizeFor : FecMode → ℕ
  | .light => 16
  | .moderate => 10
  | .aggressive => 8
  | _ => 0

def parityCountFor : FecMode → ℕ
  | .light => 2
  | .moderate => 3
  | .aggressive => 4
  | _ => 0

structure FecPlan where
  data : ℕ := 0
  parity : ℕ := 0
  lanes : ℕ := 1
  loss : Float := 0.0

def planForMode (mode : FecMode) : FecPlan :=
  { data := blockSizeFor mode, parity := parityCountFor mode }

def FecPlan.active (plan : FecPlan) : Bool := plan.data > 0 && plan.parity > 0

/-- The probability that at most `rows` of `total` symbols are lost, summed as the code does. -/
def covered (total rows : ℕ) (p odds : Float) : Float :=
  let start := (1.0 - p) ^ Float.ofNat total
  let sums := (List.range rows).foldl (fun (sum : Float × Float) lost =>
    let term := sum.1 * (Float.ofNat (total - lost) / Float.ofNat (lost + 1) * odds)
    (term, sum.2 + term)) (start, start)
  sums.2

def clamp (value low high : Float) : Float :=
  if value < low then low else if high < value then high else value

def parityNeeded (data : ℕ) (loss : Float) (limit : ℕ) : ℕ :=
  if data = 0 ∨ limit = 0 then 0
  else
    let p := clamp loss 0.0 0.5
    if p ≤ 0.0 then limit
    else
      let odds := p / (1.0 - p)
      ((List.range' 1 (limit - 1)).find? fun rows =>
        1.0 - covered (data + rows) rows p odds ≤ kFecTargetBlockFailure).getD limit

structure FecSymbolHeader where
  blockId : UInt32
  index : UInt8
  blockSize : UInt8
  parityCount : UInt8
  parity : Bool
  originalLength : UInt16
  deriving DecidableEq, Repr

def serializeFecHeader (header : FecSymbolHeader) : Bytes :=
  [kFecTag] ++ ByteOrder.bigEndian 4 header.blockId.toNat ++
    [header.index, header.blockSize, header.parityCount, if header.parity then 1 else 0] ++
    ByteOrder.bigEndian 2 header.originalLength.toNat

def looksLikeFecSymbol (bytes : Bytes) : Bool := bytes.head? == some kFecTag

def parseFecHeader (bytes : Bytes) : Option FecSymbolHeader :=
  if bytes.length < kFecHeaderSize then none
  else if bytes.getD 0 0 ≠ kFecTag then none
  else
    let flags := bytes.getD 8 0
    if flags &&& 0xFE ≠ 0 then none
    else
      let header : FecSymbolHeader :=
        { blockId := UInt32.ofNat (ByteOrder.ofBigEndian (ByteOrder.slice bytes 1 4))
          index := bytes.getD 5 0
          blockSize := bytes.getD 6 0
          parityCount := bytes.getD 7 0
          parity := flags &&& 1 ≠ 0
          originalLength := UInt16.ofNat (ByteOrder.ofBigEndian (ByteOrder.slice bytes 9 2)) }
      if header.blockSize.toNat = 0 ∨ header.blockSize.toNat > kMaximumFecData then none
      else if header.parityCount.toNat = 0 ∨ header.parityCount.toNat > kMaximumFecParity then none
      else if (if header.parity then header.index ≥ header.parityCount
        else header.index ≥ header.blockSize) then none
      else some header

structure Lane where
  blockId : UInt32 := 0
  index : ℕ := 0
  width : ℕ := 0
  parity : List Bytes := []

structure FecEncoder where
  plan : FecPlan := {}
  lanes : Fin 4 → Lane := fun _ => {}
  cursor : Fin 4 := 0
  nextBlock : UInt32 := 0

/-- The bytes the code runs over: the packet behind its length. -/
def lengthPrefixed (packet : Bytes) : Bytes := ByteOrder.bigEndian 2 packet.length ++ packet

namespace Lane

def widen (lane : Lane) (length : ℕ) : Lane :=
  if length > lane.width then
    { lane with width := length
                parity := lane.parity.map fun row => row ++ List.replicate (length - row.length) 0 }
  else lane

def absorb (lane : Lane) (packet : Bytes) : Lane :=
  let widened := lane.widen (kFecLengthPrefix + packet.length)
  { widened with
    index := lane.index + 1
    parity := widened.parity.mapIdx fun row bytes =>
      multiplyAdd bytes (lengthPrefixed packet) (cauchy row lane.index) }

end Lane

namespace FecEncoder

def configure (encoder : FecEncoder) (plan : FecPlan) : FecEncoder :=
  let limited : FecPlan :=
    { plan with data := min plan.data kMaximumFecData
                parity := min plan.parity kMaximumFecParity
                lanes := min (max plan.lanes 1) kMaximumFecLanes }
  let chosen : FecPlan := if limited.active then limited else {}
  { plan := chosen
    cursor := 0
    lanes := fun lane =>
      { blockId := encoder.nextBlock + UInt32.ofNat lane, parity := List.replicate chosen.parity [] }
    nextBlock := encoder.nextBlock + UInt32.ofNat kMaximumFecLanes }

def resumeAt (encoder : FecEncoder) (blockId : UInt32) : FecEncoder :=
  (List.finRange 4).foldl (fun current lane =>
    if (current.lanes lane).index = 0 then
      { current with
        lanes := Function.update current.lanes lane
          { current.lanes lane with blockId := current.nextBlock }
        nextBlock := current.nextBlock + 1 }
    else current) { encoder with nextBlock := blockId }

def nextHeader (encoder : FecEncoder) (sealedLength : ℕ) : FecSymbolHeader :=
  let lane := encoder.lanes encoder.cursor
  { blockId := lane.blockId
    index := UInt8.ofNat lane.index
    blockSize := UInt8.ofNat encoder.plan.data
    parityCount := UInt8.ofNat encoder.plan.parity
    parity := false
    originalLength := UInt16.ofNat sealedLength }

def paritySymbol (encoder : FecEncoder) (lane : Lane) (row : ℕ) : Bytes :=
  serializeFecHeader
    { blockId := lane.blockId
      index := UInt8.ofNat row
      blockSize := UInt8.ofNat lane.index
      parityCount := UInt8.ofNat encoder.plan.parity
      parity := true
      originalLength := UInt16.ofNat lane.width } ++ lane.parity.getD row []

def emit (encoder : FecEncoder) (lane : Fin 4) (rows : ℕ) : FecEncoder × List Bytes :=
  let current := encoder.lanes lane
  let fresh : Lane :=
    { blockId := encoder.nextBlock, parity := current.parity.map fun _ => [] }
  ({ encoder with lanes := Function.update encoder.lanes lane fresh
                  nextBlock := encoder.nextBlock + 1 },
    (List.range rows).map (encoder.paritySymbol current))

def add (encoder : FecEncoder) (packet : Bytes) : FecEncoder × List Bytes :=
  if encoder.plan.active = false ∨ packet.length > 0xFFFF then (encoder, [])
  else
    let lane := encoder.cursor
    let absorbed := (encoder.lanes lane).absorb packet
    let advanced :=
      { encoder with lanes := Function.update encoder.lanes lane absorbed
                     cursor := Fin.ofNat 4 ((encoder.cursor.val + 1) % encoder.plan.lanes) }
    if absorbed.index ≥ encoder.plan.data then advanced.emit lane encoder.plan.parity
    else (advanced, [])

def flushRows (encoder : FecEncoder) (lane : Fin 4) : ℕ :=
  if encoder.plan.loss > 0.0 then
    parityNeeded (encoder.lanes lane).index encoder.plan.loss encoder.plan.parity
  else encoder.plan.parity

def flushLane (encoder : FecEncoder) (lane : Fin 4) : FecEncoder × List Bytes :=
  if (encoder.lanes lane).index = 0 then (encoder, []) else encoder.emit lane (encoder.flushRows lane)

/-- The lanes the loops over `plan_.lanes` visit. -/
def usedLanes (encoder : FecEncoder) : List (Fin 4) :=
  (List.finRange 4).filter (fun lane => lane.val < encoder.plan.lanes)

def flush (encoder : FecEncoder) : FecEncoder × List Bytes :=
  if encoder.plan.active = false then (encoder, [])
  else
    let (flushed, output) := encoder.usedLanes.foldl (fun (state : FecEncoder × List Bytes) lane =>
      let (next, symbols) := state.1.flushLane lane
      (next, state.2 ++ symbols)) (encoder, [])
    ({ flushed with cursor := 0 }, output)

def pending (encoder : FecEncoder) : ℕ :=
  (encoder.usedLanes.map fun lane => (encoder.lanes lane).index).sum

end FecEncoder

theorem serializeFecHeader_length (header : FecSymbolHeader) :
    (serializeFecHeader header).length = kFecHeaderSize := by
  simp [serializeFecHeader, kFecHeaderSize]

/-- The headers a sender may write: those the parser lets through. -/
structure FecSymbolHeader.Valid (header : FecSymbolHeader) : Prop where
  someData : 0 < header.blockSize.toNat
  dataLimit : header.blockSize.toNat ≤ kMaximumFecData
  someParity : 0 < header.parityCount.toNat
  parityLimit : header.parityCount.toNat ≤ kMaximumFecParity
  inside : header.index < if header.parity then header.parityCount else header.blockSize

theorem parse_serialize (header : FecSymbolHeader) (valid : header.Valid) (payload : Bytes) :
    parseFecHeader (serializeFecHeader header ++ payload) = some header := by
  obtain ⟨someData, dataLimit, someParity, parityLimit, inside⟩ := valid
  set bytes := serializeFecHeader header ++ payload
  have id : slice bytes 1 4 = bigEndian 4 header.blockId.toNat := rfl
  have length : slice bytes 9 2 = bigEndian 2 header.originalLength.toNat := rfl
  have long : ¬ bytes.length < kFecHeaderSize := by
    rw [List.length_append, serializeFecHeader_length]
    omega
  have tag : bytes.getD 0 0 = kFecTag := rfl
  have index : bytes.getD 5 0 = header.index := rfl
  have size : bytes.getD 6 0 = header.blockSize := rfl
  have count : bytes.getD 7 0 = header.parityCount := rfl
  have flags : bytes.getD 8 0 = if header.parity then 1 else 0 := rfl
  have present : ¬ (header.blockSize.toNat = 0 ∨ header.blockSize.toNat > kMaximumFecData) := by omega
  have covers : ¬ (header.parityCount.toNat = 0 ∨ header.parityCount.toNat > kMaximumFecParity) := by omega
  have clear : (if header.parity then (1 : UInt8) else 0) &&& 0xFE = 0 := by
    cases header.parity <;> decide
  have kind : decide ((if header.parity then (1 : UInt8) else 0) &&& 1 ≠ 0) = header.parity := by
    cases header.parity <;> decide
  have legal : ¬ if header.parity then header.index ≥ header.parityCount else header.index ≥ header.blockSize := by
    split_ifs at inside ⊢
    · exact UInt8.not_le.mpr inside
    · exact UInt8.not_le.mpr inside
  unfold parseFecHeader
  rw [if_neg long, tag, if_neg (by simp)]
  simp only [flags, index, size, count, id, length, ofBigEndian_bigEndian 4 _ header.blockId.toNat_lt,
    ofBigEndian_bigEndian 2 _ header.originalLength.toNat_lt, UInt32.ofNat_toNat, UInt16.ofNat_toNat, kind]
  rw [if_neg (not_not.mpr clear), if_neg present, if_neg covers, if_neg legal]

theorem parityNeeded_bounds (data : ℕ) (loss : Float) (limit : ℕ) (someData : data ≠ 0)
    (someLimit : limit ≠ 0) : 0 < parityNeeded data loss limit ∧ parityNeeded data loss limit ≤ limit := by
  unfold parityNeeded
  rw [if_neg (by simp [someData, someLimit])]
  simp only
  split_ifs
  · omega
  · cases found : (List.range' 1 (limit - 1)).find? fun rows =>
        1.0 - covered (data + rows) rows (clamp loss 0.0 0.5)
          (clamp loss 0.0 0.5 / (1.0 - clamp loss 0.0 0.5)) ≤ kFecTargetBlockFailure with
    | none =>
      rw [Option.getD_none]
      omega
    | some rows =>
      have member := List.mem_of_find?_eq_some found
      rw [List.mem_range'_1] at member
      rw [Option.getD_some]
      omega

end Norr.Fec
