import Norr.Common
import Norr.Fec.Encoder

/-! The decoder: outstanding blocks, the elimination that rebuilds lost packets and
the list of finished blocks. -/

namespace Norr.Fec

def kMaximumOutstandingBlocks : ℕ := 128

def kFecRecoveryDeadline : Duration := milliseconds 250

structure Block where
  id : UInt32
  dataCount : ℕ
  parityCount : ℕ
  dataReceived : ℕ := 0
  data : List Bytes
  parity : List Bytes
  created : Instant

structure FecDecoder where
  blocks : List Block := []
  finished : List UInt32 := []

/-- One row of the system in `try_recover`: its part of `matrix` and of `syndrome`. -/
structure Equation (n : ℕ) where
  coefficients : Vector UInt8 n
  syndrome : Bytes

namespace Equation

variable {n : ℕ}

def pivotRow (rows : Vector (Equation n) n) (column : Fin n) : Option (Fin n) :=
  (List.finRange n).find? fun r => column ≤ r ∧ (rows.get r).coefficients.get column ≠ 0

def swapRows (rows : Vector (Equation n) n) (pivot column : Fin n) : Vector (Equation n) n :=
  Vector.ofFn fun r => rows.get (Equiv.swap pivot column r)

def normalizeRow (rows : Vector (Equation n) n) (column : Fin n) : Vector (Equation n) n :=
  let factor := inverse ((rows.get column).coefficients.get column)
  Vector.ofFn fun r =>
    if r = column then
      ⟨Vector.ofFn fun c => multiply ((rows.get column).coefficients.get c) factor,
        scale (rows.get column).syndrome factor⟩
    else rows.get r

def eliminateColumn (rows : Vector (Equation n) n) (column : Fin n) : Vector (Equation n) n :=
  Vector.ofFn fun r =>
    let coefficient := (rows.get r).coefficients.get column
    if r = column ∨ coefficient = 0 then rows.get r
    else
      ⟨Vector.ofFn fun c => (rows.get r).coefficients.get c ^^^
          multiply coefficient ((rows.get column).coefficients.get c),
        multiplyAdd (rows.get r).syndrome (rows.get column).syndrome coefficient⟩

def solve (rows : Vector (Equation n) n) : Option (Vector (Equation n) n) :=
  (List.finRange n).foldlM (fun current column =>
    (pivotRow current column).map fun pivot =>
      eliminateColumn (normalizeRow (swapRows current pivot column) column) column) rows

end Equation

/-- The packet in front of a rebuilt symbol, by the length it starts with. -/
def unprefixed (symbol : Bytes) : Option Bytes :=
  if symbol.length < kFecLengthPrefix then none
  else
    let length := ByteOrder.ofBigEndian (symbol.take kFecLengthPrefix)
    if length = 0 ∨ kFecLengthPrefix + length > symbol.length then none
    else some ((symbol.drop kFecLengthPrefix).take length)

namespace Block

def missing (block : Block) : List ℕ :=
  (List.range block.dataCount).filter fun index => block.data.getD index [] = []

def rows (block : Block) : List ℕ :=
  (List.range block.parityCount).filter fun index => block.parity.getD index [] ≠ []

def syndrome (block : Block) (row : ℕ) : Bytes :=
  (List.range block.dataCount).foldl (fun sum index =>
    if block.data.getD index [] = [] then sum
    else multiplyAdd sum (block.data.getD index []) (cauchy row index)) (block.parity.getD row [])

def equations (block : Block) (rows missing : List ℕ) (n : ℕ) : Vector (Equation n) n :=
  Vector.ofFn fun r =>
    ⟨Vector.ofFn fun c => cauchy (rows.getD r 0) (missing.getD c 0), block.syndrome (rows.getD r 0)⟩

/-- What `try_recover` computes before it touches the decoder. -/
def recover (block : Block) : Option (List Bytes) :=
  let missing := block.missing
  if missing = [] ∨ block.rows.length < missing.length then none
  else
    let rows := block.rows.take missing.length
    let width := (block.parity.getD (rows.headD 0) []).length
    if rows.any fun row => (block.parity.getD row []).length ≠ width then none
    else if block.data.any fun symbol => symbol.length > width then none
    else if missing.length > kMaximumFecParity then none
    else
      (Equation.solve (block.equations rows missing missing.length)).map fun solved =>
        solved.toList.filterMap fun row => unprefixed row.syndrome

/-- A parity symbol of a block that was closed early shrinks the block. -/
def shrink (block : Block) (size : ℕ) : Block :=
  if size < block.dataCount then
    { block with
      dataReceived := block.dataReceived - ((block.data.drop size).filter fun symbol => symbol ≠ []).length
      dataCount := size
      data := block.data.take size }
  else block

/-- Stores a symbol; `false` when the slot is taken or out of the block. -/
def store (block : Block) (header : FecSymbolHeader) (payload : Bytes) : Block × Bool :=
  let index := header.index.toNat
  if header.parity then
    let shrunk := block.shrink header.blockSize.toNat
    if shrunk.parity.getD index [] ≠ [] then (shrunk, false)
    else ({ shrunk with parity := shrunk.parity.set index payload }, true)
  else if index ≥ block.dataCount then (block, false)
  else if block.data.getD index [] ≠ [] then (block, false)
  else
    ({ block with data := block.data.set index (lengthPrefixed payload)
                  dataReceived := block.dataReceived + 1 }, true)

end Block

namespace FecDecoder

def trimmed (finished : List UInt32) : List UInt32 :=
  finished.drop (finished.length - kMaximumOutstandingBlocks * 2)

def finish (decoder : FecDecoder) (id : UInt32) : FecDecoder :=
  { blocks := decoder.blocks.filter fun block => block.id ≠ id
    finished := trimmed (decoder.finished ++ [id]) }

def findOrCreate (decoder : FecDecoder) (header : FecSymbolHeader) (now : Instant) : FecDecoder × Block :=
  match decoder.blocks.find? fun block => block.id = header.blockId with
  | some block => (decoder, block)
  | none =>
    let kept := if decoder.blocks.length ≥ kMaximumOutstandingBlocks then decoder.blocks.drop 1
      else decoder.blocks
    let block : Block :=
      { id := header.blockId
        dataCount := header.blockSize.toNat
        parityCount := header.parityCount.toNat
        data := List.replicate header.blockSize.toNat []
        parity := List.replicate header.parityCount.toNat []
        created := now }
    ({ decoder with blocks := kept ++ [block] }, block)

/-- Writes a block back in the place it was found in. -/
def replaceBlock (block : Block) : List Block → List Block
  | [] => []
  | old :: rest => if old.id = block.id then block :: rest else old :: replaceBlock block rest

def tryRecover (decoder : FecDecoder) (block : Block) : FecDecoder × List Bytes :=
  match block.recover with
  | none => (decoder, [])
  | some packets => (decoder.finish block.id, packets)

/-- The end of `receive`, once a symbol has been stored in `block`. -/
def settle (decoder : FecDecoder) (block : Block) : FecDecoder × List Bytes :=
  if block.dataReceived = block.dataCount then (decoder.finish block.id, [])
  else decoder.tryRecover block

def receive (decoder : FecDecoder) (header : FecSymbolHeader) (payload : Bytes) (now : Instant) :
    FecDecoder × List Bytes :=
  if decoder.finished.contains header.blockId then (decoder, [])
  else
    let (opened, block) := decoder.findOrCreate header now
    if block.parityCount ≠ header.parityCount.toNat then (opened, [])
    else
      let (updated, stored) := block.store header payload
      let written := { opened with blocks := replaceBlock updated opened.blocks }
      if stored = false then (written, []) else written.settle updated

def expire (decoder : FecDecoder) (now : Instant) : FecDecoder × ℕ :=
  let old := fun block : Block => decide (now - block.created ≥ kFecRecoveryDeadline)
  let removed := decoder.blocks.takeWhile old
  ({ blocks := decoder.blocks.dropWhile old
     finished := trimmed (decoder.finished ++ removed.map Block.id) }, removed.length)

end FecDecoder

end Norr.Fec
