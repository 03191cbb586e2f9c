import Norr.Fec.Encoder

/-! Runs of the encoder: which packets each block was made of, and that its parity
symbols are the code words of those packets. -/

namespace Norr.Fec

/-- A block the encoder has closed: its packets, each under the header it was sent with,
and the parity symbols made for it. -/
structure EncodedBlock where
  id : UInt32
  data : List (FecSymbolHeader × Bytes)
  parity : List Bytes

def EncodedBlock.packets (block : EncodedBlock) : List Bytes := block.data.map Prod.snd

structure Encoding where
  encoder : FecEncoder
  pending : Fin 4 → List (FecSymbolHeader × Bytes) := fun _ => []
  blocks : List EncodedBlock := []

inductive FecStep
  | packet (bytes : Bytes)
  | flush

namespace Encoding

def close (run : Encoding) (lane : Fin 4) (encoder : FecEncoder) (symbols : List Bytes) : Encoding :=
  { encoder
    pending := Function.update run.pending lane []
    blocks := run.blocks ++ [⟨(run.encoder.lanes lane).blockId, run.pending lane, symbols⟩] }

def packet (run : Encoding) (bytes : Bytes) : Encoding :=
  let lane := run.encoder.cursor
  let entry := (run.encoder.nextHeader bytes.length, bytes)
  let recorded := { run with pending := Function.update run.pending lane (run.pending lane ++ [entry]) }
  let (encoder, output) := run.encoder.add bytes
  if output = [] then { recorded with encoder } else recorded.close lane encoder output

def flushLane (run : Encoding) (lane : Fin 4) : Encoding :=
  let (encoder, symbols) := run.encoder.flushLane lane
  if symbols = [] then { run with encoder } else run.close lane encoder symbols

def flush (run : Encoding) : Encoding :=
  if run.encoder.plan.active = false then run
  else
    let flushed := run.encoder.usedLanes.foldl flushLane run
    { flushed with encoder := { flushed.encoder with cursor := 0 } }

def step (run : Encoding) : FecStep → Encoding
  | .packet bytes => run.packet bytes
  | .flush => run.flush

end Encoding

def encode (plan : FecPlan) (steps : List FecStep) : Encoding :=
  steps.foldl Encoding.step { encoder := FecEncoder.configure {} plan }

/-- What the encoder returns for a step. -/
def FecStep.output (encoder : FecEncoder) : FecStep → FecEncoder × List Bytes
  | .packet bytes => encoder.add bytes
  | .flush => encoder.flush

theorem Encoding.flushLane_output (run : Encoding) (lane : Fin 4) :
    (run.flushLane lane).encoder = (run.encoder.flushLane lane).1 ∧
      (run.flushLane lane).blocks.flatMap EncodedBlock.parity =
        run.blocks.flatMap EncodedBlock.parity ++ (run.encoder.flushLane lane).2 := by
  unfold Encoding.flushLane
  by_cases silent : (run.encoder.flushLane lane).2 = []
  · simp [silent]
  · simp [silent, Encoding.close]

/-- The blocks recorded in a step hold exactly the symbols the encoder returned in it. -/
theorem Encoding.step_output (run : Encoding) (action : FecStep) :
    (run.step action).encoder = (action.output run.encoder).1 ∧
      (run.step action).blocks.flatMap EncodedBlock.parity =
        run.blocks.flatMap EncodedBlock.parity ++ (action.output run.encoder).2 := by
  cases action with
  | packet bytes =>
    simp only [Encoding.step, Encoding.packet, FecStep.output]
    by_cases silent : (run.encoder.add bytes).2 = []
    · simp [silent]
    · simp [silent, Encoding.close]
  | flush =>
    simp only [Encoding.step, Encoding.flush, FecStep.output, FecEncoder.flush]
    by_cases idle : run.encoder.plan.active = false
    · simp [idle]
    have general : ∀ (lanes : List (Fin 4)) (current : Encoding) (output : List Bytes),
        let folded := lanes.foldl (fun (state : FecEncoder × List Bytes) lane =>
          ((state.1.flushLane lane).1, state.2 ++ (state.1.flushLane lane).2)) (current.encoder, output)
        current.blocks.flatMap EncodedBlock.parity = run.blocks.flatMap EncodedBlock.parity ++ output →
          (lanes.foldl Encoding.flushLane current).encoder = folded.1 ∧
            (lanes.foldl Encoding.flushLane current).blocks.flatMap EncodedBlock.parity =
              run.blocks.flatMap EncodedBlock.parity ++ folded.2 := by
      intro lanes
      induction lanes with
      | nil => exact fun current output same => ⟨rfl, same⟩
      | cons lane lanes ih =>
        intro current output folded same
        obtain ⟨encoder, symbols⟩ := current.flushLane_output lane
        have rest := ih (current.flushLane lane) (output ++ (current.encoder.flushLane lane).2)
          (by rw [symbols, same, List.append_assoc])
        simpa only [folded, List.foldl_cons, encoder] using rest
    have whole := general run.encoder.usedLanes run [] (by simp)
    rw [if_neg idle, if_neg idle]
    exact ⟨by rw [whole.1], whole.2⟩

/-- What one packet adds to a parity row. -/
def term (packets : List Bytes) (row index : ℕ) : ℕ → Gf256 :=
  (⟨cauchy row index⟩ : Gf256) • vec (lengthPrefixed (packets.getD index []))

/-- The parity row of a list of packets, as a vector. -/
def codeword (packets : List Bytes) (row : ℕ) : ℕ → Gf256 :=
  ((List.range packets.length).map (term packets row)).sum

theorem codeword_append (packets : List Bytes) (packet : Bytes) (row : ℕ) :
    codeword (packets ++ [packet]) row =
      codeword packets row + (⟨cauchy row packets.length⟩ : Gf256) • vec (lengthPrefixed packet) := by
  have last : term (packets ++ [packet]) row packets.length =
      (⟨cauchy row packets.length⟩ : Gf256) • vec (lengthPrefixed packet) := by
    simp [term, List.getD_eq_getElem?_getD]
  have front : (List.range packets.length).map (term (packets ++ [packet]) row) =
      (List.range packets.length).map (term packets row) := by
    apply List.map_congr_left
    intro index member
    rw [term, term, List.getD_append _ _ _ _ (List.mem_range.mp member)]
  rw [codeword, List.length_append, List.length_singleton, List.range_succ, List.map_append,
    List.sum_append, front, List.map_singleton, List.sum_singleton, last]
  rfl

theorem lengthPrefixed_length (packet : Bytes) :
    (lengthPrefixed packet).length = kFecLengthPrefix + packet.length := by
  simp [lengthPrefixed, kFecLengthPrefix]

/-- A lane holds the code words of the packets it has taken so far. -/
structure Lane.Encodes (lane : Lane) (parity : ℕ) (packets : List Bytes) : Prop where
  index : lane.index = packets.length
  rows : lane.parity.length = parity
  widths : ∀ row ∈ lane.parity, row.length = lane.width
  fits : ∀ packet ∈ packets, kFecLengthPrefix + packet.length ≤ lane.width
  codes : ∀ row < parity, vec (lane.parity.getD row []) = codeword packets row

theorem encodes_blank (blockId : UInt32) (rows : List Bytes) (blank : ∀ row ∈ rows, row = []) :
    Lane.Encodes { blockId, parity := rows } rows.length [] where
  index := rfl
  rows := rfl
  widths := fun row member => by rw [blank row member]; rfl
  fits := by simp
  codes := by
    intro row bound
    have empty : rows.getD row [] = [] := by
      rw [List.getD_eq_getElem _ _ bound]
      exact blank _ (List.getElem_mem bound)
    change vec (rows.getD row []) = _
    rw [empty, vec_nil]
    rfl

theorem Lane.Encodes.widen {lane : Lane} {parity : ℕ} {packets : List Bytes}
    (encodes : lane.Encodes parity packets) (length : ℕ) :
    (lane.widen length).Encodes parity packets ∧ length ≤ (lane.widen length).width := by
  unfold Lane.widen
  by_cases wider : length > lane.width
  · rw [if_pos wider]
    refine ⟨⟨encodes.index, ?_, ?_, ?_, ?_⟩, le_rfl⟩
    · rw [List.length_map, encodes.rows]
    · intro row member
      obtain ⟨old, present, rfl⟩ := List.mem_map.mp member
      have width := encodes.widths old present
      simp only [List.length_append, List.length_replicate]
      omega
    · intro packet member
      exact (encodes.fits packet member).trans wider.le
    · intro row bound
      rw [← encodes.rows] at bound
      rw [← encodes.codes row (encodes.rows ▸ bound)]
      simp only [List.getD_eq_getElem?_getD, List.getElem?_map, List.getElem?_eq_getElem bound,
        Option.map_some, Option.getD_some]
      exact vec_append_zeros _ _
  · rw [if_neg wider]
    exact ⟨encodes, not_lt.mp wider⟩

theorem Lane.Encodes.absorb {lane : Lane} {parity : ℕ} {packets : List Bytes}
    (encodes : lane.Encodes parity packets) (packet : Bytes) :
    (lane.absorb packet).Encodes parity (packets ++ [packet]) := by
  obtain ⟨widened, wide⟩ := encodes.widen (kFecLengthPrefix + packet.length)
  refine ⟨?_, ?_, ?_, ?_, ?_⟩
  · simp [Lane.absorb, encodes.index]
  · simp [Lane.absorb, widened.rows]
  · intro row member
    obtain ⟨index, bound, rfl⟩ := List.mem_mapIdx.mp member
    rw [multiplyAdd_length]
    exact widened.widths _ (List.getElem_mem _)
  · intro other member
    rcases List.mem_append.mp member with old | new
    · exact widened.fits other old
    · rw [List.mem_singleton.mp new]
      exact wide
  · intro row bound
    rw [← widened.rows] at bound
    have known := widened.codes row (widened.rows ▸ bound)
    have width := widened.widths _ (List.getElem_mem bound)
    rw [List.getD_eq_getElem _ _ bound] at known
    rw [codeword_append, ← known, ← encodes.index]
    simp only [Lane.absorb, List.getD_eq_getElem?_getD, List.getElem?_mapIdx,
      List.getElem?_eq_getElem bound, Option.map_some, Option.getD_some]
    apply vec_multiplyAdd
    rw [lengthPrefixed_length, width]
    exact wide

def dataHeader (plan : FecPlan) (id : UInt32) (index length : ℕ) : FecSymbolHeader :=
  { blockId := id
    index := UInt8.ofNat index
    blockSize := UInt8.ofNat plan.data
    parityCount := UInt8.ofNat plan.parity
    parity := false
    originalLength := UInt16.ofNat length }

def parityHeader (plan : FecPlan) (id : UInt32) (count width row : ℕ) : FecSymbolHeader :=
  { blockId := id
    index := UInt8.ofNat row
    blockSize := UInt8.ofNat count
    parityCount := UInt8.ofNat plan.parity
    parity := true
    originalLength := UInt16.ofNat width }

/-- Packets the encoder is meant for: not empty, and short enough for the length prefix. -/
def Sendable (packet : Bytes) : Prop := packet ≠ [] ∧ packet.length ≤ 65533

structure Headed (plan : FecPlan) (id : UInt32) (entries : List (FecSymbolHeader × Bytes)) : Prop where
  header : ∀ index (bound : index < entries.length),
    entries[index].1 = dataHeader plan id index entries[index].2.length
  sendable : ∀ entry ∈ entries, Sendable entry.2

variable {plan : FecPlan} {run : Encoding}

theorem headed_append {id : UInt32} {entries : List (FecSymbolHeader × Bytes)} (headed : Headed plan id entries)
    (packet : Bytes) (sendable : Sendable packet) :
    Headed plan id (entries ++ [(dataHeader plan id entries.length packet.length, packet)]) where
  header := by
    intro index bound
    rw [List.getElem_append]
    by_cases old : index < entries.length
    · rw [dif_pos old]
      exact headed.header index old
    · have last : index = entries.length := by
        rw [List.length_append, List.length_singleton] at bound
        omega
      subst last
      simp
  sendable := by
    intro entry member
    rcases List.mem_append.mp member with old | new
    · exact headed.sendable entry old
    · rw [List.mem_singleton.mp new]
      exact sendable

/-- A closed block carries the code words of its packets. -/
structure EncodedBlock.Coded (plan : FecPlan) (block : EncodedBlock) (width : ℕ) : Prop where
  headed : Headed plan block.id block.data
  someData : 0 < block.data.length
  dataLimit : block.data.length ≤ plan.data
  someParity : 0 < block.parity.length
  parityLimit : block.parity.length ≤ plan.parity
  fits : ∀ packet ∈ block.packets, kFecLengthPrefix + packet.length ≤ width
  symbol : ∀ row (bound : row < block.parity.length), ∃ payload : Bytes,
    block.parity[row] = serializeFecHeader (parityHeader plan block.id block.data.length width row) ++ payload ∧
      payload.length = width ∧ vec payload = codeword block.packets row

/-- The plans the encoder is given: one shape within the limits of the code. -/
structure FecPlan.Valid (plan : FecPlan) : Prop where
  someData : 0 < plan.data
  dataLimit : plan.data ≤ kMaximumFecData
  someParity : 0 < plan.parity
  parityLimit : plan.parity ≤ kMaximumFecParity
  someLanes : 0 < plan.lanes
  lanesLimit : plan.lanes ≤ kMaximumFecLanes

structure Encoding.Sound (plan : FecPlan) (run : Encoding) : Prop where
  planned : run.encoder.plan = plan
  lanes : ∀ lane, (run.encoder.lanes lane).Encodes plan.parity ((run.pending lane).map Prod.snd)
  within : ∀ lane, (run.pending lane).length ≤ plan.data
  headed : ∀ lane, Headed plan (run.encoder.lanes lane).blockId (run.pending lane)
  blocks : ∀ block ∈ run.blocks, ∃ width, block.Coded plan width

/-- Between steps every lane has room for one more packet. -/
structure Encoding.Ready (plan : FecPlan) (run : Encoding) : Prop extends run.Sound plan where
  unfilled : ∀ lane, (run.pending lane).length < plan.data

theorem FecPlan.Valid.active (valid : plan.Valid) : plan.active = true := by
  simp [FecPlan.active, valid.someData, valid.someParity]

theorem configure_plan (valid : plan.Valid) (encoder : FecEncoder) : (encoder.configure plan).plan = plan := by
  have same : ({ plan with data := min plan.data kMaximumFecData
                           parity := min plan.parity kMaximumFecParity
                           lanes := min (max plan.lanes 1) kMaximumFecLanes } : FecPlan) = plan := by
    rw [min_eq_left valid.dataLimit, min_eq_left valid.parityLimit, max_eq_left valid.someLanes,
      min_eq_left valid.lanesLimit]
  simp only [FecEncoder.configure, same, valid.active, if_true]

theorem ready_start (valid : plan.Valid) : Encoding.Ready plan { encoder := FecEncoder.configure {} plan } := by
  have chosen := configure_plan valid {}
  refine ⟨⟨chosen, ?_, fun _ => Nat.zero_le _, fun _ => ⟨by simp, by simp⟩, by simp⟩,
    fun _ => valid.someData⟩
  intro lane
  have blank := encodes_blank (({} : FecEncoder).nextBlock + UInt32.ofNat lane)
    (List.replicate plan.parity []) (fun row member => (List.mem_replicate.mp member).2)
  rw [List.length_replicate] at blank
  have same : (FecEncoder.configure {} plan).lanes lane =
      { blockId := ({} : FecEncoder).nextBlock + UInt32.ofNat lane
        parity := List.replicate (FecEncoder.configure {} plan).plan.parity [] } := rfl
  rw [chosen] at same
  change ((FecEncoder.configure {} plan).lanes lane).Encodes plan.parity []
  rw [same]
  exact blank

theorem Encoding.Sound.coded (sound : run.Sound plan) (lane : Fin 4) (rows : ℕ) (some : run.pending lane ≠ [])
    (someRows : 0 < rows) (limit : rows ≤ plan.parity) :
    EncodedBlock.Coded plan ⟨(run.encoder.lanes lane).blockId, run.pending lane, (run.encoder.emit lane rows).2⟩
      (run.encoder.lanes lane).width where
  headed := sound.headed lane
  someData := List.length_pos_iff.mpr some
  dataLimit := sound.within lane
  someParity := by simpa [FecEncoder.emit] using someRows
  parityLimit := by simpa [FecEncoder.emit] using limit
  fits := (sound.lanes lane).fits
  symbol := by
    intro row bound
    have encodes := sound.lanes lane
    have inside : row < rows := by simpa [FecEncoder.emit] using bound
    have present : row < (run.encoder.lanes lane).parity.length := by rw [encodes.rows]; omega
    refine ⟨(run.encoder.lanes lane).parity.getD row [], ?_, ?_, encodes.codes row (by omega)⟩
    · have count : (run.encoder.lanes lane).index = (run.pending lane).length := by
        simpa using encodes.index
      simp only [FecEncoder.emit, List.getElem_map, List.getElem_range, FecEncoder.paritySymbol,
        parityHeader, sound.planned, count]
    · rw [List.getD_eq_getElem _ _ present]
      exact encodes.widths _ (List.getElem_mem present)

theorem Encoding.Sound.close (sound : run.Sound plan) (lane : Fin 4) (rows : ℕ) (some : run.pending lane ≠ [])
    (someRows : 0 < rows) (limit : rows ≤ plan.parity) :
    (run.close lane (run.encoder.emit lane rows).1 (run.encoder.emit lane rows).2).Sound plan where
  planned := sound.planned
  lanes := by
    intro other
    by_cases same : other = lane
    · subst same
      have blank := encodes_blank run.encoder.nextBlock
        ((run.encoder.lanes other).parity.map fun _ => []) (by simp)
      rw [List.length_map, (sound.lanes other).rows] at blank
      simpa [Encoding.close, FecEncoder.emit] using blank
    · simpa [Encoding.close, FecEncoder.emit, same] using sound.lanes other
  within := by
    intro other
    by_cases same : other = lane
    · simp [Encoding.close, same]
    · simpa [Encoding.close, same] using sound.within other
  headed := by
    intro other
    by_cases same : other = lane
    · subst same
      simpa [Encoding.close, FecEncoder.emit] using ⟨by simp, by simp⟩
    · simpa [Encoding.close, FecEncoder.emit, same] using sound.headed other
  blocks := by
    intro block member
    rcases List.mem_append.mp member with old | new
    · exact sound.blocks block old
    · rw [List.mem_singleton.mp new]
      exact ⟨_, sound.coded lane rows some someRows limit⟩

theorem emit_symbols_ne_nil (encoder : FecEncoder) (lane : Fin 4) (rows : ℕ) (some : 0 < rows) :
    (encoder.emit lane rows).2 ≠ [] := by
  simp only [FecEncoder.emit, ne_eq, List.map_eq_nil_iff, List.range_eq_nil]
  omega

/-- The run after a packet has entered its lane and before the lane is closed. -/
def Encoding.absorbed (run : Encoding) (bytes : Bytes) : Encoding :=
  { run with
    encoder :=
      { run.encoder with
        lanes := Function.update run.encoder.lanes run.encoder.cursor
          ((run.encoder.lanes run.encoder.cursor).absorb bytes)
        cursor := Fin.ofNat 4 ((run.encoder.cursor.val + 1) % run.encoder.plan.lanes) }
    pending := Function.update run.pending run.encoder.cursor
      (run.pending run.encoder.cursor ++ [(run.encoder.nextHeader bytes.length, bytes)]) }

theorem absorb_blockId (lane : Lane) (bytes : Bytes) : (lane.absorb bytes).blockId = lane.blockId := by
  unfold Lane.absorb Lane.widen
  split_ifs <;> rfl

theorem Encoding.Ready.absorbed (ready : run.Ready plan) (bytes : Bytes) (sendable : Sendable bytes) :
    (run.absorbed bytes).Sound plan where
  planned := ready.planned
  lanes := by
    intro other
    by_cases same : other = run.encoder.cursor
    · subst same
      simpa [Encoding.absorbed] using (ready.lanes run.encoder.cursor).absorb bytes
    · simpa [Encoding.absorbed, same] using ready.lanes other
  within := by
    intro other
    by_cases same : other = run.encoder.cursor
    · subst same
      simpa [Encoding.absorbed] using ready.unfilled run.encoder.cursor
    · simpa [Encoding.absorbed, same] using ready.within other
  headed := by
    intro other
    by_cases same : other = run.encoder.cursor
    · subst same
      have header : run.encoder.nextHeader bytes.length =
          dataHeader plan (run.encoder.lanes run.encoder.cursor).blockId
            (run.pending run.encoder.cursor).length bytes.length := by
        have index := (ready.lanes run.encoder.cursor).index
        rw [List.length_map] at index
        simp only [FecEncoder.nextHeader, dataHeader, ready.planned, index]
      have extended := headed_append (ready.headed run.encoder.cursor) bytes sendable
      rw [← header] at extended
      simpa [Encoding.absorbed, absorb_blockId] using extended
    · simpa [Encoding.absorbed, same] using ready.headed other
  blocks := ready.blocks

theorem Encoding.packet_eq (valid : plan.Valid) (ready : run.Ready plan) (bytes : Bytes)
    (sendable : Sendable bytes) :
    run.packet bytes =
      if run.encoder.plan.data ≤ (run.pending run.encoder.cursor).length + 1 then
        (run.absorbed bytes).close run.encoder.cursor
          ((run.absorbed bytes).encoder.emit run.encoder.cursor run.encoder.plan.parity).1
          ((run.absorbed bytes).encoder.emit run.encoder.cursor run.encoder.plan.parity).2
      else run.absorbed bytes := by
  have active : run.encoder.plan.active = true := by
    simp [FecPlan.active, ready.planned, valid.someData, valid.someParity]
  have short : ¬ (run.encoder.plan.active = false ∨ bytes.length > 0xFFFF) := by
    have small := sendable.2
    simp only [active, Bool.true_eq_false, false_or]
    omega
  have index : ((run.encoder.lanes run.encoder.cursor).absorb bytes).index =
      (run.pending run.encoder.cursor).length + 1 := by
    simpa using ((ready.lanes run.encoder.cursor).absorb bytes).index
  have added : run.encoder.add bytes =
      if run.encoder.plan.data ≤ (run.pending run.encoder.cursor).length + 1 then
        (run.absorbed bytes).encoder.emit run.encoder.cursor run.encoder.plan.parity
      else ((run.absorbed bytes).encoder, []) := by
    rw [FecEncoder.add, if_neg short]
    simp only [index]
    rfl
  have symbols := emit_symbols_ne_nil (run.absorbed bytes).encoder run.encoder.cursor
    run.encoder.plan.parity (ready.planned ▸ valid.someParity)
  have sameBlock : ((run.absorbed bytes).encoder.lanes run.encoder.cursor).blockId =
      (run.encoder.lanes run.encoder.cursor).blockId := by
    simp [Encoding.absorbed, absorb_blockId]
  unfold Encoding.packet
  rw [added]
  by_cases full : run.encoder.plan.data ≤ (run.pending run.encoder.cursor).length + 1
  · simp only [if_pos full, if_neg symbols, Encoding.close, sameBlock]
    rfl
  · simp only [if_neg full, if_true]
    rfl

theorem Encoding.Ready.packet (valid : plan.Valid) (ready : run.Ready plan) (bytes : Bytes)
    (sendable : Sendable bytes) : (run.packet bytes).Ready plan := by
  have sound := ready.absorbed bytes sendable
  rw [Encoding.packet_eq valid ready bytes sendable, ready.planned]
  by_cases full : plan.data ≤ (run.pending run.encoder.cursor).length + 1
  · rw [if_pos full]
    refine ⟨sound.close _ _ (by simp [Encoding.absorbed]) valid.someParity le_rfl, ?_⟩
    intro other
    by_cases same : other = run.encoder.cursor
    · simpa [Encoding.close, same] using valid.someData
    · simpa [Encoding.close, Encoding.absorbed, same] using ready.unfilled other
  · rw [if_neg full]
    refine ⟨sound, ?_⟩
    intro other
    by_cases same : other = run.encoder.cursor
    · subst same
      simpa [Encoding.absorbed] using not_le.mp full
    · simpa [Encoding.absorbed, same] using ready.unfilled other

theorem FecEncoder.flushRows_bounds {encoder : FecEncoder} (valid : encoder.plan.Valid) {lane : Fin 4}
    (some : (encoder.lanes lane).index ≠ 0) :
    0 < encoder.flushRows lane ∧ encoder.flushRows lane ≤ encoder.plan.parity := by
  unfold FecEncoder.flushRows
  split_ifs
  · exact parityNeeded_bounds _ _ _ some (Nat.pos_iff_ne_zero.mp valid.someParity)
  · exact ⟨valid.someParity, le_rfl⟩

theorem Encoding.flushLane_eq (valid : plan.Valid) (ready : run.Ready plan) (lane : Fin 4) :
    run.flushLane lane =
      if (run.encoder.lanes lane).index = 0 then run
      else run.close lane (run.encoder.emit lane (run.encoder.flushRows lane)).1
        (run.encoder.emit lane (run.encoder.flushRows lane)).2 := by
  unfold Encoding.flushLane FecEncoder.flushLane
  split_ifs with idle
  · simp
  · have rows := FecEncoder.flushRows_bounds (ready.planned.symm ▸ valid) idle
    simp only [if_neg (emit_symbols_ne_nil run.encoder lane _ rows.1)]

theorem Encoding.Ready.flushLane (valid : plan.Valid) (ready : run.Ready plan) (lane : Fin 4) :
    (run.flushLane lane).Ready plan := by
  have index : (run.encoder.lanes lane).index = (run.pending lane).length := by
    simpa using (ready.lanes lane).index
  rw [flushLane_eq valid ready lane]
  split_ifs with idle
  · exact ready
  have some : run.pending lane ≠ [] := by
    intro empty
    rw [empty, List.length_nil] at index
    exact idle index
  have rows := FecEncoder.flushRows_bounds (ready.planned.symm ▸ valid) idle
  rw [ready.planned] at rows
  refine ⟨ready.toSound.close lane _ some rows.1 rows.2, ?_⟩
  intro other
  by_cases same : other = lane
  · simpa [Encoding.close, same] using valid.someData
  · simpa [Encoding.close, same] using ready.unfilled other

theorem Encoding.Ready.flush (valid : plan.Valid) (ready : run.Ready plan) : run.flush.Ready plan := by
  unfold Encoding.flush
  by_cases idle : run.encoder.plan.active = false
  · rwa [if_pos idle]
  have folded : ∀ (lanes : List (Fin 4)) (current : Encoding), current.Ready plan →
      (lanes.foldl Encoding.flushLane current).Ready plan := by
    intro lanes
    induction lanes with
    | nil => exact fun current ready => ready
    | cons lane lanes ih => exact fun current ready => ih _ (ready.flushLane valid lane)
  rw [if_neg idle]
  have flushed := folded run.encoder.usedLanes run ready
  exact ⟨{ flushed with }, flushed.unfilled⟩

def FecStep.Sendable : FecStep → Prop
  | .packet bytes => Fec.Sendable bytes
  | .flush => True

theorem encode_ready (valid : plan.Valid) (steps : List FecStep) (sendable : ∀ step ∈ steps, step.Sendable) :
    (encode plan steps).Ready plan := by
  have general : ∀ run : Encoding, run.Ready plan → (steps.foldl Encoding.step run).Ready plan := by
    induction steps with
    | nil => exact fun run ready => ready
    | cons step steps ih =>
      intro run ready
      apply ih (fun other member => sendable other (List.mem_cons_of_mem _ member))
      cases step with
      | packet bytes => exact ready.packet valid bytes (sendable _ List.mem_cons_self)
      | flush => exact ready.flush valid
  exact general _ (ready_start valid)

end Norr.Fec
