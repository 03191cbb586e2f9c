import Norr.Fec.Recovery
import Norr.Lib.Lists

/-! Symbols of one block reaching a decoder in any order, among any other traffic. -/

namespace Norr.Fec

open FecDecoder

/-- The payload a parity symbol carries behind its header. -/
def EncodedBlock.payload (block : EncodedBlock) (row : ℕ) : Bytes :=
  (block.parity.getD row []).drop kFecHeaderSize

/-- A decoder block that has stored the data symbols `data` and the parity symbols `rows`. -/
structure Block.Tracks (plan : FecPlan) (coded : EncodedBlock) (block : Block) (data rows : Finset ℕ) :
    Prop where
  id : block.id = coded.id
  parityCount : block.parityCount = plan.parity
  count : block.dataCount = coded.data.length ∨ (rows = ∅ ∧ block.dataCount = plan.data)
  slots : block.data.length = block.dataCount
  symbols : ∀ index, block.data.getD index [] =
    if index ∈ data then lengthPrefixed (coded.packets.getD index []) else []
  paritySlots : block.parity.length = plan.parity
  parity : ∀ row, block.parity.getD row [] = if row ∈ rows then coded.payload row else []
  received : block.dataReceived = data.card
  dataInside : ∀ index ∈ data, index < coded.data.length
  rowsInside : ∀ row ∈ rows, row < coded.parity.length

theorem blockSize_toNat {count : ℕ} (limit : count ≤ kMaximumFecData) : (UInt8.ofNat count).toNat = count :=
  UInt8.toNat_ofNat_of_lt' (limit.trans_lt (by decide))

theorem parityCount_toNat {count : ℕ} (limit : count ≤ kMaximumFecParity) : (UInt8.ofNat count).toNat = count :=
  UInt8.toNat_ofNat_of_lt' (limit.trans_lt (by decide))

namespace EncodedBlock.Coded

variable {plan : FecPlan} {coded : EncodedBlock} {width : ℕ}

theorem payload_spec (sound : coded.Coded plan width) (row : ℕ) (bound : row < coded.parity.length) :
    coded.parity.getD row [] =
        serializeFecHeader (parityHeader plan coded.id coded.data.length width row) ++ coded.payload row ∧
      (coded.payload row).length = width ∧ vec (coded.payload row) = codeword coded.packets row := by
  obtain ⟨payload, symbol, length, value⟩ := sound.symbol row bound
  have behind : coded.payload row = payload := by
    rw [EncodedBlock.payload, List.getD_eq_getElem _ _ bound, symbol]
    exact List.drop_left' (serializeFecHeader_length _)
  rw [behind, List.getD_eq_getElem _ _ bound]
  exact ⟨symbol, length, value⟩

theorem width_pos (sound : coded.Coded plan width) : 0 < width := by
  have bound : 0 < coded.packets.length := by simpa [EncodedBlock.packets] using sound.someData
  have fits := sound.fits _ (List.getElem_mem bound)
  unfold kFecLengthPrefix at fits
  omega

theorem payload_ne_nil (sound : coded.Coded plan width) (row : ℕ) (bound : row < coded.parity.length) :
    coded.payload row ≠ [] := by
  intro empty
  have length := (sound.payload_spec row bound).2.1
  have positive := sound.width_pos
  rw [empty, List.length_nil] at length
  omega

theorem packets_length (coded : EncodedBlock) : coded.packets.length = coded.data.length :=
  List.length_map _

end EncodedBlock.Coded

namespace Block.Tracks

variable {plan : FecPlan} {coded : EncodedBlock} {width : ℕ} {block : Block} {data rows : Finset ℕ}

theorem count_of_rows (tracks : block.Tracks plan coded data rows) (some : rows ≠ ∅) :
    block.dataCount = coded.data.length := by
  rcases tracks.count with count | ⟨empty, -⟩
  · exact count
  · exact absurd empty some

theorem agrees (tracks : block.Tracks plan coded data rows) (valid : plan.Valid)
    (sound : coded.Coded plan width) (some : rows ≠ ∅) : block.Matches coded.packets width where
  count := by rw [tracks.count_of_rows some, EncodedBlock.Coded.packets_length]
  slots := tracks.slots
  symbols := by
    intro index _
    rw [tracks.symbols]
    split_ifs
    · exact .inr rfl
    · exact .inl rfl
  dataLimit := by
    rw [EncodedBlock.Coded.packets_length]
    exact sound.dataLimit.trans valid.dataLimit
  parityLimit := tracks.parityCount ▸ valid.parityLimit
  parity := by
    intro row present
    rw [tracks.parity] at present ⊢
    by_cases known : row ∈ rows
    · rw [if_pos known]
      exact (sound.payload_spec row (tracks.rowsInside row known)).2
    · exact absurd (if_neg known) present
  fits := sound.fits
  sendable := by
    intro packet member
    obtain ⟨entry, present, rfl⟩ := List.mem_map.mp member
    exact sound.headed.sendable entry present

theorem missing_eq (tracks : block.Tracks plan coded data rows) :
    block.missing = (List.range block.dataCount).filter fun index => index ∉ data := by
  unfold Block.missing
  apply List.filter_congr
  intro index _
  rw [tracks.symbols]
  by_cases known : index ∈ data
  · simp [known, Block.Matches.lengthPrefixed_ne_nil]
  · simp [known]

theorem rows_eq (tracks : block.Tracks plan coded data rows) (sound : coded.Coded plan width) :
    block.rows = (List.range plan.parity).filter fun row => row ∈ rows := by
  unfold Block.rows
  rw [tracks.parityCount]
  apply List.filter_congr
  intro row _
  rw [tracks.parity]
  by_cases known : row ∈ rows
  · simp [known, sound.payload_ne_nil row (tracks.rowsInside row known)]
  · simp [known]

theorem store_data (tracks : block.Tracks plan coded data rows) (sound : coded.Coded plan width)
    (valid : plan.Valid) (index : ℕ) (bound : index < coded.data.length) :
    (index ∈ data → block.store coded.data[index].1 coded.data[index].2 = (block, false)) ∧
      (index ∉ data → ∃ stored, block.store coded.data[index].1 coded.data[index].2 = (stored, true) ∧
        stored.Tracks plan coded (insert index data) rows) := by
  have header := sound.headed.header index bound
  have limit := sound.dataLimit
  have position := blockSize_toNat ((bound.le.trans limit).trans valid.dataLimit)
  have inside : index < block.dataCount := by
    rcases tracks.count with count | ⟨-, count⟩ <;> omega
  have packet : coded.packets.getD index [] = coded.data[index].2 := by
    rw [List.getD_eq_getElem _ _ (by rwa [EncodedBlock.Coded.packets_length])]
    exact List.getElem_map _
  have slot := tracks.symbols index
  unfold Block.store
  simp only [header, dataHeader, position, Bool.false_eq_true, if_false]
  rw [if_neg (by omega), slot]
  constructor
  · intro known
    rw [if_pos (by simp [known, Block.Matches.lengthPrefixed_ne_nil])]
  · intro unknown
    refine ⟨_, by rw [if_neg (by simp [unknown])], ?_⟩
    refine ⟨tracks.id, tracks.parityCount, tracks.count, ?_, ?_, tracks.paritySlots, tracks.parity, ?_, ?_,
      tracks.rowsInside⟩
    · simp [tracks.slots]
    · intro other
      rw [List.getD_set_slot _ _ _ _ _ (by rw [tracks.slots]; exact inside), tracks.symbols other]
      by_cases same : index = other
      · subst same
        rw [if_pos rfl, if_pos (Finset.mem_insert_self _ _), packet]
      · simp [same, Ne.symm same]
    · rw [Finset.card_insert_of_notMem unknown, tracks.received]
    · exact (Finset.forall_mem_insert _ _ _).mpr ⟨bound, tracks.dataInside⟩

theorem shrink_count (tracks : block.Tracks plan coded data rows) (sound : coded.Coded plan width) :
    (block.shrink coded.data.length).dataCount = coded.data.length ∧
      (block.shrink coded.data.length).Tracks plan coded data rows := by
  unfold Block.shrink
  by_cases shorter : coded.data.length < block.dataCount
  · rw [if_pos shorter]
    refine ⟨rfl, tracks.id, tracks.parityCount, .inl rfl, ?_, ?_, tracks.paritySlots, tracks.parity, ?_,
      tracks.dataInside, tracks.rowsInside⟩
    · simp only [List.length_take, tracks.slots]
      omega
    · intro index
      rw [← tracks.symbols index]
      simp only [List.getD_eq_getElem?_getD, List.getElem?_take]
      by_cases inside : index < coded.data.length
      · rw [if_pos inside]
      · have slot := tracks.symbols index
        rw [if_neg (fun member => inside (tracks.dataInside index member)),
          List.getD_eq_getElem?_getD] at slot
        rw [if_neg inside, slot]
        rfl
    · have beyond : ((block.data.drop coded.data.length).filter fun symbol => decide (symbol ≠ [])) = [] := by
        rw [List.filter_eq_nil_iff]
        intro symbol member
        obtain ⟨index, bound, rfl⟩ := List.getElem_of_mem member
        rw [List.length_drop] at bound
        have slot := tracks.symbols (coded.data.length + index)
        rw [if_neg (fun member => absurd (tracks.dataInside _ member) (by omega)),
          List.getD_eq_getElem _ _ (by omega)] at slot
        simp [slot]
      simp only [beyond, List.length_nil, Nat.sub_zero, tracks.received]
  · rw [if_neg shorter]
    refine ⟨?_, tracks⟩
    have limit := sound.dataLimit
    rcases tracks.count with count | ⟨-, count⟩ <;> omega

theorem store_parity (tracks : block.Tracks plan coded data rows) (valid : plan.Valid)
    (sound : coded.Coded plan width) (row : ℕ) (bound : row < coded.parity.length) :
    (row ∈ rows → block.store (parityHeader plan coded.id coded.data.length width row)
        (coded.payload row) = (block, false)) ∧
      (row ∉ rows → ∃ stored,
        block.store (parityHeader plan coded.id coded.data.length width row) (coded.payload row) =
          (stored, true) ∧ stored.Tracks plan coded data (insert row rows)) := by
  have position := parityCount_toNat ((bound.le.trans sound.parityLimit).trans valid.parityLimit)
  have size := blockSize_toNat (sound.dataLimit.trans valid.dataLimit)
  obtain ⟨count, shrunk⟩ := tracks.shrink_count sound
  unfold Block.store
  simp only [parityHeader, position, size, if_true]
  rw [shrunk.parity row]
  constructor
  · intro known
    have same : block.shrink coded.data.length = block := by
      rw [Block.shrink, if_neg (by
        rw [tracks.count_of_rows (Finset.ne_empty_of_mem known)]
        omega)]
    rw [if_pos (by simp [known, sound.payload_ne_nil row bound]), same]
  · intro unknown
    refine ⟨_, by rw [if_neg (by simp [unknown])], ?_⟩
    refine ⟨shrunk.id, shrunk.parityCount, .inl count, shrunk.slots, shrunk.symbols, ?_, ?_,
      shrunk.received, shrunk.dataInside, ?_⟩
    · simp [shrunk.paritySlots]
    · intro other
      have room : row < (block.shrink coded.data.length).parity.length := by
        rw [shrunk.paritySlots]
        exact bound.trans_le sound.parityLimit
      rw [List.getD_set_slot _ _ _ _ _ room, shrunk.parity other]
      by_cases same : row = other
      · subst same
        rw [if_pos rfl, if_pos (Finset.mem_insert_self _ _)]
      · simp [same, Ne.symm same]
    · exact (Finset.forall_mem_insert _ _ _).mpr ⟨bound, tracks.rowsInside⟩

end Block.Tracks

/-- The data symbols of the block that are not in `data`, in order. -/
def EncodedBlock.lost (coded : EncodedBlock) (data : Finset ℕ) : List ℕ :=
  (List.range coded.data.length).filter fun index => index ∉ data

def EncodedBlock.Covered (coded : EncodedBlock) (data rows : Finset ℕ) : Prop :=
  rows ≠ ∅ ∧ (coded.lost data).length ≤ rows.card

instance (coded : EncodedBlock) (data rows : Finset ℕ) : Decidable (coded.Covered data rows) :=
  inferInstanceAs (Decidable (_ ∧ _))

theorem lost_length (coded : EncodedBlock) (data : Finset ℕ)
    (inside : ∀ index ∈ data, index < coded.data.length) :
    (coded.lost data).length + data.card = coded.data.length := by
  have parts := List.length_eq_length_filter_add (l := List.range coded.data.length)
    (fun index => decide (index ∈ data))
  rw [List.length_range, List.length_filter_mem _ _ inside] at parts
  have same : coded.lost data = (List.range coded.data.length).filter fun index => !decide (index ∈ data) := by
    apply List.filter_congr
    simp
  rw [same]
  omega

/-- What storing a symbol leads to, said without the decoder's bookkeeping. -/
theorem Block.Tracks.settle_eq {plan : FecPlan} {coded : EncodedBlock} {width : ℕ} {block : Block}
    {data rows : Finset ℕ} (tracks : block.Tracks plan coded data rows) (valid : plan.Valid)
    (sound : coded.Coded plan width) (decoder : FecDecoder) :
    decoder.settle block =
      if coded.Covered data rows then
        (decoder.finish coded.id, (coded.lost data).map fun index => coded.packets.getD index [])
      else if block.dataReceived = block.dataCount then (decoder.finish coded.id, [])
      else (decoder, []) := by
  have parts := lost_length coded data tracks.dataInside
  have limit := sound.dataLimit
  have received := tracks.received
  unfold settle tryRecover
  rw [tracks.id]
  by_cases complete : block.dataReceived = block.dataCount
  · have nothing : coded.lost data = [] := by
      apply List.length_eq_zero_iff.mp
      rcases tracks.count with count | ⟨-, count⟩ <;> omega
    simp [complete, nothing]
  rw [if_neg complete]
  by_cases none : rows = ∅
  · have uncovered : ¬ coded.Covered data rows := fun covered => covered.1 none
    have silent : block.rows = [] := by
      rw [tracks.rows_eq sound, none]
      simp
    have unsolved : block.recover = Option.none := by
      unfold Block.recover
      simp only [silent, List.length_nil, List.length_pos_iff]
      rw [if_pos (em _)]
    rw [unsolved, if_neg uncovered, if_neg complete]
  · have count := tracks.count_of_rows none
    have missing : block.missing = coded.lost data := by
      rw [tracks.missing_eq, count]
      rfl
    have available : block.rows.length = rows.card := by
      rw [tracks.rows_eq sound]
      exact List.length_filter_mem _ _ (fun row member => (tracks.rowsInside row member).trans_le sound.parityLimit)
    have some : coded.lost data ≠ [] := by
      intro empty
      rw [empty, List.length_nil] at parts
      omega
    by_cases enough : (coded.lost data).length ≤ rows.card
    · rw [(tracks.agrees valid sound none).recover_eq (by rwa [missing]) (by rwa [missing, available]),
        if_pos ⟨none, enough⟩, missing]
    · have unsolved : block.recover = Option.none := by
        unfold Block.recover
        simp only [missing, available]
        rw [if_pos (.inr (not_le.mp enough))]
      rw [unsolved, if_neg (fun covered => enough covered.2), if_neg complete]

namespace FecDecoder

/-- The outstanding blocks under one id. -/
def own (decoder : FecDecoder) (id : UInt32) : List Block :=
  decoder.blocks.filter fun block => block.id = id

theorem find_own (decoder : FecDecoder) (id : UInt32) :
    (decoder.blocks.find? fun block => block.id = id) = (decoder.own id).head? := by
  rw [own, List.head?_filter]

theorem replaceBlock_own (updated block : Block) (id : UInt32) (same : updated.id = id) (blocks : List Block)
    (single : (blocks.filter fun block => block.id = id) = [block]) :
    ((replaceBlock updated blocks).filter fun block => block.id = id) = [updated] := by
  induction blocks with
  | nil => simp at single
  | cons head tail ih =>
    by_cases here : head.id = id
    · simp only [List.filter_cons, here, decide_true, if_true, List.cons.injEq] at single
      simp only [replaceBlock, here, same, if_true, List.filter_cons, decide_true, single.2]
    · simp only [List.filter_cons, here, decide_false, Bool.false_eq_true, if_false] at single
      simp only [replaceBlock, same, here, if_false, List.filter_cons, decide_false, Bool.false_eq_true]
      exact ih single

theorem replaceBlock_other (updated : Block) (id : UInt32) (differs : updated.id ≠ id) (blocks : List Block) :
    ((replaceBlock updated blocks).filter fun block => block.id = id) =
      blocks.filter fun block => block.id = id := by
  induction blocks with
  | nil => rfl
  | cons head tail ih =>
    by_cases here : head.id = updated.id
    · have other : head.id ≠ id := fun equal => differs (here.symm.trans equal)
      simp [replaceBlock, here, differs]
    · simp only [replaceBlock, here, if_false, List.filter_cons, ih]

theorem mem_replaceBlock {block other : Block} {blocks : List Block}
    (member : other ∈ replaceBlock block blocks) : other = block ∨ other ∈ blocks := by
  induction blocks with
  | nil => exact .inr member
  | cons head tail ih =>
    rw [replaceBlock] at member
    split_ifs at member
    · exact (List.mem_cons.mp member).imp_right (List.mem_cons_of_mem head)
    · rcases List.mem_cons.mp member with here | later
      · exact .inr (here ▸ List.mem_cons_self)
      · exact (ih later).imp_right (List.mem_cons_of_mem head)

theorem own_finish_self (decoder : FecDecoder) (id : UInt32) : (decoder.finish id).own id = [] := by
  simp [own, finish, List.filter_filter]

theorem mem_trimmed {finished : List UInt32} {id : UInt32} (member : id ∈ trimmed finished) : id ∈ finished :=
  List.mem_of_mem_drop member

theorem trimmed_length (finished : List UInt32) : (trimmed finished).length ≤ 256 := by
  rw [trimmed, List.length_drop, kMaximumOutstandingBlocks]
  omega

theorem finish_finished (decoder : FecDecoder) (id : UInt32) :
    (decoder.finish id).finished = trimmed (decoder.finished ++ [id]) := by
  rw [finish]

theorem expire_finished (decoder : FecDecoder) (now : Instant) :
    (decoder.expire now).1.finished = trimmed (decoder.finished ++
      (decoder.blocks.takeWhile fun block => decide (now - block.created ≥ kFecRecoveryDeadline)).map Block.id) := by
  rw [expire]

theorem mem_finish_self (decoder : FecDecoder) (id : UInt32) : id ∈ (decoder.finish id).finished := by
  simp only [finish, trimmed, kMaximumOutstandingBlocks]
  rw [List.drop_append_of_le_length (by simp)]
  simp

theorem mem_finish {decoder : FecDecoder} {id other : UInt32} (member : id ∈ (decoder.finish other).finished) :
    id ∈ decoder.finished ∨ id = other := by
  simp only [finish] at member
  simpa using mem_trimmed member

theorem own_finish_other (decoder : FecDecoder) (id other : UInt32) (differs : other ≠ id) :
    (decoder.finish other).own id = decoder.own id := by
  simp only [own, finish, List.filter_filter]
  apply List.filter_congr
  intro block _
  by_cases here : block.id = id
  · simp [here, Ne.symm differs]
  · simp [here]

theorem findOrCreate_finished (decoder : FecDecoder) (header : FecSymbolHeader) (now : Instant) :
    (decoder.findOrCreate header now).1.finished = decoder.finished := by
  unfold findOrCreate
  split <;> rfl

theorem findOrCreate_id (decoder : FecDecoder) (header : FecSymbolHeader) (now : Instant) :
    (decoder.findOrCreate header now).2.id = header.blockId := by
  unfold findOrCreate
  split
  · rename_i block found
    simpa using List.find?_some found
  · rfl

theorem findOrCreate_other (decoder : FecDecoder) (header : FecSymbolHeader) (now : Instant) (id : UInt32)
    (differs : header.blockId ≠ id) :
    ((decoder.findOrCreate header now).1.own id).Sublist (decoder.own id) := by
  unfold findOrCreate
  split
  · exact List.Sublist.refl _
  · simp only [own, List.filter_append]
    rw [List.filter_cons_of_neg (by simpa using differs), List.filter_nil, List.append_nil]
    apply List.Sublist.filter
    split_ifs
    · exact List.drop_sublist _ _
    · exact List.Sublist.refl _

theorem store_id (block : Block) (header : FecSymbolHeader) (payload : Bytes) :
    (block.store header payload).1.id = block.id := by
  have shrunk : (block.shrink header.blockSize.toNat).id = block.id := by
    unfold Block.shrink
    split_ifs <;> rfl
  simp only [Block.store]
  split_ifs <;> simp [shrunk]

theorem settle_cases (decoder : FecDecoder) (block : Block) :
    (decoder.settle block).1 = decoder ∨ (decoder.settle block).1 = decoder.finish block.id := by
  unfold settle tryRecover
  split_ifs
  · exact .inr rfl
  · cases block.recover with
    | none => exact .inl rfl
    | some packets => exact .inr rfl

/-- A symbol of another block can only remove the block from the list, never change it. -/
theorem receive_other (decoder : FecDecoder) (header : FecSymbolHeader) (payload : Bytes) (now : Instant)
    (id : UInt32) (differs : header.blockId ≠ id) :
    ((decoder.receive header payload now).1.own id).Sublist (decoder.own id) ∧
      (id ∈ (decoder.receive header payload now).1.finished → id ∈ decoder.finished) := by
  have created := decoder.findOrCreate_other header now id differs
  have blockId := decoder.findOrCreate_id header now
  have untouched := decoder.findOrCreate_finished header now
  unfold receive
  by_cases done : decoder.finished.contains header.blockId
  · rw [if_pos done]
    exact ⟨List.Sublist.refl _, fun member => member⟩
  rw [if_neg done]
  generalize decoder.findOrCreate header now = result at created blockId untouched
  obtain ⟨opened, block⟩ := result
  simp only at created blockId untouched ⊢
  by_cases mismatch : block.parityCount ≠ header.parityCount.toNat
  · rw [if_pos mismatch]
    exact ⟨created, fun member => untouched ▸ member⟩
  rw [if_neg mismatch]
  have storedId : (block.store header payload).1.id = header.blockId := (store_id _ _ _).trans blockId
  generalize block.store header payload = outcome at storedId
  obtain ⟨updated, stored⟩ := outcome
  simp only at storedId ⊢
  have written : own { opened with blocks := replaceBlock updated opened.blocks } id = opened.own id :=
    replaceBlock_other updated id (storedId.symm ▸ differs) opened.blocks
  by_cases ignored : stored = false
  · rw [if_pos ignored, written]
    exact ⟨created, fun member => untouched ▸ member⟩
  rw [if_neg ignored]
  rcases settle_cases { opened with blocks := replaceBlock updated opened.blocks } updated with same | finished
  · rw [same, written]
    exact ⟨created, fun member => untouched ▸ member⟩
  · rw [finished, own_finish_other _ _ _ (storedId.symm ▸ differs), written]
    refine ⟨created, fun member => ?_⟩
    rcases mem_finish member with old | new
    · exact untouched ▸ old
    · exact absurd (storedId.symm.trans new.symm) differs

theorem expire_other (decoder : FecDecoder) (now : Instant) (id : UInt32) :
    ((decoder.expire now).1.own id).Sublist (decoder.own id) ∧
      (id ∈ (decoder.expire now).1.finished → (decoder.expire now).1.own id = decoder.own id →
        id ∈ decoder.finished) := by
  simp only [expire, own]
  refine ⟨(List.dropWhile_sublist _).filter _, ?_⟩
  intro member kept
  rcases List.mem_append.mp (mem_trimmed member) with old | expired
  · exact old
  · -- an expired block with this id would be missing from what is left
    obtain ⟨block, present, same⟩ := List.mem_map.mp expired
    have parts := congrArg (List.filter fun block : Block => block.id = id)
      (List.takeWhile_append_dropWhile (p := fun block : Block =>
        decide (now - block.created ≥ kFecRecoveryDeadline)) (l := decoder.blocks))
    rw [List.filter_append, kept] at parts
    have none := List.append_cancel_right (parts.trans (List.nil_append _).symm)
    have inside : block ∈ List.filter (fun block : Block => block.id = id) (decoder.blocks.takeWhile
        fun block => decide (now - block.created ≥ kFecRecoveryDeadline)) :=
      List.mem_filter.mpr ⟨present, by simpa using same⟩
    rw [none] at inside
    cases inside

theorem blank_slot (count index : ℕ) : (List.replicate count ([] : Bytes)).getD index [] = [] := by
  rw [List.getD_eq_getElem?_getD]
  exact List.getElem?_getD_replicate_default_eq _ _ _

/-- The decoder has the block under way, or has not seen it yet. -/
structure Tracking (plan : FecPlan) (coded : EncodedBlock) (decoder : FecDecoder) (data rows : Finset ℕ) :
    Prop where
  unfinished : coded.id ∉ decoder.finished
  block : (decoder.own coded.id = [] ∧ data = ∅ ∧ rows = ∅) ∨
    ∃ block, decoder.own coded.id = [block] ∧ block.Tracks plan coded data rows

theorem findOrCreate_tracks {plan : FecPlan} {coded : EncodedBlock} {decoder : FecDecoder}
    {data rows : Finset ℕ} (tracking : Tracking plan coded decoder data rows) {header : FecSymbolHeader}
    (same : header.blockId = coded.id) (parity : header.parityCount.toNat = plan.parity)
    (size : header.blockSize.toNat = coded.data.length ∨ header.blockSize.toNat = plan.data) (now : Instant) :
    (decoder.findOrCreate header now).1.own coded.id = [(decoder.findOrCreate header now).2] ∧
      (decoder.findOrCreate header now).2.Tracks plan coded data rows := by
  have search := decoder.find_own coded.id
  unfold findOrCreate
  rw [same]
  rcases tracking.block with ⟨absent, noData, noRows⟩ | ⟨block, present, tracks⟩
  · rw [absent, List.head?_nil] at search
    have fresh : (decoder.blocks.drop 1).filter (fun block => block.id = coded.id) = [] := by
      rw [List.filter_eq_nil_iff]
      intro block member
      exact List.filter_eq_nil_iff.mp absent block (List.mem_of_mem_drop member)
    rw [search]
    subst noData noRows
    constructor
    · simp only [own, List.filter_append, List.filter_cons, decide_true, if_true, List.filter_nil]
      split_ifs
      · rw [fresh, List.nil_append]
      · change decoder.own coded.id ++ _ = _
        rw [absent, List.nil_append]
    · refine ⟨rfl, parity, ?_, ?_, ?_, ?_, ?_, rfl, by simp, by simp⟩
      · exact size.imp (fun count => count) (fun count => ⟨rfl, count⟩)
      · simp
      · intro index
        exact blank_slot _ _
      · simp [parity]
      · intro row
        exact blank_slot _ _
  · rw [present, List.head?_cons] at search
    rw [search]
    exact ⟨present, tracks⟩

end FecDecoder

/-- What can happen at the decoder: a symbol of the block arrives (a data symbol under the
header it was sent with, a parity symbol parsed from its bytes), a symbol of any other
block arrives, or old blocks are expired. -/
inductive Arrival
  | data (index : ℕ) (now : Instant)
  | parity (row : ℕ) (now : Instant)
  | other (header : FecSymbolHeader) (payload : Bytes) (now : Instant)
  | expire (now : Instant)

namespace Arrival

def Legal (coded : EncodedBlock) : Arrival → Prop
  | data index _ => index < coded.data.length
  | parity row _ => row < coded.parity.length
  | other header _ _ => header.blockId ≠ coded.id
  | expire _ => True

/-- The decoder after an arrival, and the packets it returned for the block. -/
def deliver (coded : EncodedBlock) (decoder : FecDecoder) : Arrival → FecDecoder × List Bytes
  | data index now =>
    match coded.data[index]? with
    | some entry => decoder.receive entry.1 entry.2 now
    | none => (decoder, [])
  | parity row now =>
    match parseFecHeader (coded.parity.getD row []) with
    | some header => decoder.receive header (coded.payload row) now
    | none => (decoder, [])
  | other header payload now => ((decoder.receive header payload now).1, [])
  | expire now => ((decoder.expire now).1, [])

/-- The arrival neither evicts nor expires the block, nor drops its id from the finished list. -/
def Keeps (coded : EncodedBlock) (decoder : FecDecoder) (arrival : Arrival) : Prop :=
  (coded.id ∈ decoder.finished → coded.id ∈ (arrival.deliver coded decoder).1.finished) ∧
    match arrival with
    | data _ _ => True
    | parity _ _ => True
    | other _ _ _ => decoder.own coded.id ≠ [] → (arrival.deliver coded decoder).1.own coded.id ≠ []
    | expire _ => decoder.own coded.id ≠ [] → (arrival.deliver coded decoder).1.own coded.id ≠ []

def dataIndex? : Arrival → Option ℕ
  | data index _ => some index
  | _ => none

def parityRow? : Arrival → Option ℕ
  | parity row _ => some row
  | _ => none

end Arrival

/-- The decoder and the packets it has returned for the block after a list of arrivals. -/
def deliverAll (coded : EncodedBlock) (decoder : FecDecoder) (arrivals : List Arrival) :
    FecDecoder × List Bytes :=
  arrivals.foldl (fun state arrival =>
    let (next, packets) := arrival.deliver coded state.1
    (next, state.2 ++ packets)) (decoder, [])

def KeepsAll (coded : EncodedBlock) (decoder : FecDecoder) (arrivals : List Arrival) : Prop :=
  ∀ before arrival after, arrivals = before ++ arrival :: after →
    arrival.Keeps coded (deliverAll coded decoder before).1

def dataIn (arrivals : List Arrival) : Finset ℕ := (arrivals.filterMap Arrival.dataIndex?).toFinset

def rowsIn (arrivals : List Arrival) : Finset ℕ := (arrivals.filterMap Arrival.parityRow?).toFinset

/-- At least one parity symbol has arrived, and as many as there are data symbols missing. -/
def EncodedBlock.Recoverable (coded : EncodedBlock) (arrivals : List Arrival) : Prop :=
  coded.Covered (dataIn arrivals) (rowsIn arrivals)

def EncodedBlock.missing (coded : EncodedBlock) (arrivals : List Arrival) : List Bytes :=
  (coded.lost (dataIn arrivals)).map fun index => coded.packets.getD index []

section Run

variable {plan : FecPlan} {coded : EncodedBlock} {width : ℕ}

theorem deliverAll_append (coded : EncodedBlock) (decoder : FecDecoder) (arrivals : List Arrival)
    (arrival : Arrival) :
    deliverAll coded decoder (arrivals ++ [arrival]) =
      ((arrival.deliver coded (deliverAll coded decoder arrivals).1).1,
        (deliverAll coded decoder arrivals).2 ++
          (arrival.deliver coded (deliverAll coded decoder arrivals).1).2) := by
  simp [deliverAll, List.foldl_append]

theorem dataIn_append (arrivals : List Arrival) (arrival : Arrival) :
    dataIn (arrivals ++ [arrival]) =
      match arrival with
      | .data index _ => insert index (dataIn arrivals)
      | _ => dataIn arrivals := by
  cases arrival <;> simp [dataIn, Arrival.dataIndex?, List.filterMap_cons]

theorem rowsIn_append (arrivals : List Arrival) (arrival : Arrival) :
    rowsIn (arrivals ++ [arrival]) =
      match arrival with
      | .parity row _ => insert row (rowsIn arrivals)
      | _ => rowsIn arrivals := by
  cases arrival <;> simp [rowsIn, Arrival.parityRow?, List.filterMap_cons]

/-- The packets returned once the block is finished: those missing when it first became
recoverable, or none when every data symbol came in before any parity symbol. -/
def EncodedBlock.Settled (coded : EncodedBlock) (arrivals : List Arrival) (packets : List Bytes) : Prop :=
  (¬ coded.Recoverable arrivals ∧ coded.lost (dataIn arrivals) = [] ∧ packets = []) ∨
    ∃ first arrival rest, arrivals = first ++ arrival :: rest ∧ ¬ coded.Recoverable first ∧
      coded.Recoverable (first ++ [arrival]) ∧ packets = coded.missing (first ++ [arrival])

def Invariant (plan : FecPlan) (coded : EncodedBlock) (arrivals : List Arrival)
    (state : FecDecoder × List Bytes) : Prop :=
  (¬ coded.Recoverable arrivals ∧ state.2 = [] ∧
      FecDecoder.Tracking plan coded state.1 (dataIn arrivals) (rowsIn arrivals)) ∨
    (coded.id ∈ state.1.finished ∧ state.1.own coded.id = [] ∧ coded.Settled arrivals state.2)

theorem lost_sublist (coded : EncodedBlock) (data more : Finset ℕ) (grows : data ⊆ more) :
    (coded.lost more).Sublist (coded.lost data) := by
  apply List.monotone_filter_right
  intro index unknown
  simp only [decide_eq_true_eq] at unknown ⊢
  exact fun member => unknown (grows member)

theorem dataIn_subset (arrivals more : List Arrival) : dataIn arrivals ⊆ dataIn (arrivals ++ more) := by
  intro index member
  simp only [dataIn, List.filterMap_append, List.toFinset_append, Finset.mem_union]
  exact .inl member

theorem rowsIn_subset (arrivals more : List Arrival) : rowsIn arrivals ⊆ rowsIn (arrivals ++ more) := by
  intro row member
  simp only [rowsIn, List.filterMap_append, List.toFinset_append, Finset.mem_union]
  exact .inl member

/-- More arrivals never make a recoverable block unrecoverable. -/
theorem recoverable_append (coded : EncodedBlock) (arrivals more : List Arrival)
    (recoverable : coded.Recoverable arrivals) : coded.Recoverable (arrivals ++ more) := by
  obtain ⟨some, enough⟩ := recoverable
  have rows := rowsIn_subset arrivals more
  constructor
  · exact (Finset.Nonempty.mono rows (Finset.nonempty_iff_ne_empty.mpr some)).ne_empty
  · calc (coded.lost (dataIn (arrivals ++ more))).length
        ≤ (coded.lost (dataIn arrivals)).length :=
          (lost_sublist coded _ _ (dataIn_subset arrivals more)).length_le
      _ ≤ (rowsIn arrivals).card := enough
      _ ≤ (rowsIn (arrivals ++ more)).card := Finset.card_le_card rows

theorem settled_append (coded : EncodedBlock) (arrivals : List Arrival) (packets : List Bytes)
    (settled : coded.Settled arrivals packets) (arrival : Arrival) :
    coded.Settled (arrivals ++ [arrival]) packets := by
  rcases settled with ⟨unrecoverable, nothing, silent⟩ | ⟨first, turning, rest, split, before, after, output⟩
  · have still := lost_sublist coded _ _ (dataIn_subset arrivals [arrival])
    rw [nothing, List.sublist_nil] at still
    by_cases recoverable : coded.Recoverable (arrivals ++ [arrival])
    · refine .inr ⟨arrivals, arrival, [], rfl, unrecoverable, recoverable, ?_⟩
      rw [silent, EncodedBlock.missing, still]
      rfl
    · exact .inl ⟨recoverable, still, silent⟩
  · refine .inr ⟨first, turning, rest ++ [arrival], ?_, before, after, output⟩
    rw [split, List.append_assoc, List.cons_append]

theorem parityHeader_valid (valid : plan.Valid) {count row : ℕ} (someData : 0 < count)
    (dataLimit : count ≤ plan.data) (bound : row < plan.parity) {id : UInt32} {width : ℕ} :
    (parityHeader plan id count width row).Valid := by
  have size := blockSize_toNat (dataLimit.trans valid.dataLimit)
  have parity := parityCount_toNat valid.parityLimit
  have position := parityCount_toNat (bound.le.trans valid.parityLimit)
  refine ⟨?_, ?_, ?_, ?_, ?_⟩
  · exact size.symm ▸ someData
  · exact size.symm ▸ dataLimit.trans valid.dataLimit
  · exact parity.symm ▸ valid.someParity
  · exact parity.symm ▸ valid.parityLimit
  · simp only [parityHeader, if_true, UInt8.lt_iff_toNat_lt, position, parity]
    exact bound

/-- A parity symbol's bytes parse back to the header it was given. -/
theorem parse_parity (valid : plan.Valid) (sound : coded.Coded plan width) (row : ℕ)
    (bound : row < coded.parity.length) :
    parseFecHeader (coded.parity.getD row []) =
      some (parityHeader plan coded.id coded.data.length width row) := by
  rw [(sound.payload_spec row bound).1]
  exact parse_serialize _ (parityHeader_valid valid sound.someData sound.dataLimit
    (bound.trans_le sound.parityLimit)) _

theorem receive_finished (decoder : FecDecoder) (header : FecSymbolHeader) (payload : Bytes) (now : Instant)
    (done : header.blockId ∈ decoder.finished) : decoder.receive header payload now = (decoder, []) := by
  unfold receive
  rw [if_pos (by simpa using done)]

/-- The arrivals of the block's own symbols, as calls of `receive`. -/
theorem deliver_data (sound : coded.Coded plan width) (decoder : FecDecoder) (index : ℕ) (now : Instant)
    (bound : index < coded.data.length) :
    (Arrival.data index now).deliver coded decoder =
        decoder.receive coded.data[index].1 coded.data[index].2 now ∧
      coded.data[index].1 = dataHeader plan coded.id index coded.data[index].2.length := by
  refine ⟨?_, sound.headed.header index bound⟩
  simp only [Arrival.deliver, List.getElem?_eq_getElem bound]

theorem deliver_parity (valid : plan.Valid) (sound : coded.Coded plan width) (decoder : FecDecoder) (row : ℕ)
    (now : Instant) (bound : row < coded.parity.length) :
    (Arrival.parity row now).deliver coded decoder =
      decoder.receive (parityHeader plan coded.id coded.data.length width row) (coded.payload row) now := by
  simp only [Arrival.deliver, parse_parity valid sound row bound]

theorem deliver_finished (valid : plan.Valid) (sound : coded.Coded plan width) (decoder : FecDecoder)
    (arrival : Arrival) (legal : arrival.Legal coded) (keeps : arrival.Keeps coded decoder)
    (done : coded.id ∈ decoder.finished) (gone : decoder.own coded.id = []) :
    coded.id ∈ (arrival.deliver coded decoder).1.finished ∧
      (arrival.deliver coded decoder).1.own coded.id = [] ∧ (arrival.deliver coded decoder).2 = [] := by
  refine ⟨keeps.1 done, ?_⟩
  cases arrival with
  | data index now =>
    obtain ⟨call, header⟩ := deliver_data sound decoder index now legal
    rw [call, receive_finished _ _ _ _ (by rw [header]; exact done)]
    exact ⟨gone, rfl⟩
  | parity row now =>
    rw [deliver_parity valid sound decoder row now legal, receive_finished _ _ _ _ done]
    exact ⟨gone, rfl⟩
  | other header payload now =>
    have kept := (decoder.receive_other header payload now coded.id legal).1
    rw [gone, List.sublist_nil] at kept
    exact ⟨kept, rfl⟩
  | expire now =>
    have kept := (decoder.expire_other now coded.id).1
    rw [gone, List.sublist_nil] at kept
    exact ⟨kept, rfl⟩

/-- Only other traffic can drop the block: its own symbols never do. -/
theorem keeps_own (valid : plan.Valid) (sound : coded.Coded plan width) (decoder : FecDecoder)
    (arrival : Arrival) (legal : arrival.Legal coded)
    (own : arrival.dataIndex?.isSome ∨ arrival.parityRow?.isSome) : arrival.Keeps coded decoder := by
  cases arrival with
  | data index now =>
    obtain ⟨call, header⟩ := deliver_data sound decoder index now legal
    refine ⟨fun done => ?_, trivial⟩
    rw [call, receive_finished _ _ _ _ (by rw [header]; exact done)]
    exact done
  | parity row now =>
    refine ⟨fun done => ?_, trivial⟩
    rw [deliver_parity valid sound decoder row now legal, receive_finished _ _ _ _ done]
    exact done
  | other header payload now => simp [Arrival.dataIndex?, Arrival.parityRow?] at own
  | expire now => simp [Arrival.dataIndex?, Arrival.parityRow?] at own

/-- Traffic of other blocks leaves a block that is not evicted as it is. -/
theorem tracking_kept {decoder next : FecDecoder} {data rows : Finset ℕ}
    (tracking : Tracking plan coded decoder data rows)
    (kept : (next.own coded.id).Sublist (decoder.own coded.id))
    (keeps : decoder.own coded.id ≠ [] → next.own coded.id ≠ [])
    (unfinished : next.own coded.id = decoder.own coded.id → coded.id ∉ next.finished) :
    Tracking plan coded next data rows := by
  rcases tracking.block with ⟨absent, noData, noRows⟩ | ⟨block, present, tracks⟩
  · rw [absent, List.sublist_nil] at kept
    exact ⟨unfinished (kept.trans absent.symm), .inl ⟨kept, noData, noRows⟩⟩
  · have nonempty := keeps (by simp [present])
    rw [present] at kept
    have same : next.own coded.id = [block] := by
      rcases List.sublist_singleton.mp kept with none | one
      · exact absurd none nonempty
      · exact one
    exact ⟨unfinished (same.trans present.symm), .inr ⟨block, same, tracks⟩⟩

/-- A symbol of the block reaches a decoder that is still collecting it: it is new, unless it was known. -/
theorem invariant_own (valid : plan.Valid) (sound : coded.Coded plan width) {arrivals arrived : List Arrival}
    (one : ∃ arrival, arrived = arrivals ++ [arrival]) {decoder : FecDecoder} {header : FecSymbolHeader}
    {payload : Bytes} (now : Instant) (same : header.blockId = coded.id)
    (parity : header.parityCount.toNat = plan.parity)
    (size : header.blockSize.toNat = coded.data.length ∨ header.blockSize.toNat = plan.data)
    (store : ∀ block : Block, block.Tracks plan coded (dataIn arrivals) (rowsIn arrivals) →
      (block.store header payload = (block, false) ∧ dataIn arrived = dataIn arrivals ∧
          rowsIn arrived = rowsIn arrivals) ∨
        ∃ stored, block.store header payload = (stored, true) ∧
          stored.Tracks plan coded (dataIn arrived) (rowsIn arrived))
    (unrecoverable : ¬ coded.Recoverable arrivals)
    (tracking : Tracking plan coded decoder (dataIn arrivals) (rowsIn arrivals)) :
    Invariant plan coded arrived (decoder.receive header payload now) := by
  obtain ⟨single, tracks⟩ := findOrCreate_tracks tracking same parity size now
  have untouched := decoder.findOrCreate_finished header now
  have unseen : ¬ decoder.finished.contains header.blockId = true := by
    simpa [same] using tracking.unfinished
  unfold receive
  rw [if_neg unseen]
  generalize decoder.findOrCreate header now = found at single tracks untouched
  obtain ⟨opened, block⟩ := found
  simp only at single tracks untouched ⊢
  rw [if_neg (by simp [tracks.parityCount, parity])]
  have unfinished : coded.id ∉ opened.finished := untouched ▸ tracking.unfinished
  have collects {updated : Block} (tracks : updated.Tracks plan coded (dataIn arrived) (rowsIn arrived)) :
      Tracking plan coded { opened with blocks := replaceBlock updated opened.blocks }
        (dataIn arrived) (rowsIn arrived) :=
    ⟨unfinished, .inr ⟨updated, replaceBlock_own updated block coded.id tracks.id opened.blocks single,
      tracks⟩⟩
  rcases store block tracks with ⟨known, sameData, sameRows⟩ | ⟨stored, taken, tracks'⟩
  · rw [known]
    refine .inl ⟨?_, rfl, collects ?_⟩
    · rwa [EncodedBlock.Recoverable, sameData, sameRows]
    · rwa [sameData, sameRows]
  · simp only [taken, Bool.true_eq_false, if_false]
    rw [tracks'.settle_eq valid sound]
    by_cases covered : coded.Covered (dataIn arrived) (rowsIn arrived)
    · rw [if_pos covered]
      obtain ⟨arrival, rfl⟩ := one
      exact .inr ⟨mem_finish_self _ _, own_finish_self _ _,
        .inr ⟨arrivals, arrival, [], rfl, unrecoverable, covered, rfl⟩⟩
    rw [if_neg covered]
    split_ifs with complete
    · have parts := lost_length coded _ tracks'.dataInside
      have received := tracks'.received
      have limit := sound.dataLimit
      have nothing : coded.lost (dataIn arrived) = [] := by
        apply List.length_eq_zero_iff.mp
        rcases tracks'.count with count | ⟨-, count⟩ <;> omega
      exact .inr ⟨mem_finish_self _ _, own_finish_self _ _, .inl ⟨covered, nothing, rfl⟩⟩
    · exact .inl ⟨covered, rfl, collects tracks'⟩

theorem invariant_step (valid : plan.Valid) (sound : coded.Coded plan width) (arrivals : List Arrival)
    (arrival : Arrival) (legal : arrival.Legal coded) (state : FecDecoder × List Bytes)
    (keeps : arrival.Keeps coded state.1) (invariant : Invariant plan coded arrivals state) :
    Invariant plan coded (arrivals ++ [arrival])
      ((arrival.deliver coded state.1).1, state.2 ++ (arrival.deliver coded state.1).2) := by
  rcases invariant with ⟨unrecoverable, silent, tracking⟩ | ⟨done, gone, settled⟩
  · rw [silent, List.nil_append]
    cases arrival with
    | data index now =>
      obtain ⟨call, header⟩ := deliver_data sound state.1 index now legal
      rw [call]
      apply invariant_own valid sound ⟨_, rfl⟩
      · rw [header]
        rfl
      · rw [header]
        exact parityCount_toNat valid.parityLimit
      · rw [header]
        exact .inr (blockSize_toNat valid.dataLimit)
      · intro block tracks
        obtain ⟨known, fresh⟩ := tracks.store_data sound valid index legal
        rw [dataIn_append, rowsIn_append]
        by_cases member : index ∈ dataIn arrivals
        · exact .inl ⟨known member, Finset.insert_eq_of_mem member, rfl⟩
        · exact .inr (fresh member)
      · exact unrecoverable
      · exact tracking
    | parity row now =>
      rw [deliver_parity valid sound state.1 row now legal]
      apply invariant_own valid sound ⟨_, rfl⟩
      · rfl
      · exact parityCount_toNat valid.parityLimit
      · exact .inl (blockSize_toNat (sound.dataLimit.trans valid.dataLimit))
      · intro block tracks
        obtain ⟨known, fresh⟩ := tracks.store_parity valid sound row legal
        rw [dataIn_append, rowsIn_append]
        by_cases member : row ∈ rowsIn arrivals
        · exact .inl ⟨known member, rfl, Finset.insert_eq_of_mem member⟩
        · exact .inr (fresh member)
      · exact unrecoverable
      · exact tracking
    | other header payload now =>
      obtain ⟨kept, finished⟩ := state.1.receive_other header payload now coded.id legal
      refine .inl ⟨?_, rfl, ?_⟩
      · rwa [EncodedBlock.Recoverable, dataIn_append, rowsIn_append]
      · rw [dataIn_append, rowsIn_append]
        exact tracking_kept tracking kept keeps.2 (fun _ member => tracking.unfinished (finished member))
    | expire now =>
      obtain ⟨kept, finished⟩ := state.1.expire_other now coded.id
      refine .inl ⟨?_, rfl, ?_⟩
      · rwa [EncodedBlock.Recoverable, dataIn_append, rowsIn_append]
      · rw [dataIn_append, rowsIn_append]
        exact tracking_kept tracking kept keeps.2 (fun same member => tracking.unfinished (finished member same))
  · obtain ⟨done', gone', silent⟩ := deliver_finished valid sound state.1 arrival legal keeps done gone
    rw [silent, List.append_nil]
    exact .inr ⟨done', gone', settled_append coded arrivals state.2 settled arrival⟩

theorem invariant_run (valid : plan.Valid) (sound : coded.Coded plan width) (decoder : FecDecoder)
    (unseen : decoder.own coded.id = []) (unfinished : coded.id ∉ decoder.finished) (arrivals : List Arrival)
    (legal : ∀ arrival ∈ arrivals, arrival.Legal coded) (keeps : KeepsAll coded decoder arrivals) :
    Invariant plan coded arrivals (deliverAll coded decoder arrivals) := by
  induction arrivals using List.reverseRecOn with
  | nil =>
    refine .inl ⟨fun recoverable => recoverable.1 rfl, rfl, ⟨unfinished, .inl ⟨unseen, rfl, rfl⟩⟩⟩
  | append_singleton arrivals arrival ih =>
    rw [deliverAll_append]
    apply invariant_step valid sound arrivals arrival (legal _ (by simp)) (deliverAll coded decoder arrivals)
    · exact keeps arrivals arrival [] rfl
    · apply ih
      · exact fun other member => legal other (by simp [member])
      · intro before other after split
        exact keeps before other (after ++ [arrival]) (by rw [split]; simp)

/-- Every recoverable loss is recovered exactly, and once. -/
theorem decoder_recovers (plan : FecPlan) (valid : plan.Valid) (steps : List FecStep)
    (sendable : ∀ step ∈ steps, step.Sendable) (coded : EncodedBlock)
    (emitted : coded ∈ (encode plan steps).blocks) (decoder : FecDecoder)
    (unseen : decoder.own coded.id = []) (unfinished : coded.id ∉ decoder.finished)
    (arrivals : List Arrival) (legal : ∀ arrival ∈ arrivals, arrival.Legal coded)
    (keeps : KeepsAll coded decoder arrivals) :
    (¬ coded.Recoverable arrivals → (deliverAll coded decoder arrivals).2 = []) ∧
      (coded.Recoverable arrivals → ∃ first arrival rest, arrivals = first ++ arrival :: rest ∧
        ¬ coded.Recoverable first ∧ coded.Recoverable (first ++ [arrival]) ∧
        (deliverAll coded decoder arrivals).2 = coded.missing (first ++ [arrival])) := by
  obtain ⟨width, sound⟩ := (encode_ready valid steps sendable).blocks coded emitted
  rcases invariant_run valid sound decoder unseen unfinished arrivals legal keeps with
    ⟨unrecoverable, silent, -⟩ | ⟨-, -, settled⟩
  · exact ⟨fun _ => silent, fun recoverable => absurd recoverable unrecoverable⟩
  rcases settled with ⟨unrecoverable, -, silent⟩ | ⟨first, arrival, rest, split, before, after, output⟩
  · exact ⟨fun _ => silent, fun recoverable => absurd recoverable unrecoverable⟩
  · have recoverable : coded.Recoverable arrivals := by
      rw [split, List.append_cons]
      exact recoverable_append coded _ rest after
    exact ⟨fun unrecoverable => absurd recoverable unrecoverable,
      fun _ => ⟨first, arrival, rest, split, before, after, output⟩⟩

def pairPlan : FecPlan := { data := 2, parity := 1 }

def pairSteps : List FecStep := [.packet [7], .packet [9, 11]]

theorem pairPlan_valid : pairPlan.Valid := by
  refine ⟨?_, ?_, ?_, ?_, ?_, ?_⟩ <;> decide

theorem pairSteps_sendable : ∀ step ∈ pairSteps, step.Sendable := by
  simp [pairSteps, FecStep.Sendable, Sendable]

/-- Two packets and one parity symbol: the second packet is lost and comes back. -/
theorem decoder_recovers_pair :
    ∃ coded ∈ (encode pairPlan pairSteps).blocks,
      coded.Recoverable [.parity 0 0, .data 0 0] ∧
      ∃ first arrival rest, [Arrival.parity 0 0, .data 0 0] = first ++ arrival :: rest ∧
        ¬ coded.Recoverable first ∧ coded.Recoverable (first ++ [arrival]) ∧
        (deliverAll coded {} [.parity 0 0, .data 0 0]).2 = coded.missing (first ++ [arrival]) := by
  have blocks : ∃ first second symbol, (encode pairPlan pairSteps).blocks =
      [⟨0, [(first, [7]), (second, [9, 11])], [symbol]⟩] := ⟨_, _, _, rfl⟩
  obtain ⟨first, second, symbol, blocks⟩ := blocks
  have emitted : ⟨0, [(first, [7]), (second, [9, 11])], [symbol]⟩ ∈ (encode pairPlan pairSteps).blocks := by
    rw [blocks]
    exact List.mem_singleton_self _
  have recoverable : EncodedBlock.Recoverable ⟨0, [(first, [7]), (second, [9, 11])], [symbol]⟩
      [.parity 0 0, .data 0 0] := by
    constructor
    · decide
    · change ((List.range 2).filter fun index => index ∉ dataIn [.parity 0 0, .data 0 0]).length ≤ _
      decide
  have legal : ∀ arrival ∈ [Arrival.parity 0 0, .data 0 0],
      arrival.Legal ⟨0, [(first, [7]), (second, [9, 11])], [symbol]⟩ := by
    simp [Arrival.Legal]
  obtain ⟨width, sound⟩ := (encode_ready pairPlan_valid pairSteps pairSteps_sendable).blocks _ emitted
  refine ⟨_, emitted, recoverable, ?_⟩
  apply (decoder_recovers pairPlan pairPlan_valid pairSteps pairSteps_sendable _ emitted {} rfl (by simp)
    _ legal ?_).2 recoverable
  intro before arrival after split
  have member : arrival ∈ [Arrival.parity 0 0, .data 0 0] := by
    rw [split]
    simp
  apply keeps_own pairPlan_valid sound _ arrival (legal arrival member)
  simp only [List.mem_cons, List.not_mem_nil, or_false] at member
  rcases member with rfl | rfl <;> simp [Arrival.dataIndex?, Arrival.parityRow?]

end Run

end Norr.Fec
