import Norr.Fec.Arrivals

/-! Symbols that reach the decoder in the order they were made and without a loss: no packet is
recovered, since every block is complete before its parity comes. -/

namespace Norr.Fec

open FecEncoder FecDecoder

/-- The block has its first `count` packets and no parity. -/
structure Block.Filled (plan : FecPlan) (id : UInt32) (count : ℕ) (block : Block) : Prop where
  id : block.id = id
  dataCount : block.dataCount = plan.data
  parityCount : block.parityCount = plan.parity
  slots : block.data.length = plan.data
  symbols : ∀ index, block.data.getD index [] = [] ↔ count ≤ index
  parity : ∀ row, block.parity.getD row [] = []
  received : block.dataReceived = count

namespace Block.Filled

variable {plan : FecPlan} {id : UInt32} {count : ℕ} {block : Block}

theorem recover (filled : block.Filled plan id count) : block.recover = none := by
  have rows : block.rows = [] := by
    rw [Block.rows, List.filter_eq_nil_iff]
    intro row _
    rw [filled.parity row]
    simp
  rw [Block.recover, if_pos]
  by_cases missing : block.missing = []
  · exact .inl missing
  · right
    rw [rows]
    exact List.length_pos_iff.mpr missing

theorem store (filled : block.Filled plan id count) (bound : count < plan.data) {header : FecSymbolHeader}
    (data : header.parity = false) (index : header.index.toNat = count) (payload : Bytes) :
    ∃ stored, block.store header payload = (stored, true) ∧ stored.Filled plan id (count + 1) := by
  have inside : ¬ count ≥ block.dataCount := by
    rw [filled.dataCount]
    exact not_le.mpr bound
  have free : ¬ block.data.getD count [] ≠ [] := not_not.mpr ((filled.symbols count).mpr le_rfl)
  refine ⟨{ block with data := block.data.set count (lengthPrefixed payload)
                       dataReceived := block.dataReceived + 1 }, ?_, ?_⟩
  · simp only [Block.store, data, index, Bool.false_eq_true, if_false, if_neg inside, if_neg free]
  · refine ⟨filled.id, filled.dataCount, filled.parityCount, ?_, fun position => ?_, filled.parity, ?_⟩
    · rw [List.length_set, filled.slots]
    · have filledSlot : count < block.data.length := filled.slots.symm ▸ bound
      rw [List.getD_eq_getElem?_getD, List.getElem?_set]
      by_cases here : count = position
      · rw [if_pos here, if_pos filledSlot, Option.getD_some]
        exact iff_of_false (Block.Matches.lengthPrefixed_ne_nil payload) (by omega)
      · rw [if_neg here, ← List.getD_eq_getElem?_getD, filled.symbols]
        omega
    · exact congrArg (· + 1) filled.received

end Block.Filled

namespace FecDecoder

variable {plan : FecPlan} {id : UInt32} {count : ℕ} {decoder : FecDecoder}

/-- The next symbol of the block is the one after its first `count` packets. -/
structure Awaits (plan : FecPlan) (id : UInt32) (count : ℕ) (decoder : FecDecoder) : Prop where
  unfinished : id ∉ decoder.finished
  block : count = 0 ∧ decoder.own id = [] ∨ ∃ block, decoder.own id = [block] ∧ block.Filled plan id count

/-- One decoder has, but for the block, what the other has. -/
structure Beside (id : UInt32) (before after : FecDecoder) : Prop where
  own : ∀ other, other ≠ id → after.own other = before.own other
  members : ∀ block ∈ after.blocks, block.id = id ∨ ∃ old ∈ before.blocks, old.id = block.id

theorem Beside.trans {first second third : FecDecoder} (early : first.Beside id second)
    (late : second.Beside id third) : first.Beside id third := by
  refine ⟨fun other differs => (late.own other differs).trans (early.own other differs), fun block member => ?_⟩
  rcases late.members block member with own | ⟨middle, present, same⟩
  · exact .inl own
  · rcases early.members middle present with own | ⟨old, earlier, equal⟩
    · exact .inl (same ▸ own)
    · exact .inr ⟨old, earlier, equal.trans same⟩

theorem findOrCreate_fills (awaits : decoder.Awaits plan id count)
    (room : decoder.blocks.length < kMaximumOutstandingBlocks) {header : FecSymbolHeader}
    (same : header.blockId = id) (size : header.blockSize.toNat = plan.data)
    (parity : header.parityCount.toNat = plan.parity) (now : Instant) :
    (decoder.findOrCreate header now).1.own id = [(decoder.findOrCreate header now).2] ∧
      (decoder.findOrCreate header now).2.Filled plan id count ∧
      decoder.Beside id (decoder.findOrCreate header now).1 := by
  have search := decoder.find_own id
  unfold findOrCreate
  rw [same]
  rcases awaits.block with ⟨rfl, absent⟩ | ⟨block, present, filled⟩
  · rw [absent, List.head?_nil] at search
    rw [search]
    simp only [if_neg (not_le.mpr room)]
    refine ⟨?_, ?_, fun other differs => ?_, fun block member => ?_⟩
    · rw [own, List.filter_append, show decoder.blocks.filter (fun block => block.id = id) = [] from absent]
      simp
    · refine ⟨rfl, size, parity, ?_, fun index => ?_, fun row => blank_slot _ _, rfl⟩
      · rw [List.length_replicate, size]
      · exact iff_of_true (blank_slot _ _) (Nat.zero_le index)
    · rw [own, List.filter_append, List.filter_cons_of_neg (by simpa using Ne.symm differs)]
      simp [own]
    · rcases List.mem_append.mp member with old | new
      · exact .inr ⟨block, old, rfl⟩
      · rw [List.mem_singleton.mp new]
        exact .inl rfl
  · rw [present, List.head?_cons] at search
    rw [search]
    exact ⟨present, filled, fun _ _ => rfl, fun block member => .inr ⟨block, member, rfl⟩⟩

theorem replaceBlock_beside (decoder : FecDecoder) {updated : Block} (same : updated.id = id) :
    decoder.Beside id { decoder with blocks := replaceBlock updated decoder.blocks } := by
  refine ⟨fun other differs => ?_, fun block member => ?_⟩
  · exact replaceBlock_other updated other (same.symm ▸ Ne.symm differs) decoder.blocks
  · rcases (mem_replaceBlock member).imp_left (congrArg Block.id) with own | old
    · exact .inl (own.trans same)
    · exact .inr ⟨block, old, rfl⟩

theorem finish_beside (decoder : FecDecoder) (id : UInt32) : decoder.Beside id (decoder.finish id) := by
  refine ⟨fun other differs => own_finish_other decoder other id (Ne.symm differs), fun block member => ?_⟩
  exact .inr ⟨block, (List.mem_filter.mp member).1, rfl⟩

theorem trimmed_recent {finished : List UInt32} {place : ℕ} (found : (trimmed finished).reverse[place]? = some id) :
    finished.reverse[place]? = some id := by
  rw [trimmed, List.reverse_drop, List.getElem?_take] at found
  split_ifs at found
  exact found

/-- The next packet of a block recovers nothing; the last one finishes the block. -/
structure Takes (plan : FecPlan) (id : UInt32) (count : ℕ) (before after : FecDecoder) : Prop where
  beside : before.Beside id after
  last : count + 1 = plan.data → after.own id = [] ∧ after.finished = (before.finish id).finished
  more : count + 1 ≠ plan.data → after.finished = before.finished ∧ after.Awaits plan id (count + 1)

theorem receive_next (awaits : decoder.Awaits plan id count) (bound : count < plan.data)
    (room : decoder.blocks.length < kMaximumOutstandingBlocks) {header : FecSymbolHeader}
    (same : header.blockId = id) (size : header.blockSize.toNat = plan.data)
    (parity : header.parityCount.toNat = plan.parity) (data : header.parity = false)
    (index : header.index.toNat = count) (payload : Bytes) (now : Instant) :
    ∃ after, decoder.receive header payload now = (after, []) ∧ decoder.Takes plan id count after := by
  obtain ⟨single, filled, beside⟩ := findOrCreate_fills awaits room same size parity now
  have untouched := decoder.findOrCreate_finished header now
  have unseen : ¬ decoder.finished.contains header.blockId = true := by
    simpa [same] using awaits.unfinished
  unfold receive
  rw [if_neg unseen]
  generalize decoder.findOrCreate header now = found at single filled beside untouched
  obtain ⟨opened, block⟩ := found
  dsimp only at single filled beside untouched ⊢
  rw [if_neg (by simp [filled.parityCount, parity])]
  obtain ⟨stored, taken, filled'⟩ := filled.store bound data index payload
  rw [taken]
  simp only [Bool.true_eq_false, if_false]
  have written := replaceBlock_own stored block id filled'.id opened.blocks single
  have beside' := beside.trans (replaceBlock_beside opened filled'.id)
  unfold settle
  rw [filled'.received, filled'.dataCount, filled'.id]
  split_ifs with complete
  · refine ⟨_, rfl, beside'.trans (finish_beside _ id), fun _ => ⟨own_finish_self _ _, ?_⟩, fun more => ?_⟩
    · rw [finish, finish, untouched]
    · exact absurd complete more
  · rw [tryRecover, filled'.recover]
    refine ⟨_, rfl, beside', fun last => absurd last complete, fun _ => ⟨untouched, ?_, ?_⟩⟩
    · rw [untouched]
      exact awaits.unfinished
    · exact .inr ⟨stored, written, filled'⟩

end FecDecoder

namespace FecEncoder

/-- The lanes take turns. `round` packets of each block under way have been sent, one more on the lanes
before the cursor; `number` and `next` are the block ids without their wrap at 2^32. -/
structure Rotates (plan : FecPlan) (encoder : FecEncoder) (round : ℕ) (number : Fin 4 → ℕ) (next : ℕ) :
    Prop where
  planned : encoder.plan = plan
  cursor : encoder.cursor.val < plan.lanes
  within : round < plan.data
  index : ∀ lane : Fin 4, lane.val < plan.lanes → (encoder.lanes lane).index =
    if lane.val < encoder.cursor.val then (round + 1) % plan.data else round
  blockId : ∀ lane : Fin 4, lane.val < plan.lanes → (encoder.lanes lane).blockId = UInt32.ofNat (number lane)
  nextBlock : encoder.nextBlock = UInt32.ofNat next
  older : ∀ lane : Fin 4, lane.val < plan.lanes → number lane < next
  apart : ∀ first second : Fin 4, first.val < plan.lanes → second.val < plan.lanes →
    number first = number second → first = second
  /-- In the last round the lanes before the cursor have their next block already. -/
  age : ∀ lane : Fin 4, lane.val < plan.lanes →
    next ≤ number lane + 4 + if round + 1 = plan.data then encoder.cursor.val else 0
  renewed : ∀ lane : Fin 4, lane.val < encoder.cursor.val → round + 1 = plan.data →
    next ≤ number lane + encoder.cursor.val

variable {plan : FecPlan} {encoder : FecEncoder} {round next : ℕ} {number : Fin 4 → ℕ}

theorem Rotates.close (rotates : encoder.Rotates plan round number next) (lane : Fin 4)
    (used : lane.val < plan.lanes) : next ≤ number lane + 8 := by
  have age := rotates.age lane used
  split_ifs at age <;> omega

theorem Rotates.current (rotates : encoder.Rotates plan round number next) :
    (encoder.lanes encoder.cursor).index = round := by
  rw [rotates.index _ rotates.cursor, if_neg (lt_irrefl _)]

/-- The encoder once a packet is sent, and the block it belonged to is closed with its last. -/
def turned (encoder : FecEncoder) (plan : FecPlan) (lane : Lane) (next : UInt32) : FecEncoder :=
  { plan
    lanes := Function.update encoder.lanes encoder.cursor lane
    cursor := Fin.ofNat 4 ((encoder.cursor.val + 1) % plan.lanes)
    nextBlock := next }

theorem turned_cursor (valid : plan.Valid) (cursor : encoder.cursor.val < plan.lanes) (lane : Lane)
    (next : UInt32) : (encoder.turned plan lane next).cursor.val =
      if encoder.cursor.val + 1 = plan.lanes then 0 else encoder.cursor.val + 1 := by
  have limit : plan.lanes ≤ 4 := valid.lanesLimit
  have wrapped : (encoder.cursor.val + 1) % plan.lanes < plan.lanes := Nat.mod_lt _ valid.someLanes
  change (encoder.cursor.val + 1) % plan.lanes % 4 = _
  rw [Nat.mod_eq_of_lt (by omega)]
  split_ifs with full
  · rw [full, Nat.mod_self]
  · exact Nat.mod_eq_of_lt (by omega)

theorem add_more (valid : plan.Valid) (rotates : encoder.Rotates plan round number next)
    (more : round + 1 ≠ plan.data) {packet : Bytes} (size : packet.length ≤ 0xFFFF) :
    ∃ lane : Lane, encoder.add packet = (encoder.turned plan lane encoder.nextBlock, []) ∧
      lane.index = round + 1 ∧ lane.blockId = (encoder.lanes encoder.cursor).blockId := by
  have within := rotates.within
  have index : ((encoder.lanes encoder.cursor).absorb packet).index = round + 1 :=
    congrArg (· + 1) rotates.current
  refine ⟨_, ?_, index, absorb_blockId _ packet⟩
  unfold add
  have sent : ¬ (plan.active = false ∨ packet.length > 0xFFFF) := by
    rw [valid.active]
    simpa using size
  rw [rotates.planned, if_neg sent]
  dsimp only
  rw [if_neg (by omega)]
  rfl

theorem add_last (valid : plan.Valid) (rotates : encoder.Rotates plan round number next)
    (last : round + 1 = plan.data) {packet : Bytes} (size : packet.length ≤ 0xFFFF) :
    ∃ lane : Lane, (encoder.add packet).1 = encoder.turned plan lane (encoder.nextBlock + 1) ∧
      lane.index = 0 ∧ lane.blockId = encoder.nextBlock ∧
      ∀ symbol ∈ (encoder.add packet).2, ∃ row width payload, row < plan.parity ∧
        symbol = serializeFecHeader (parityHeader plan (encoder.lanes encoder.cursor).blockId plan.data width
          row) ++ payload := by
  have index : ((encoder.lanes encoder.cursor).absorb packet).index = plan.data :=
    (congrArg (· + 1) rotates.current).trans last
  have sent : ¬ (plan.active = false ∨ packet.length > 0xFFFF) := by
    rw [valid.active]
    simpa using size
  refine ⟨{ blockId := encoder.nextBlock,
            parity := ((encoder.lanes encoder.cursor).absorb packet).parity.map fun _ => [] }, ?_, rfl, rfl, ?_⟩
  · unfold add
    rw [rotates.planned, if_neg sent]
    dsimp only
    rw [if_pos index.ge]
    simp only [emit, Function.update_self, Function.update_idem]
    rfl
  · intro symbol member
    unfold add at member
    rw [rotates.planned, if_neg sent] at member
    dsimp only at member
    rw [if_pos index.ge] at member
    simp only [emit, Function.update_self, List.mem_map, List.mem_range] at member
    obtain ⟨row, bound, rfl⟩ := member
    refine ⟨row, ((encoder.lanes encoder.cursor).absorb packet).width,
      ((encoder.lanes encoder.cursor).absorb packet).parity.getD row [], bound, ?_⟩
    rw [paritySymbol, index, absorb_blockId]
    rfl

theorem turned_lanes (lane : Lane) (next : UInt32) (other : Fin 4) :
    (encoder.turned plan lane next).lanes other = if other = encoder.cursor then lane else encoder.lanes other :=
  Function.update_apply _ _ _ _

theorem Rotates.turned_index (rotates : encoder.Rotates plan round number next) {lane : Lane}
    (index : lane.index = (round + 1) % plan.data) (id : UInt32) (other : Fin 4)
    (used : other.val < plan.lanes) : ((encoder.turned plan lane id).lanes other).index =
      if other.val < encoder.cursor.val + 1 then (round + 1) % plan.data else round := by
  rw [turned_lanes]
  by_cases here : other = encoder.cursor
  · rw [if_pos here, if_pos (by rw [here]; exact Nat.lt_succ_self _), index]
  · have apart : other.val ≠ encoder.cursor.val := fun equal => here (Fin.ext equal)
    rw [if_neg here, rotates.index other used]
    exact if_congr (by omega) rfl rfl

theorem Rotates.more (valid : plan.Valid) (rotates : encoder.Rotates plan round number next)
    (more : round + 1 ≠ plan.data) {lane : Lane} (index : lane.index = round + 1)
    (same : lane.blockId = (encoder.lanes encoder.cursor).blockId) :
    ∃ later, (encoder.turned plan lane encoder.nextBlock).Rotates plan later number next := by
  have cursor := turned_cursor valid rotates.cursor lane encoder.nextBlock
  have inside := rotates.cursor
  have within := rotates.within
  have step : (round + 1) % plan.data = round + 1 := Nat.mod_eq_of_lt (by omega)
  have indices := rotates.turned_index (index.trans step.symm) encoder.nextBlock
  have ids (other : Fin 4) (used : other.val < plan.lanes) :
      ((encoder.turned plan lane encoder.nextBlock).lanes other).blockId = UInt32.ofNat (number other) := by
    rw [turned_lanes, ← rotates.blockId other used]
    split_ifs with here
    · rw [same, here]
    · rfl
  have close (other : Fin 4) (used : other.val < plan.lanes) : next ≤ number other + 4 := by
    have age := rotates.age other used
    rwa [if_neg more] at age
  by_cases full : encoder.cursor.val + 1 = plan.lanes
  · rw [if_pos full] at cursor
    refine ⟨round + 1, rfl, cursor.symm ▸ valid.someLanes, by omega, fun other used => ?_, ids,
      rotates.nextBlock, rotates.older, rotates.apart, fun other used => ?_, fun other before => ?_⟩
    · rw [indices other used, cursor, if_pos (by omega), if_neg (Nat.not_lt_zero _), step]
    · exact Nat.le_add_right_of_le (close other used)
    · rw [cursor] at before
      exact absurd before (Nat.not_lt_zero _)
  · rw [if_neg full] at cursor
    refine ⟨round, rfl, by omega, within, fun other used => ?_, ids, rotates.nextBlock, rotates.older,
      rotates.apart, fun other used => ?_, fun _ _ last => absurd last more⟩
    · rw [indices other used, cursor]
    · exact Nat.le_add_right_of_le (close other used)

theorem Rotates.last (valid : plan.Valid) (rotates : encoder.Rotates plan round number next)
    (last : round + 1 = plan.data) {lane : Lane} (index : lane.index = 0)
    (fresh : lane.blockId = encoder.nextBlock) :
    ∃ later, (encoder.turned plan lane (encoder.nextBlock + 1)).Rotates plan later
      (Function.update number encoder.cursor next) (next + 1) := by
  have cursor := turned_cursor valid rotates.cursor lane (encoder.nextBlock + 1)
  have inside := rotates.cursor
  have limit : plan.lanes ≤ 4 := valid.lanesLimit
  have step : (round + 1) % plan.data = 0 := by rw [last, Nat.mod_self]
  have indices := rotates.turned_index (index.trans step.symm) (encoder.nextBlock + 1)
  have ids (other : Fin 4) (used : other.val < plan.lanes) :
      ((encoder.turned plan lane (encoder.nextBlock + 1)).lanes other).blockId =
        UInt32.ofNat (Function.update number encoder.cursor next other) := by
    rw [turned_lanes, Function.update_apply]
    split_ifs with here
    · rw [fresh, rotates.nextBlock]
    · exact rotates.blockId other used
  have nextId : encoder.nextBlock + 1 = UInt32.ofNat (next + 1) := by
    rw [rotates.nextBlock, UInt32.ofNat_add]
    rfl
  have older (other : Fin 4) (used : other.val < plan.lanes) :
      Function.update number encoder.cursor next other < next + 1 := by
    rw [Function.update_apply]
    split_ifs
    · exact Nat.lt_succ_self next
    · exact Nat.lt_succ_of_lt (rotates.older other used)
  have apart (first second : Fin 4) (used : first.val < plan.lanes) (used' : second.val < plan.lanes)
      (equal : Function.update number encoder.cursor next first =
        Function.update number encoder.cursor next second) : first = second := by
    have before := rotates.older first used
    have before' := rotates.older second used'
    rw [Function.update_apply, Function.update_apply] at equal
    split_ifs at equal with here there there
    · exact here.trans there.symm
    · omega
    · omega
    · exact rotates.apart first second used used' equal
  have renewed (other : Fin 4) (reached : other.val ≤ encoder.cursor.val) :
      next + 1 ≤ Function.update number encoder.cursor next other + (encoder.cursor.val + 1) := by
    rw [Function.update_apply]
    split_ifs with here
    · omega
    · have apart : other.val ≠ encoder.cursor.val := fun equal => here (Fin.ext equal)
      have renewed := rotates.renewed other (by omega) last
      omega
  by_cases full : encoder.cursor.val + 1 = plan.lanes
  · rw [if_pos full] at cursor
    refine ⟨0, rfl, cursor.symm ▸ valid.someLanes, valid.someData, fun other used => ?_, ids, nextId, older,
      apart, fun other used => ?_, fun other before => ?_⟩
    · rw [indices other used, cursor, if_pos (by omega), if_neg (Nat.not_lt_zero _), step]
    · exact Nat.le_add_right_of_le ((renewed other (by omega)).trans (by omega))
    · rw [cursor] at before
      exact absurd before (Nat.not_lt_zero _)
  · rw [if_neg full] at cursor
    refine ⟨round, rfl, by omega, rotates.within, fun other used => ?_, ids, nextId, older, apart,
      fun other used => ?_, fun other before _ => ?_⟩
    · rw [indices other used, cursor]
    · have age := rotates.age other used
      rw [if_pos last] at age
      rw [if_pos last, cursor, Function.update_apply]
      split_ifs <;> omega
    · rw [cursor] at before ⊢
      exact renewed other (Nat.le_of_lt_succ before)

end FecEncoder

theorem ofNat_ne {first second : ℕ} (differ : first ≠ second) (above : first < second + 2 ^ 32)
    (below : second < first + 2 ^ 32) : UInt32.ofNat first ≠ UInt32.ofNat second := by
  intro equal
  have same : first % 2 ^ 32 = second % 2 ^ 32 := by
    simpa [UInt32.toNat_ofNat'] using congrArg UInt32.toNat equal
  omega

/-- The decoder has what the encoder has sent. -/
structure InStep (plan : FecPlan) (encoder : FecEncoder) (decoder : FecDecoder) (next : ℕ) : Prop where
  lanes : ∀ lane : Fin 4, lane.val < plan.lanes →
    decoder.Awaits plan (encoder.lanes lane).blockId (encoder.lanes lane).index
  members : ∀ block ∈ decoder.blocks, ∃ lane : Fin 4, block.id = (encoder.lanes lane).blockId ∧
    lane.val < plan.lanes
  finished : ∀ place id, decoder.finished.reverse[place]? = some id →
    ∃ old, id = UInt32.ofNat old ∧ old < next ∧ next ≤ old + place + 9
  short : decoder.finished.length ≤ 256

namespace InStep

variable {plan : FecPlan} {encoder : FecEncoder} {decoder : FecDecoder} {round next : ℕ} {number : Fin 4 → ℕ}

theorem blocks_le (inStep : InStep plan encoder decoder next) : decoder.blocks.length ≤ 4 := by
  have single (id : UInt32) : (decoder.own id).length ≤ 1 := by
    by_cases absent : decoder.own id = []
    · simp [absent]
    · obtain ⟨block, member⟩ := List.exists_mem_of_ne_nil _ absent
      obtain ⟨present, same⟩ := List.mem_filter.mp member
      obtain ⟨lane, owner, used⟩ := inStep.members block present
      have here : id = (encoder.lanes lane).blockId := (of_decide_eq_true same).symm.trans owner
      rcases (inStep.lanes lane used).block with ⟨-, none⟩ | ⟨block, one, -⟩
      · rw [here, none]
        simp
      · rw [here, one]
        simp
  have distinct : (decoder.blocks.map Block.id).Nodup := by
    rw [List.nodup_iff_count_le_one]
    intro id
    rw [List.count_eq_countP, List.countP_map, List.countP_eq_length_filter]
    exact single id
  have inside : decoder.blocks.map Block.id ⊆ (List.finRange 4).map fun lane => (encoder.lanes lane).blockId := by
    intro id member
    obtain ⟨block, present, rfl⟩ := List.mem_map.mp member
    obtain ⟨lane, owner, -⟩ := inStep.members block present
    exact List.mem_map.mpr ⟨lane, List.mem_finRange lane, owner.symm⟩
  simpa using (distinct.subperm inside).length_le

theorem finished_recent (inStep : InStep plan encoder decoder next) {id : UInt32} (member : id ∈ decoder.finished) :
    ∃ old, id = UInt32.ofNat old ∧ old < next ∧ next < old + 2 ^ 32 := by
  obtain ⟨place, bound, found⟩ := List.mem_iff_getElem.mp (List.mem_reverse.mpr member)
  obtain ⟨old, same, earlier, recent⟩ := inStep.finished place id (List.getElem?_eq_some_iff.mpr ⟨bound, found⟩)
  have short := inStep.short
  rw [List.length_reverse] at bound
  exact ⟨old, same, earlier, by omega⟩

theorem apart (rotates : encoder.Rotates plan round number next) {first second : Fin 4}
    (used : first.val < plan.lanes) (used' : second.val < plan.lanes) (differ : first ≠ second) :
    (encoder.lanes first).blockId ≠ (encoder.lanes second).blockId := by
  have close := rotates.close first used
  have close' := rotates.close second used'
  have older := rotates.older first used
  have older' := rotates.older second used'
  rw [rotates.blockId first used, rotates.blockId second used']
  exact ofNat_ne (fun equal => differ (rotates.apart first second used used' equal)) (by omega) (by omega)

theorem nextHeader_valid (valid : plan.Valid) (rotates : encoder.Rotates plan round number next) (length : ℕ) :
    (encoder.nextHeader length).index.toNat = round ∧ (encoder.nextHeader length).blockSize.toNat = plan.data ∧
      (encoder.nextHeader length).parityCount.toNat = plan.parity ∧ (encoder.nextHeader length).Valid := by
  have within := rotates.within
  have size : (encoder.nextHeader length).blockSize.toNat = plan.data := by
    rw [nextHeader, rotates.planned]
    exact blockSize_toNat valid.dataLimit
  have index : (encoder.nextHeader length).index.toNat = round := by
    rw [nextHeader, rotates.current]
    exact blockSize_toNat (within.le.trans valid.dataLimit)
  have parity : (encoder.nextHeader length).parityCount.toNat = plan.parity := by
    rw [nextHeader, rotates.planned]
    exact parityCount_toNat valid.parityLimit
  refine ⟨index, size, parity, ?_, ?_, ?_, ?_, ?_⟩
  · exact size.symm ▸ valid.someData
  · exact size.symm ▸ valid.dataLimit
  · exact parity.symm ▸ valid.someParity
  · exact parity.symm ▸ valid.parityLimit
  · change (encoder.nextHeader length).index < (encoder.nextHeader length).blockSize
    rw [UInt8.lt_iff_toNat_lt, index, size]
    exact within

theorem awaits_other (rotates : encoder.Rotates plan round number next) (inStep : InStep plan encoder decoder next)
    {after : FecDecoder} (beside : decoder.Beside (encoder.lanes encoder.cursor).blockId after)
    (finished : ∀ id ∈ after.finished, id ∈ decoder.finished ∨ id = (encoder.lanes encoder.cursor).blockId)
    {lane : Fin 4} (used : lane.val < plan.lanes) (other : lane ≠ encoder.cursor) :
    after.Awaits plan (encoder.lanes lane).blockId (encoder.lanes lane).index := by
  have differs := apart rotates used rotates.cursor other
  have awaits := inStep.lanes lane used
  refine ⟨fun member => ?_, ?_⟩
  · rcases finished _ member with old | own
    · exact awaits.unfinished old
    · exact differs own
  · rw [beside.own _ differs]
    exact awaits.block

theorem more (rotates : encoder.Rotates plan round number next) (inStep : InStep plan encoder decoder next)
    (unfilled : round + 1 ≠ plan.data) {lane : Lane} (index : lane.index = round + 1)
    (same : lane.blockId = (encoder.lanes encoder.cursor).blockId) {after : FecDecoder}
    (takes : decoder.Takes plan (encoder.lanes encoder.cursor).blockId round after) :
    InStep plan (encoder.turned plan lane encoder.nextBlock) after next := by
  obtain ⟨finished, awaits⟩ := takes.more unfilled
  have id (other : Fin 4) : ((encoder.turned plan lane encoder.nextBlock).lanes other).blockId =
      (encoder.lanes other).blockId := by
    rw [turned_lanes]
    split_ifs with here
    · rw [same, here]
    · rfl
  refine ⟨fun other used => ?_, fun block member => ?_, ?_, ?_⟩
  · rw [turned_lanes]
    split_ifs with here
    · rw [same, index]
      exact awaits
    · exact awaits_other rotates inStep takes.beside (fun id member => .inl (finished ▸ member)) used here
  · rcases takes.beside.members block member with own | ⟨old, present, equal⟩
    · exact ⟨encoder.cursor, own.trans (id _).symm, rotates.cursor⟩
    · obtain ⟨owner, owned, used⟩ := inStep.members old present
      exact ⟨owner, (equal.symm.trans owned).trans (id owner).symm, used⟩
  · rw [finished]
    exact inStep.finished
  · rw [finished]
    exact inStep.short

theorem next_unused (rotates : encoder.Rotates plan round number next) (inStep : InStep plan encoder decoder next) :
    decoder.own encoder.nextBlock = [] ∧ encoder.nextBlock ∉ decoder.finished ∧
      encoder.nextBlock ≠ (encoder.lanes encoder.cursor).blockId := by
  have fresh (lane : Fin 4) (used : lane.val < plan.lanes) : encoder.nextBlock ≠ (encoder.lanes lane).blockId := by
    have close := rotates.close lane used
    have older := rotates.older lane used
    rw [rotates.nextBlock, rotates.blockId lane used]
    exact ofNat_ne (by omega) (by omega) (by omega)
  refine ⟨?_, fun member => ?_, fresh _ rotates.cursor⟩
  · rw [own, List.filter_eq_nil_iff]
    intro block member same
    obtain ⟨lane, owner, used⟩ := inStep.members block member
    exact fresh lane used ((of_decide_eq_true same).symm.trans owner)
  · obtain ⟨old, same, earlier, recent⟩ := inStep.finished_recent member
    rw [rotates.nextBlock] at same
    exact ofNat_ne (by omega) recent (by omega) same

theorem last (rotates : encoder.Rotates plan round number next) (inStep : InStep plan encoder decoder next)
    (filled : round + 1 = plan.data) {lane : Lane} (index : lane.index = 0)
    (fresh : lane.blockId = encoder.nextBlock) {after : FecDecoder}
    (takes : decoder.Takes plan (encoder.lanes encoder.cursor).blockId round after) :
    InStep plan (encoder.turned plan lane (encoder.nextBlock + 1)) after (next + 1) := by
  obtain ⟨gone, finished⟩ := takes.last filled
  obtain ⟨unseen, unfinished, differs⟩ := next_unused rotates inStep
  have close := rotates.close _ rotates.cursor
  have older := rotates.older _ rotates.cursor
  have finishes (id : UInt32) (member : id ∈ after.finished) :
      id ∈ decoder.finished ∨ id = (encoder.lanes encoder.cursor).blockId := by
    rw [finished] at member
    exact mem_finish member
  refine ⟨fun other used => ?_, fun block member => ?_, fun place id found => ?_, ?_⟩
  · rw [turned_lanes]
    split_ifs with here
    · rw [fresh, index]
      refine ⟨fun member => ?_, .inl ⟨rfl, ?_⟩⟩
      · exact (finishes _ member).elim unfinished differs
      · rw [takes.beside.own _ differs]
        exact unseen
    · exact awaits_other rotates inStep takes.beside finishes used here
  · have elsewhere : block.id ≠ (encoder.lanes encoder.cursor).blockId := by
      intro same
      have own : block ∈ after.own (encoder.lanes encoder.cursor).blockId :=
        List.mem_filter.mpr ⟨member, decide_eq_true same⟩
      rw [gone] at own
      cases own
    rcases takes.beside.members block member with own | ⟨old, present, equal⟩
    · exact absurd own elsewhere
    · obtain ⟨owner, owned, used⟩ := inStep.members old present
      have other : owner ≠ encoder.cursor := by
        rintro rfl
        exact elsewhere (equal.symm.trans owned)
      refine ⟨owner, ?_, used⟩
      rw [turned_lanes, if_neg other]
      exact equal.symm.trans owned
  · rw [finished, finish_finished] at found
    have found := trimmed_recent found
    rw [List.reverse_append, List.reverse_singleton, List.singleton_append] at found
    cases place with
    | zero =>
      rw [List.getElem?_cons_zero] at found
      refine ⟨number encoder.cursor, ?_, by omega, by omega⟩
      rw [← rotates.blockId _ rotates.cursor]
      exact (Option.some.inj found).symm
    | succ place =>
      rw [List.getElem?_cons_succ] at found
      obtain ⟨old, same, earlier, recent⟩ := inStep.finished place id found
      exact ⟨old, same, by omega, by omega⟩
  · rw [finished, finish_finished]
    exact trimmed_length _

/-- A packet is taken and nothing recovered; the parity of its block comes when the block is finished. -/
theorem packet (valid : plan.Valid) (rotates : encoder.Rotates plan round number next)
    (inStep : InStep plan encoder decoder next) {packet : Bytes} (size : packet.length ≤ 0xFFFF) (now : Instant) :
    ∃ after, decoder.receive (encoder.nextHeader packet.length) packet now = (after, []) ∧
      (∃ round number next, (encoder.add packet).1.Rotates plan round number next ∧
        InStep plan (encoder.add packet).1 after next) ∧
      ∀ symbol ∈ (encoder.add packet).2, ∃ header payload, symbol = serializeFecHeader header ++ payload ∧
        header.Valid ∧ header.parity = true ∧ header.blockId ∈ after.finished := by
  obtain ⟨index, blockSize, parityCount, -⟩ := nextHeader_valid valid rotates packet.length
  have awaits := inStep.lanes _ rotates.cursor
  rw [rotates.current] at awaits
  have room : decoder.blocks.length < kMaximumOutstandingBlocks :=
    inStep.blocks_le.trans_lt (by decide)
  obtain ⟨after, received, takes⟩ :=
    receive_next awaits rotates.within room rfl blockSize parityCount rfl index packet now
  refine ⟨after, received, ?_⟩
  by_cases filled : round + 1 = plan.data
  · obtain ⟨lane, added, empty, fresh, symbols⟩ := add_last valid rotates filled size
    obtain ⟨later, turned⟩ := rotates.last valid filled empty fresh
    rw [added]
    refine ⟨⟨later, _, _, turned, inStep.last rotates filled empty fresh takes⟩, fun symbol member => ?_⟩
    obtain ⟨row, width, payload, bound, rfl⟩ := symbols symbol member
    refine ⟨_, payload, rfl, ?_, rfl, ?_⟩
    · exact parityHeader_valid valid valid.someData le_rfl bound
    · rw [(takes.last filled).2]
      exact mem_finish_self decoder _
  · obtain ⟨lane, added, longer, same⟩ := add_more valid rotates filled size
    obtain ⟨later, turned⟩ := rotates.more valid filled longer same
    rw [added]
    exact ⟨⟨later, _, _, turned, inStep.more rotates filled longer same takes⟩, by simp⟩

theorem start (rotates : encoder.Rotates plan 0 number next) (cursor : encoder.cursor = 0) :
    InStep plan encoder {} next := by
  refine ⟨fun lane used => ⟨List.not_mem_nil, .inl ⟨?_, rfl⟩⟩, by simp, by simp, by simp⟩
  rw [rotates.index lane used, cursor]
  exact if_neg (Nat.not_lt_zero _)

end InStep

namespace FecEncoder

theorem configure_valid (encoder : FecEncoder) (plan : FecPlan)
    (active : (encoder.configure plan).plan.active = true) : (encoder.configure plan).plan.Valid := by
  simp only [configure] at active ⊢
  split_ifs at active ⊢ with limited
  · simp only [FecPlan.active, Bool.and_eq_true, decide_eq_true_eq] at limited
    exact ⟨limited.1, min_le_right _ _, limited.2, min_le_right _ _, by simp [kMaximumFecLanes],
      min_le_right _ _⟩
  · cases active

theorem resumed_ids (plan : FecPlan) (base : UInt32) :
    (∀ lane : Fin 4, (((configure {} plan).resumeAt base).lanes lane).index = 0 ∧
      (((configure {} plan).resumeAt base).lanes lane).blockId = UInt32.ofNat (base.toNat + lane.val)) ∧
    ((configure {} plan).resumeAt base).nextBlock = UInt32.ofNat (base.toNat + 4) := by
  have zero : base = UInt32.ofNat (base.toNat + 0) := by simp
  have step (count : ℕ) : UInt32.ofNat (base.toNat + count) + 1 = UInt32.ofNat (base.toNat + (count + 1)) := by
    rw [← Nat.add_assoc, UInt32.ofNat_add (base.toNat + count)]
    rfl
  have one : base + 1 = UInt32.ofNat (base.toNat + 1) := (congrArg (· + 1) zero).trans (step 0)
  have two : base + 1 + 1 = UInt32.ofNat (base.toNat + 2) := (congrArg (· + 1) one).trans (step 1)
  have three : base + 1 + 1 + 1 = UInt32.ofNat (base.toNat + 3) := (congrArg (· + 1) two).trans (step 2)
  refine ⟨fun lane => ?_, (congrArg (· + 1) three).trans (step 3)⟩
  fin_cases lane
  · exact ⟨rfl, zero⟩
  · exact ⟨rfl, one⟩
  · exact ⟨rfl, two⟩
  · exact ⟨rfl, three⟩

/-- An encoder that has its plan and its first block ids, but has sent nothing. -/
theorem resumed_rotates (plan : FecPlan) (base : UInt32) (valid : (configure {} plan).plan.Valid) :
    ((configure {} plan).resumeAt base).Rotates (configure {} plan).plan 0
      (fun lane => base.toNat + lane.val) (base.toNat + 4) := by
  obtain ⟨lanes, nextBlock⟩ := resumed_ids plan base
  refine ⟨rfl, valid.someLanes, valid.someData, fun lane _ => ?_, fun lane _ => (lanes lane).2, nextBlock,
    ?_, ?_, ?_, ?_⟩
  · exact (lanes lane).1.trans (if_neg (Nat.not_lt_zero _)).symm
  · intro lane _
    omega
  · intro first second _ _ equal
    exact Fin.ext (by omega)
  · intro lane _
    omega
  · intro lane before
    exact absurd before (Nat.not_lt_zero _)

/-- The decoder has taken every symbol of the encoder, in order. -/
def Synced (encoder : FecEncoder) (decoder : FecDecoder) : Prop :=
  encoder.plan.Valid ∧ ∃ round number next, encoder.Rotates encoder.plan round number next ∧
    InStep encoder.plan encoder decoder next

theorem resumed_synced (plan : FecPlan) (base : UInt32) (active : (configure {} plan).plan.active = true) :
    ((configure {} plan).resumeAt base).Synced {} := by
  have valid := configure_valid {} plan active
  have rotates := resumed_rotates plan base valid
  exact ⟨valid, 0, _, _, rotates, InStep.start rotates rfl⟩

theorem resumeAt_zero (plan : FecPlan) : (configure {} plan).resumeAt 0 = configure {} plan := by
  have lanes : ((configure {} plan).resumeAt 0).lanes = (configure {} plan).lanes := by
    funext lane
    fin_cases lane <;> rfl
  calc (configure {} plan).resumeAt 0
      = { configure {} plan with lanes := ((configure {} plan).resumeAt 0).lanes } := rfl
    _ = configure {} plan := by rw [lanes]

/-- A data symbol reads back as it was sent, and recovers nothing; so do the parity symbols behind it. -/
theorem Synced.packet {encoder : FecEncoder} {decoder : FecDecoder} (synced : encoder.Synced decoder)
    {packet : Bytes} (size : packet.length ≤ 0xFFFF) (now : Instant) :
    ∃ after, decoder.receive (encoder.nextHeader packet.length) packet now = (after, []) ∧
      (encoder.add packet).1.Synced after ∧
      (encoder.add packet).1.plan = encoder.plan ∧
      parseFecHeader (serializeFecHeader (encoder.nextHeader packet.length) ++ packet) =
        some (encoder.nextHeader packet.length) ∧
      ∀ symbol ∈ (encoder.add packet).2, ∃ header payload, symbol = serializeFecHeader header ++ payload ∧
        parseFecHeader symbol = some header ∧ header.parity = true ∧ header.blockId ∈ after.finished := by
  obtain ⟨valid, round, number, next, rotates, inStep⟩ := synced
  obtain ⟨-, -, -, header⟩ := InStep.nextHeader_valid valid rotates packet.length
  obtain ⟨after, received, ⟨round', number', next', rotates', inStep'⟩, symbols⟩ :=
    inStep.packet valid rotates size now
  have planned := rotates'.planned
  refine ⟨after, received, ⟨planned.symm ▸ valid, round', number', next', ?_, ?_⟩, planned,
    parse_serialize _ header packet, fun symbol member => ?_⟩
  · rw [planned]
    exact rotates'
  · rw [planned]
    exact inStep'
  · obtain ⟨header, payload, rfl, valid, parity, finished⟩ := symbols symbol member
    exact ⟨header, payload, rfl, parse_serialize header valid payload, parity, finished⟩

end FecEncoder

end Norr.Fec
