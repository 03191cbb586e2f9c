import Norr.Fec.Arrivals
import Norr.Lib.Checked

/-! The decoder with every access to a block checked, and what it keeps up on symbols nobody vouches for. -/

namespace Norr.Fec

open Checked

theorem parse_valid {bytes : Bytes} {header : FecSymbolHeader} (parsed : parseFecHeader bytes = some header) :
    header.Valid := by
  unfold parseFecHeader at parsed
  split_ifs at parsed with short tag
  dsimp only at parsed
  split_ifs at parsed with flags size count kind inside inside
  all_goals
    obtain ⟨someData, dataLimit⟩ := not_or.mp size
    obtain ⟨someParity, parityLimit⟩ := not_or.mp count
    cases parsed
    refine ⟨Nat.pos_of_ne_zero someData, not_lt.mp dataLimit, Nat.pos_of_ne_zero someParity,
      not_lt.mp parityLimit, ?_⟩
  · rw [if_pos kind]
    exact UInt8.not_le.mp inside
  · rw [if_neg kind]
    exact UInt8.not_le.mp inside

def unprefixedChecked (symbol : Bytes) : Option (Option Bytes) :=
  if symbol.length < kFecLengthPrefix then some none
  else do
    let high ← symbol[0]?
    let low ← symbol[1]?
    let length := high.toNat * 256 + low.toNat
    if length = 0 ∨ kFecLengthPrefix + length > symbol.length then some none
    else some (some ((symbol.drop kFecLengthPrefix).take length))

theorem unprefixedChecked_eq (symbol : Bytes) : unprefixedChecked symbol = some (unprefixed symbol) := by
  unfold unprefixedChecked unprefixed
  split_ifs with short
  · rfl
  · match symbol, short with
    | [], short => exact absurd (by decide) short
    | [_], short => exact absurd Nat.one_lt_two short
    | high :: low :: rest, _ =>
      have same : ByteOrder.ofBigEndian ((high :: low :: rest).take kFecLengthPrefix) =
          high.toNat * 256 + low.toNat := by
        simp [kFecLengthPrefix, ByteOrder.ofBigEndian]
      simp only [List.getElem?_cons_zero, List.getElem?_cons_succ, Option.bind_eq_bind, Option.bind_some, same]
      split_ifs <;> rfl

namespace Block

def missingChecked (block : Block) : Option (List ℕ) :=
  (List.range block.dataCount).filterM fun index => do
    let slot ← block.data[index]?
    some (decide (slot = []))

def rowsChecked (block : Block) : Option (List ℕ) :=
  (List.range block.parityCount).filterM fun index => do
    let slot ← block.parity[index]?
    some (decide (slot ≠ []))

def syndromeChecked (block : Block) (row : ℕ) : Option Bytes := do
  let parity ← block.parity[row]?
  (List.range block.dataCount).foldlM (fun sum index => do
    let slot ← block.data[index]?
    some (if slot = [] then sum else multiplyAdd sum slot (cauchy row index))) parity

def equationsChecked (block : Block) (rows missing : List ℕ) (n : ℕ) : Option (Vector (Equation n) n) :=
  -- the matrix is an array of kMaximumFecParity rows and columns
  if n > kMaximumFecParity then none
  else
    Vector.ofFnM fun r => do
      let row ← rows[r.val]?
      let coefficients ← Vector.ofFnM fun c : Fin n => do
        let column ← missing[c.val]?
        some (cauchy row column)
      let syndrome ← block.syndromeChecked row
      some ⟨coefficients, syndrome⟩

def recoverChecked (block : Block) : Option (Option (List Bytes)) := do
  let missing ← block.missingChecked
  let present ← block.rowsChecked
  if missing = [] ∨ present.length < missing.length then some none
  else do
    let rows := present.take missing.length
    let front ← rows[0]?
    let first ← block.parity[front]?
    let uneven ← rows.anyM fun row => do
      let symbol ← block.parity[row]?
      some (decide (symbol.length ≠ first.length))
    if uneven then some none
    else if block.data.any fun symbol => symbol.length > first.length then some none
    else if missing.length > kMaximumFecParity then some none
    else do
      let equations ← block.equationsChecked rows missing missing.length
      match Equation.solve equations with
      | none => some none
      | some solved => do
          let symbols ← solved.toList.mapM fun row => unprefixedChecked row.syndrome
          some (some symbols.reduceOption)

/-- Counts the symbols that a smaller block loses; `none` also when the counter would wrap. -/
def shrinkChecked (block : Block) (size : ℕ) : Option Block :=
  if size < block.dataCount then do
    let received ← (List.range' size (block.dataCount - size)).foldlM (fun received index => do
      let slot ← block.data[index]?
      if slot = [] then some received else if received = 0 then none else some (received - 1))
      block.dataReceived
    some { block with dataReceived := received, dataCount := size, data := block.data.take size }
  else some block

def storeChecked (block : Block) (header : FecSymbolHeader) (payload : Bytes) : Option (Block × Bool) :=
  let index := header.index.toNat
  if header.parity then do
    let shrunk ← block.shrinkChecked header.blockSize.toNat
    let slot ← shrunk.parity[index]?
    if slot ≠ [] then some (shrunk, false)
    else do
      let parity ← Checked.write shrunk.parity index payload
      some ({ shrunk with parity := parity }, true)
  else if index ≥ block.dataCount then some (block, false)
  else do
    let slot ← block.data[index]?
    if slot ≠ [] then some (block, false)
    else do
      let data ← Checked.write block.data index (lengthPrefixed payload)
      some ({ block with data := data, dataReceived := block.dataReceived + 1 }, true)

structure Sound (block : Block) : Prop where
  dataSize : block.data.length = block.dataCount
  dataLimit : block.dataCount ≤ kMaximumFecData
  paritySize : block.parity.length = block.parityCount
  parityLimit : block.parityCount ≤ kMaximumFecParity
  received : block.dataReceived = block.data.countP (· ≠ [])

namespace Sound

variable {block : Block}

theorem received_le (sound : block.Sound) : block.dataReceived ≤ block.dataCount := by
  rw [sound.received, ← sound.dataSize]
  exact List.countP_le_length

theorem missingChecked_eq (sound : block.Sound) : block.missingChecked = some block.missing := by
  apply filterM_eq
  intro index member
  rw [read_eq (by rw [sound.dataSize]; exact List.mem_range.mp member) []]
  rfl

theorem rowsChecked_eq (sound : block.Sound) : block.rowsChecked = some block.rows := by
  apply filterM_eq
  intro index member
  rw [read_eq (by rw [sound.paritySize]; exact List.mem_range.mp member) []]
  rfl

theorem syndromeChecked_eq (sound : block.Sound) {row : ℕ} (bound : row < block.parityCount) :
    block.syndromeChecked row = some (block.syndrome row) := by
  rw [syndromeChecked, read_eq (by rw [sound.paritySize]; exact bound) []]
  apply foldlM_eq
  intro index member sum
  rw [read_eq (by rw [sound.dataSize]; exact List.mem_range.mp member) []]
  rfl

theorem row_lt {row : ℕ} (member : row ∈ block.rows) : row < block.parityCount :=
  List.mem_range.mp (List.mem_of_mem_filter member)

theorem equationsChecked_eq (sound : block.Sound) {rows missing : List ℕ} {n : ℕ} (small : n ≤ kMaximumFecParity)
    (enough : n ≤ rows.length) (all : n ≤ missing.length) (inside : ∀ row ∈ rows, row < block.parityCount) :
    block.equationsChecked rows missing n = some (block.equations rows missing n) := by
  rw [equationsChecked, if_neg (by omega)]
  apply ofFnM_eq
  intro r
  have place : r.val < rows.length := by omega
  have row : rows.getD r.val 0 < block.parityCount := by
    rw [List.getD_eq_getElem _ _ place]
    exact inside _ (List.getElem_mem place)
  refine bind_eq (read_eq place 0) (bind_eq (ofFnM_eq fun c => ?_)
    (bind_eq (sound.syndromeChecked_eq row) rfl))
  exact bind_eq (read_eq (by omega) 0) rfl

theorem recoverChecked_eq (sound : block.Sound) : block.recoverChecked = some block.recover := by
  refine bind_eq sound.missingChecked_eq (bind_eq sound.rowsChecked_eq ?_)
  unfold recover
  by_cases few : block.missing = [] ∨ block.rows.length < block.missing.length
  · rw [if_pos few, if_pos few]
  · rw [if_neg few, if_neg few]
    obtain ⟨lost, enough⟩ := not_or.mp few
    set rows := block.rows.take block.missing.length with taken
    have long : rows.length = block.missing.length := List.length_take_of_le (not_lt.mp enough)
    have inside (row : ℕ) (member : row ∈ rows) : row < block.parityCount := row_lt (List.mem_of_mem_take member)
    have read (row : ℕ) (member : row ∈ rows) : block.parity[row]? = some (block.parity.getD row []) :=
      read_eq (by rw [sound.paritySize]; exact inside row member) []
    obtain ⟨front, others, split⟩ : ∃ front others, rows = front :: others := by
      apply List.exists_cons_of_length_pos
      rw [long]
      exact List.length_pos_iff.mpr lost
    have head : rows[0]? = some (rows.headD 0) := by
      rw [split]
      rfl
    have first : rows.headD 0 ∈ rows := by
      rw [split]
      exact List.mem_cons_self
    refine bind_eq head (bind_eq (read _ first) (bind_eq (anyM_eq rows
      fun row member => bind_eq (read row member) rfl) ?_))
    dsimp only
    split_ifs with uneven wide many
    · rfl
    · rfl
    · rfl
    · refine bind_eq (sound.equationsChecked_eq (not_lt.mp many) long.ge le_rfl inside) ?_
      cases Equation.solve (block.equations rows block.missing block.missing.length) with
      | none => rfl
      | some solved =>
        refine bind_eq (mapM_eq _ fun row _ => unprefixedChecked_eq row.syndrome) ?_
        simp [List.reduceOption, List.filterMap_map]

theorem shrink_count (sound : block.Sound) (size : ℕ) :
    (block.data.take size).countP (· ≠ []) + (block.data.drop size).countP (· ≠ []) = block.dataReceived := by
  rw [← List.countP_append, List.take_append_drop, sound.received]

end Sound

/-- The loop over the slots that a smaller block no longer has. -/
theorem lose_slots (data slots : List Bytes) (start received : ℕ) (here : data.drop start = slots)
    (enough : slots.countP (· ≠ []) ≤ received) :
    (List.range' start slots.length).foldlM (fun received index => do
      let slot ← data[index]?
      if slot = [] then some received else if received = 0 then none else some (received - 1)) received =
      some (received - slots.countP (· ≠ [])) := by
  induction slots generalizing start received with
  | nil => rfl
  | cons slot slots ih =>
    have place : data[start]? = some slot := by
      rw [← List.head?_drop, here]
      rfl
    have rest : data.drop (start + 1) = slots := by
      rw [← List.tail_drop, here]
      rfl
    rw [List.length_cons, List.range'_succ, List.foldlM_cons, place]
    by_cases empty : slot = []
    · rw [empty, List.countP_cons_of_neg (by simp)] at enough ⊢
      exact ih (start + 1) received rest enough
    · rw [List.countP_cons_of_pos (by simpa using empty)] at enough ⊢
      simp only [Option.bind_eq_bind, Option.bind_some, if_neg empty]
      rw [if_neg (by omega), Option.bind_some]
      refine (ih (start + 1) (received - 1) rest (by omega)).trans (congrArg some ?_)
      omega

theorem Sound.shrinkChecked_eq {block : Block} (sound : block.Sound) (size : ℕ) :
    block.shrinkChecked size = some (block.shrink size) := by
  unfold shrinkChecked shrink
  by_cases smaller : size < block.dataCount
  · rw [if_pos smaller, if_pos smaller]
    have count := sound.shrink_count size
    have length : (block.data.drop size).length = block.dataCount - size := by
      rw [List.length_drop, sound.dataSize]
    rw [← length]
    refine bind_eq (lose_slots block.data _ size block.dataReceived rfl (by omega)) ?_
    rw [List.countP_eq_length_filter]
  · rw [if_neg smaller, if_neg smaller]

theorem Sound.shrink {block : Block} (sound : block.Sound) (size : ℕ) : (block.shrink size).Sound := by
  unfold Block.shrink
  split_ifs with smaller
  · have count := sound.shrink_count size
    refine ⟨?_, ?_, sound.paritySize, sound.parityLimit, ?_⟩
    · exact List.length_take_of_le (by rw [sound.dataSize]; omega)
    · exact smaller.le.trans sound.dataLimit
    · dsimp only
      rw [← List.countP_eq_length_filter]
      omega
  · exact sound

theorem shrink_parity (block : Block) (size : ℕ) :
    (block.shrink size).parity = block.parity ∧ (block.shrink size).parityCount = block.parityCount := by
  unfold shrink
  split_ifs
  · exact ⟨rfl, rfl⟩
  · exact ⟨rfl, rfl⟩

section Stored

variable {block : Block} {header : FecSymbolHeader}

theorem Sound.index_lt (sound : block.Sound) (valid : header.Valid) (parity : header.parity = true)
    (same : block.parityCount = header.parityCount.toNat) (size : ℕ) :
    header.index.toNat < (block.shrink size).parity.length := by
  have inside := valid.inside
  rw [if_pos parity] at inside
  rw [(block.shrink_parity size).1, sound.paritySize, same]
  exact UInt8.lt_iff_toNat_lt.mp inside

theorem Sound.storeChecked_eq (sound : block.Sound) (valid : header.Valid)
    (same : block.parityCount = header.parityCount.toNat) (payload : Bytes) :
    block.storeChecked header payload = some (block.store header payload) := by
  unfold storeChecked store
  dsimp only
  by_cases parity : header.parity = true
  · have bound := sound.index_lt valid parity same header.blockSize.toNat
    rw [if_pos parity, if_pos parity]
    refine bind_eq (sound.shrinkChecked_eq _) (bind_eq (read_eq bound []) ?_)
    split_ifs with taken
    · rfl
    · exact bind_eq (write_eq bound payload) rfl
  · rw [if_neg parity, if_neg parity]
    by_cases outside : header.index.toNat ≥ block.dataCount
    · rw [if_pos outside, if_pos outside]
    · have bound : header.index.toNat < block.data.length := by
        rw [sound.dataSize]
        exact not_le.mp outside
      rw [if_neg outside, if_neg outside]
      refine bind_eq (read_eq bound []) ?_
      split_ifs with taken
      · rfl
      · exact bind_eq (write_eq bound _) rfl

theorem Sound.store (sound : block.Sound) (header : FecSymbolHeader) (payload : Bytes) :
    (block.store header payload).1.Sound := by
  have shrunk := sound.shrink header.blockSize.toNat
  unfold Block.store
  dsimp only
  split_ifs with parity taken outside taken
  · exact shrunk
  · exact { shrunk with paritySize := by rw [List.length_set, shrunk.paritySize] }
  · exact sound
  · exact sound
  · have bound : header.index.toNat < block.data.length := by
      rw [sound.dataSize]
      exact not_le.mp outside
    have empty : block.data.get ⟨header.index.toNat, bound⟩ = [] := by
      rw [not_not, List.getD_eq_getElem _ _ bound] at taken
      exact taken
    refine { sound with dataSize := ?_, received := ?_ }
    · rw [List.length_set, sound.dataSize]
    · rw [List.get_eq_getElem] at empty
      simpa [List.countP_set bound, empty, sound.received] using Matches.lengthPrefixed_ne_nil payload

end Stored

end Block

namespace FecDecoder

def findOrCreateChecked (decoder : FecDecoder) (header : FecSymbolHeader) (now : Instant) :
    Option (FecDecoder × Block) := do
  if (decoder.blocks.find? fun block => block.id = header.blockId).isNone ∧
      decoder.blocks.length ≥ kMaximumOutstandingBlocks then
    let _ ← decoder.blocks[0]?
  some (decoder.findOrCreate header now)

def settleChecked (decoder : FecDecoder) (block : Block) : Option (FecDecoder × List Bytes) :=
  if block.dataReceived = block.dataCount then some (decoder.finish block.id, [])
  else do
    let recovered ← block.recoverChecked
    match recovered with
    | none => some (decoder, [])
    | some packets => some (decoder.finish block.id, packets)

def receiveChecked (decoder : FecDecoder) (header : FecSymbolHeader) (payload : Bytes) (now : Instant) :
    Option (FecDecoder × List Bytes) :=
  if decoder.finished.contains header.blockId then some (decoder, [])
  else do
    let (opened, block) ← decoder.findOrCreateChecked header now
    if block.parityCount ≠ header.parityCount.toNat then some (opened, [])
    else do
      let (updated, stored) ← block.storeChecked header payload
      let written := { opened with blocks := replaceBlock updated opened.blocks }
      if stored = false then some (written, []) else written.settleChecked updated

structure Sound (decoder : FecDecoder) : Prop where
  few : decoder.blocks.length ≤ kMaximumOutstandingBlocks
  distinct : (decoder.blocks.map Block.id).Nodup
  remembered : decoder.finished.length ≤ kMaximumOutstandingBlocks * 2
  blocks : ∀ block ∈ decoder.blocks, block.Sound

theorem replaceBlock_ids (block : Block) (blocks : List Block) :
    (replaceBlock block blocks).map Block.id = blocks.map Block.id := by
  induction blocks with
  | nil => rfl
  | cons head tail ih =>
    rw [replaceBlock]
    split_ifs with same
    · rw [List.map_cons, List.map_cons, same]
    · rw [List.map_cons, List.map_cons, ih]

/-- The block that the first symbol of an id opens. -/
def blank (header : FecSymbolHeader) (now : Instant) : Block where
  id := header.blockId
  dataCount := header.blockSize.toNat
  parityCount := header.parityCount.toNat
  data := List.replicate header.blockSize.toNat []
  parity := List.replicate header.parityCount.toNat []
  created := now

namespace Sound

variable {decoder : FecDecoder}

theorem finish (sound : decoder.Sound) (id : UInt32) : (decoder.finish id).Sound where
  few := (List.length_filter_le _ _).trans sound.few
  distinct := sound.distinct.sublist (List.filter_sublist.map _)
  remembered := by
    rw [finish_finished]
    exact trimmed_length _
  blocks := fun block member => sound.blocks block (List.mem_of_mem_filter member)

theorem expire (sound : decoder.Sound) (now : Instant) : (decoder.expire now).1.Sound where
  few := (List.dropWhile_sublist _).length_le.trans sound.few
  distinct := sound.distinct.sublist ((List.dropWhile_sublist _).map _)
  remembered := by
    rw [expire_finished]
    exact trimmed_length _
  blocks := fun block member => sound.blocks block ((List.dropWhile_sublist _).subset member)

theorem replace (sound : decoder.Sound) {block : Block} (whole : block.Sound) :
    ({ decoder with blocks := replaceBlock block decoder.blocks } : FecDecoder).Sound where
  few := by
    have ids := congrArg List.length (replaceBlock_ids block decoder.blocks)
    rw [List.length_map, List.length_map] at ids
    exact ids.trans_le sound.few
  distinct := by
    rw [replaceBlock_ids]
    exact sound.distinct
  remembered := sound.remembered
  blocks := by
    intro other member
    rcases mem_replaceBlock member with rfl | old
    · exact whole
    · exact sound.blocks other old

theorem findOrCreate (sound : decoder.Sound) {header : FecSymbolHeader} (valid : header.Valid) (now : Instant) :
    (decoder.findOrCreate header now).1.Sound ∧ (decoder.findOrCreate header now).2.Sound := by
  unfold FecDecoder.findOrCreate
  split
  · rename_i block found
    exact ⟨sound, sound.blocks block (List.mem_of_find?_eq_some found)⟩
  · rename_i absent
    set kept := if decoder.blocks.length ≥ kMaximumOutstandingBlocks then decoder.blocks.drop 1
      else decoder.blocks with keeps
    have sublist : kept.Sublist decoder.blocks := by
      rw [keeps]
      split_ifs
      · exact List.drop_sublist 1 _
      · exact List.Sublist.refl _
    have room : kept.length < kMaximumOutstandingBlocks := by
      have few := sound.few
      rw [keeps]
      split_ifs with full
      · rw [List.length_drop]
        have some : 0 < kMaximumOutstandingBlocks := by decide
        omega
      · exact not_le.mp full
    have fresh : (blank header now).Sound := by
      refine ⟨List.length_replicate, valid.dataLimit, List.length_replicate, valid.parityLimit, ?_⟩
      apply Eq.symm
      apply List.countP_eq_zero.mpr
      intro slot member
      simp [List.eq_of_mem_replicate member]
    refine ⟨⟨?_, ?_, sound.remembered, ?_⟩, fresh⟩
    · rw [List.length_append, List.length_singleton]
      exact room
    · have apart : header.blockId ∉ kept.map Block.id := by
        intro member
        obtain ⟨block, old, same⟩ := List.mem_map.mp member
        have differs := List.find?_eq_none.mp absent block (sublist.subset old)
        exact differs (decide_eq_true same)
      rw [List.map_append, List.nodup_append]
      refine ⟨sound.distinct.sublist (sublist.map _), List.nodup_singleton _, ?_⟩
      intro id old other new same
      rw [List.map_singleton, List.mem_singleton] at new
      rw [same, new] at old
      exact apart old
    · intro block member
      rcases List.mem_append.mp member with old | new
      · exact sound.blocks block (sublist.subset old)
      · rw [List.mem_singleton.mp new]
        exact fresh

theorem settle (sound : decoder.Sound) (block : Block) : (decoder.settle block).1.Sound := by
  unfold FecDecoder.settle tryRecover
  split_ifs
  · exact sound.finish block.id
  · split
    · exact sound
    · exact sound.finish block.id

theorem receive (sound : decoder.Sound) {header : FecSymbolHeader} (valid : header.Valid) (payload : Bytes)
    (now : Instant) : (decoder.receive header payload now).1.Sound := by
  obtain ⟨opened, block⟩ := sound.findOrCreate valid now
  have written := opened.replace (block.store header payload)
  unfold FecDecoder.receive
  split_ifs
  · exact sound
  · dsimp only
    split_ifs
    · exact opened
    · exact written
    · exact written.settle _

theorem settleChecked_eq {block : Block} (whole : block.Sound) :
    decoder.settleChecked block = some (decoder.settle block) := by
  unfold settleChecked FecDecoder.settle tryRecover
  split_ifs
  · rfl
  · refine bind_eq whole.recoverChecked_eq ?_
    cases block.recover with
    | none => rfl
    | some packets => rfl

theorem findOrCreateChecked_eq (header : FecSymbolHeader) (now : Instant) :
    decoder.findOrCreateChecked header now = some (decoder.findOrCreate header now) := by
  unfold findOrCreateChecked
  split_ifs with full
  · have bound : 0 < decoder.blocks.length := lt_of_lt_of_le (by decide) full.2
    rw [List.getElem?_eq_getElem bound]
    rfl
  · rfl

theorem receiveChecked_eq (sound : decoder.Sound) {header : FecSymbolHeader} (valid : header.Valid)
    (payload : Bytes) (now : Instant) :
    decoder.receiveChecked header payload now = some (decoder.receive header payload now) := by
  obtain ⟨-, whole⟩ := sound.findOrCreate valid now
  unfold receiveChecked FecDecoder.receive
  by_cases done : decoder.finished.contains header.blockId
  · rw [if_pos done, if_pos done]
  · rw [if_neg done, if_neg done]
    refine bind_eq (findOrCreateChecked_eq header now) ?_
    dsimp only
    by_cases mismatch : (decoder.findOrCreate header now).2.parityCount ≠ header.parityCount.toNat
    · rw [if_pos mismatch, if_pos mismatch]
    · rw [if_neg mismatch, if_neg mismatch]
      refine bind_eq (whole.storeChecked_eq valid (not_not.mp mismatch) payload) ?_
      split_ifs
      · rfl
      · exact settleChecked_eq (whole.store header payload)

end Sound

/-- What can happen to a decoder: octets that claim to be a symbol, or the passing of time. -/
inductive Event where
  | symbol (octets payload : Bytes) (now : Instant)
  | expire (now : Instant)

namespace Event

def perform (decoder : FecDecoder) : Event → FecDecoder
  | symbol octets payload now =>
    match parseFecHeader octets with
    | none => decoder
    | some header => (decoder.receive header payload now).1
  | expire now => (decoder.expire now).1

def performChecked (decoder : FecDecoder) : Event → Option FecDecoder
  | symbol octets payload now =>
    match parseFecHeader octets with
    | none => some decoder
    | some header => (decoder.receiveChecked header payload now).map Prod.fst
  | expire now => some (decoder.expire now).1

theorem sound_step {decoder : FecDecoder} (sound : decoder.Sound) (event : Event) :
    (event.perform decoder).Sound ∧ event.performChecked decoder = some (event.perform decoder) := by
  cases event with
  | symbol octets payload now =>
    cases parsed : parseFecHeader octets with
    | none =>
      simp only [perform, performChecked, parsed]
      exact ⟨sound, trivial⟩
    | some header =>
      have valid := parse_valid parsed
      simp only [perform, performChecked, parsed]
      refine ⟨sound.receive valid payload now, ?_⟩
      rw [sound.receiveChecked_eq valid payload now]
      rfl
  | expire now => exact ⟨sound.expire now, rfl⟩

theorem sound_run {decoder : FecDecoder} (sound : decoder.Sound) (events : List Event) :
    (events.foldl perform decoder).Sound ∧
      events.foldlM performChecked decoder = some (events.foldl perform decoder) := by
  induction events generalizing decoder with
  | nil => exact ⟨sound, rfl⟩
  | cons event events ih =>
    obtain ⟨next, checked⟩ := sound_step sound event
    obtain ⟨final, run⟩ := ih next
    refine ⟨final, ?_⟩
    rw [List.foldlM_cons, checked]
    exact run

end Event

/-- Whatever is received, no access leaves its buffer, and the tables of the decoder stay bounded and
consistent. -/
theorem decoder_robust (events : List Event) :
    events.foldlM Event.performChecked {} = some (events.foldl Event.perform {}) ∧
      (events.foldl Event.perform {}).blocks.length ≤ 128 ∧
      ((events.foldl Event.perform {}).blocks.map Block.id).Nodup ∧
      (events.foldl Event.perform {}).finished.length ≤ 256 ∧
      ∀ block ∈ (events.foldl Event.perform {}).blocks,
        block.data.length = block.dataCount ∧ block.dataCount ≤ 64 ∧
        block.parity.length = block.parityCount ∧ block.parityCount ≤ 16 ∧
        block.dataReceived = block.data.countP (· ≠ []) ∧ block.dataReceived ≤ block.dataCount := by
  have start : ({} : FecDecoder).Sound :=
    ⟨Nat.zero_le _, List.nodup_nil, Nat.zero_le _, fun _ member => by cases member⟩
  obtain ⟨sound, checked⟩ := Event.sound_run start events
  refine ⟨checked, sound.few, sound.distinct, sound.remembered, fun block member => ?_⟩
  have whole := sound.blocks block member
  exact ⟨whole.dataSize, whole.dataLimit, whole.paritySize, whole.parityLimit, whole.received, whole.received_le⟩

end FecDecoder

end Norr.Fec
