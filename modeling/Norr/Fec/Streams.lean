import Norr.Fec.InOrder
import Norr.Lib.Lists

/-! What the encoders of one peer send, one after the other: every block has an id of its own as long as
the ids do not wrap, whatever plans the encoders are replaced by. -/

namespace Norr.Fec

open FecEncoder

/-- The blocks an encoder has given an id, those it is filling last. -/
def Encoding.opened (run : Encoding) : List EncodedBlock :=
  run.blocks ++ (List.finRange 4).map fun lane => ⟨(run.encoder.lanes lane).blockId, run.pending lane, []⟩

/-- The record of the encoder in use, and of those it has replaced. -/
structure Stream extends Encoding where
  retired : List Encoding := []

/-- The steps a sender takes: packets go to an active encoder only. -/
def FecStep.Fits (encoder : FecEncoder) : FecStep → Prop
  | .packet bytes => encoder.plan.active = true ∧ Fec.Sendable bytes
  | .flush => True

namespace Stream

def start (plan : FecPlan) : Stream := { encoder := FecEncoder.configure {} plan }

def opened (stream : Stream) : List EncodedBlock :=
  stream.retired.flatMap Encoding.opened ++ stream.toEncoding.opened

/-- The packets that carry a block id, in the order of their blocks. -/
def under (stream : Stream) (id : UInt32) : List Bytes :=
  ((stream.opened.flatMap EncodedBlock.data).filter (·.1.blockId = id)).map Prod.snd

def code (stream : Stream) (action : FecStep) : Stream :=
  { stream with toEncoding := stream.toEncoding.step action }

/-- The encoder is flushed, and the next one goes on with the ids that are left. -/
def replace (stream : Stream) (plan : FecPlan) : Stream :=
  let flushed := stream.toEncoding.flush
  { encoder := (FecEncoder.configure {} plan).resumeAt flushed.encoder.nextBlock
    retired := stream.retired ++ [flushed] }

end Stream

theorem ofNat_add_one (count : ℕ) : UInt32.ofNat count + 1 = UInt32.ofNat (count + 1) := by
  rw [UInt32.ofNat_add]
  rfl

namespace Encoding

/-- The ids given out are those that follow the `earlier` ones. -/
structure Numbered (run : Encoding) (earlier : ℕ) : Prop where
  ids : (run.opened.map EncodedBlock.id).Perm
    ((List.range' earlier run.opened.length).map UInt32.ofNat)
  next : run.encoder.nextBlock = UInt32.ofNat (earlier + run.opened.length)

variable {run : Encoding} {earlier : ℕ} {plan : FecPlan}

theorem opened_ids (run : Encoding) : run.opened.map EncodedBlock.id =
    run.blocks.map EncodedBlock.id ++ (List.finRange 4).map fun lane => (run.encoder.lanes lane).blockId := by
  rw [opened, List.map_append, List.map_map]
  rfl

theorem Numbered.of_same {after : Encoding} (numbered : run.Numbered earlier) (blocks : after.blocks = run.blocks)
    (lanes : ∀ lane, (after.encoder.lanes lane).blockId = (run.encoder.lanes lane).blockId)
    (next : after.encoder.nextBlock = run.encoder.nextBlock) : after.Numbered earlier := by
  have length : after.opened.length = run.opened.length := by simp [opened, blocks]
  refine ⟨?_, by rw [next, length, numbered.next]⟩
  rw [length, opened_ids, blocks, funext lanes, ← opened_ids]
  exact numbered.ids

/-- A block that is closed keeps its id, and its lane takes the next one. -/
theorem Numbered.close (numbered : run.Numbered earlier) (lane : Fin 4) (rows : ℕ) (symbols : List Bytes) :
    (run.close lane (run.encoder.emit lane rows).1 symbols).Numbered earlier := by
  have length : (run.close lane (run.encoder.emit lane rows).1 symbols).opened.length = run.opened.length + 1 := by
    simp only [opened, Encoding.close, List.length_append, List.length_singleton, List.length_map]
    omega
  have lanes : (fun other => ((run.encoder.emit lane rows).1.lanes other).blockId) =
      Function.update (fun other => (run.encoder.lanes other).blockId) lane run.encoder.nextBlock := by
    funext other
    by_cases same : other = lane
    · subst same
      simp [emit]
    · simp [emit, same]
  refine ⟨?_, ?_⟩
  · rw [length, List.range'_1_concat, List.map_append, opened_ids]
    have changed := List.map_update_perm (List.nodup_finRange 4) (List.mem_finRange lane)
      (fun other => (run.encoder.lanes other).blockId) run.encoder.nextBlock
    rw [← lanes] at changed
    have closed : (run.close lane (run.encoder.emit lane rows).1 symbols).blocks.map EncodedBlock.id =
        run.blocks.map EncodedBlock.id ++ [(run.encoder.lanes lane).blockId] := by
      simp [Encoding.close]
    rw [closed, List.append_assoc, List.singleton_append]
    refine (changed.append_left _).trans ?_
    refine List.perm_middle.trans ?_
    rw [← opened_ids, numbered.next]
    exact (List.perm_append_singleton _ _).symm.trans (numbered.ids.append_right _)
  · rw [length, ← Nat.add_assoc, ← ofNat_add_one, ← numbered.next]
    rfl

theorem Numbered.packet (numbered : run.Numbered earlier) (valid : plan.Valid) (ready : run.Ready plan)
    (bytes : Bytes) (sendable : Sendable bytes) : (run.packet bytes).Numbered earlier := by
  have absorbed : (run.absorbed bytes).Numbered earlier := by
    refine numbered.of_same rfl (fun lane => ?_) rfl
    by_cases same : lane = run.encoder.cursor
    · subst same
      simp [Encoding.absorbed, absorb_blockId]
    · simp [Encoding.absorbed, same]
  rw [packet_eq valid ready bytes sendable]
  split_ifs
  · exact absorbed.close _ _ _
  · exact absorbed

theorem Numbered.flushLane (numbered : run.Numbered earlier) (valid : plan.Valid) (ready : run.Ready plan)
    (lane : Fin 4) : (run.flushLane lane).Numbered earlier := by
  rw [flushLane_eq valid ready lane]
  split_ifs
  · exact numbered
  · exact numbered.close _ _ _

theorem Numbered.flush (numbered : run.Numbered earlier) (valid : plan.Valid) (ready : run.Ready plan) :
    run.flush.Numbered earlier := by
  have folded (lanes : List (Fin 4)) (current : Encoding) (numbered : current.Numbered earlier)
      (ready : current.Ready plan) : (lanes.foldl Encoding.flushLane current).Numbered earlier := by
    induction lanes generalizing current with
    | nil => exact numbered
    | cons lane lanes ih => exact ih _ (numbered.flushLane valid ready lane) (ready.flushLane valid lane)
  unfold Encoding.flush
  split_ifs
  · exact numbered
  · exact (folded _ run numbered ready).of_same rfl (fun _ => rfl) rfl

theorem numbered_resumed (plan : FecPlan) (earlier : ℕ) :
    Numbered { encoder := (configure {} plan).resumeAt (UInt32.ofNat earlier) } earlier := by
  obtain ⟨lanes, next⟩ := resumed_ids plan (UInt32.ofNat earlier)
  have shifted (count : ℕ) :
      UInt32.ofNat ((UInt32.ofNat earlier).toNat + count) = UInt32.ofNat (earlier + count) := by
    rw [UInt32.ofNat_add, UInt32.ofNat_toNat, ← UInt32.ofNat_add]
  refine ⟨?_, next.trans (shifted 4)⟩
  rw [opened_ids, funext fun lane => (lanes lane).2.trans (shifted lane)]
  exact List.Perm.of_eq rfl

/-- An encoder at work, or one whose plan is not active and that has sent nothing. -/
inductive Keeps (run : Encoding) : Prop
  | working (valid : run.encoder.plan.Valid) (ready : run.Ready run.encoder.plan)
  | idle (inactive : run.encoder.plan.active = false) (blocks : run.blocks = [])
    (pending : ∀ lane, run.pending lane = [])

theorem keeps_resumed (plan : FecPlan) (base : UInt32) :
    Keeps { encoder := (configure {} plan).resumeAt base } := by
  cases active : (configure {} plan).plan.active with
  | false => exact .idle active rfl fun _ => rfl
  | true =>
    have valid := configure_valid {} plan active
    refine .working valid ⟨⟨rfl, fun lane => ?_, fun _ => Nat.zero_le _, fun _ => ⟨by simp, by simp⟩, by simp⟩,
      fun _ => valid.someData⟩
    have blank (blockId : UInt32) := encodes_blank blockId
      (List.replicate (configure {} plan).plan.parity []) (fun row member => (List.mem_replicate.mp member).2)
    rw [List.length_replicate] at blank
    fin_cases lane <;> exact blank _

theorem Keeps.of_ready (valid : plan.Valid) (ready : run.Ready plan) : run.Keeps := by
  have planned := ready.planned
  subst planned
  exact .working valid ready

theorem flush_idle (inactive : run.encoder.plan.active = false) : run.flush = run := by
  rw [Encoding.flush, if_pos inactive]

theorem Keeps.step (keeps : run.Keeps) {action : FecStep} (fits : action.Fits run.encoder) :
    (run.step action).Keeps := by
  cases keeps with
  | working valid ready =>
    cases action with
    | packet bytes => exact .of_ready valid (ready.packet valid bytes fits.2)
    | flush => exact .of_ready valid (ready.flush valid)
  | idle inactive blocks pending =>
    cases action with
    | packet bytes => exact absurd fits.1 (by simp [inactive])
    | flush =>
      rw [Encoding.step, flush_idle inactive]
      exact .idle inactive blocks pending

theorem Numbered.step (numbered : run.Numbered earlier) (keeps : run.Keeps) {action : FecStep}
    (fits : action.Fits run.encoder) : (run.step action).Numbered earlier := by
  cases keeps with
  | working valid ready =>
    cases action with
    | packet bytes => exact numbered.packet valid ready bytes fits.2
    | flush => exact numbered.flush valid ready
  | idle inactive blocks pending =>
    cases action with
    | packet bytes => exact absurd fits.1 (by simp [inactive])
    | flush => rwa [Encoding.step, flush_idle inactive]

end Encoding

/-- What is known of every block: its packets are numbered from zero under its id, and its parity
symbols are code words of all of them. -/
structure EncodedBlock.Sent (block : EncodedBlock) : Prop where
  headers : ∃ plan, Headed plan block.id block.data
  few : block.data.length ≤ kMaximumFecData
  symbols : ∀ symbol ∈ block.parity, ∃ header payload, symbol = serializeFecHeader header ++ payload ∧
    header.parity = true ∧ header.blockId = block.id ∧ header.blockSize.toNat = block.data.length ∧
    vec payload = codeword block.packets header.index.toNat

theorem EncodedBlock.Coded.sent {plan : FecPlan} {block : EncodedBlock} {width : ℕ} (coded : block.Coded plan width)
    (valid : plan.Valid) : block.Sent where
  headers := ⟨plan, coded.headed⟩
  few := coded.dataLimit.trans valid.dataLimit
  symbols := by
    intro symbol member
    obtain ⟨row, bound, rfl⟩ := List.mem_iff_getElem.mp member
    obtain ⟨payload, same, -, word⟩ := coded.symbol row bound
    have size : (UInt8.ofNat block.data.length).toNat = block.data.length :=
      blockSize_toNat (coded.dataLimit.trans valid.dataLimit)
    have index : (UInt8.ofNat row).toNat = row := by
      have limit := valid.parityLimit
      have parityLimit := coded.parityLimit
      simp only [kMaximumFecParity] at limit
      rw [UInt8.toNat_ofNat', Nat.mod_eq_of_lt (by omega)]
    exact ⟨parityHeader plan block.id block.data.length width row, payload, same, rfl, rfl, size, index.symm ▸ word⟩

theorem Encoding.Keeps.sent {run : Encoding} (keeps : run.Keeps) : ∀ block ∈ run.opened, block.Sent := by
  intro block member
  rw [Encoding.opened, List.mem_append, List.mem_map] at member
  cases keeps with
  | working valid ready =>
    rcases member with closed | ⟨lane, -, rfl⟩
    · obtain ⟨width, coded⟩ := ready.blocks block closed
      exact coded.sent valid
    · exact ⟨⟨_, ready.headed lane⟩, (ready.within lane).trans valid.dataLimit, by simp⟩
  | idle inactive blocks pending =>
    rcases member with closed | ⟨lane, -, rfl⟩
    · rw [blocks] at closed
      cases closed
    · rw [pending lane]
      exact ⟨⟨{}, by simp, by simp⟩, Nat.zero_le _, by simp⟩

namespace EncodedBlock.Sent

variable {block : EncodedBlock}

theorem blockId (sent : block.Sent) {entry : FecSymbolHeader × Bytes} (member : entry ∈ block.data) :
    entry.1.blockId = block.id := by
  obtain ⟨plan, headed⟩ := sent.headers
  obtain ⟨index, bound, rfl⟩ := List.mem_iff_getElem.mp member
  rw [headed.header index bound]
  rfl

theorem indices_nodup (sent : block.Sent) :
    (block.data.map fun entry => (entry.1.blockId, entry.1.index)).Nodup := by
  obtain ⟨plan, headed⟩ := sent.headers
  have few := sent.few
  rw [List.nodup_iff_injective_getElem]
  intro first second same
  have bound : first.val < block.data.length := by simpa using first.isLt
  have bound' : second.val < block.data.length := by simpa using second.isLt
  simp only [List.getElem_map, headed.header _ bound, headed.header _ bound', dataHeader, Prod.mk.injEq,
    true_and] at same
  have numbers := congrArg UInt8.toNat same
  rw [blockSize_toNat (bound.le.trans few), blockSize_toNat (bound'.le.trans few)] at numbers
  exact Fin.ext numbers

end EncodedBlock.Sent

namespace Stream

/-- The ids count the blocks that were opened, whichever encoder they are of. -/
structure Sound (stream : Stream) : Prop where
  earlier : ((stream.retired.flatMap Encoding.opened).map EncodedBlock.id).Perm
    ((List.range (stream.retired.flatMap Encoding.opened).length).map UInt32.ofNat)
  retired : ∀ block ∈ stream.retired.flatMap Encoding.opened, block.Sent
  numbered : stream.toEncoding.Numbered (stream.retired.flatMap Encoding.opened).length
  keeps : stream.toEncoding.Keeps

variable {stream : Stream}

theorem Sound.ids (sound : stream.Sound) :
    (stream.opened.map EncodedBlock.id).Perm ((List.range stream.opened.length).map UInt32.ofNat) := by
  have joined : List.range stream.opened.length =
      List.range (stream.retired.flatMap Encoding.opened).length ++
        List.range' (stream.retired.flatMap Encoding.opened).length stream.toEncoding.opened.length := by
    rw [opened, List.length_append, List.range_eq_range', List.range_eq_range', ← List.range'_append_1, Nat.zero_add]
  rw [joined, List.map_append, opened, List.map_append]
  exact sound.earlier.append sound.numbered.ids

theorem Sound.sent (sound : stream.Sound) : ∀ block ∈ stream.opened, block.Sent := by
  intro block member
  rcases List.mem_append.mp member with old | new
  · exact sound.retired block old
  · exact sound.keeps.sent block new

/-- The blocks have different ids as long as there are fewer of them than ids. -/
theorem Sound.ids_nodup (sound : stream.Sound) (few : stream.opened.length < 2 ^ 32) :
    (stream.opened.map EncodedBlock.id).Nodup := by
  rw [sound.ids.nodup_iff]
  refine List.nodup_range.map_on ?_
  intro first inside second inside' same
  rw [List.mem_range] at inside inside'
  by_contra differ
  exact ofNat_ne differ (by omega) (by omega) same

theorem Sound.apart (sound : stream.Sound) (few : stream.opened.length < 2 ^ 32) {first second : ℕ}
    {block other : EncodedBlock} (here : stream.opened[first]? = some block)
    (there : stream.opened[second]? = some other) {sent : FecSymbolHeader × Bytes} (member : sent ∈ block.data)
    {sent' : FecSymbolHeader × Bytes} (member' : sent' ∈ other.data)
    (same : sent.1.blockId = sent'.1.blockId) : first = second := by
  have ids : block.id = other.id := by
    rw [← (sound.sent block (List.mem_of_getElem? here)).blockId member, same]
    exact (sound.sent other (List.mem_of_getElem? there)).blockId member'
  have distinct := sound.ids_nodup few
  have inside : first < (stream.opened.map EncodedBlock.id).length := by
    rw [List.length_map]
    exact (List.getElem?_eq_some_iff.mp here).1
  refine (List.getElem?_inj inside distinct).mp ?_
  rw [List.getElem?_map, List.getElem?_map, here, there, Option.map_some, Option.map_some, ids]

theorem Sound.pairs_nodup (sound : stream.Sound) (few : stream.opened.length < 2 ^ 32) :
    ((stream.opened.flatMap EncodedBlock.data).map fun sent => (sent.1.blockId, sent.1.index)).Nodup := by
  rw [List.map_flatMap, List.nodup_flatMap]
  refine ⟨fun block member => (sound.sent block member).indices_nodup, ?_⟩
  have distinct : stream.opened.Pairwise (fun block other => block.id ≠ other.id) :=
    List.pairwise_map.mp (sound.ids_nodup few)
  refine distinct.imp_of_mem ?_
  intro block other member member' differ pair here there
  obtain ⟨sent, inside, rfl⟩ := List.mem_map.mp here
  obtain ⟨sent', inside', same⟩ := List.mem_map.mp there
  have ids : sent'.1.blockId = sent.1.blockId := congrArg Prod.fst same
  rw [(sound.sent block member).blockId inside, (sound.sent other member').blockId inside'] at ids
  exact differ ids.symm

/-- The packets under the id of a block are its own. -/
theorem Sound.under_eq (sound : stream.Sound) (few : stream.opened.length < 2 ^ 32) {block : EncodedBlock}
    (member : block ∈ stream.opened) : stream.under block.id = block.packets := by
  obtain ⟨front, back, split⟩ := List.append_of_mem member
  have distinct := sound.ids_nodup few
  have sent := sound.sent
  rw [split] at distinct sent
  have elsewhere (blocks : List EncodedBlock) (others : ∀ other ∈ blocks, other.id ≠ block.id ∧ other.Sent) :
      (blocks.flatMap EncodedBlock.data).filter (·.1.blockId = block.id) = [] := by
    rw [List.filter_eq_nil_iff]
    intro entry present
    obtain ⟨other, inside, own⟩ := List.mem_flatMap.mp present
    obtain ⟨differ, known⟩ := others other inside
    simpa [known.blockId own] using differ
  have own : block.data.filter (·.1.blockId = block.id) = block.data := by
    rw [List.filter_eq_self]
    intro entry present
    simpa using (sent block (by simp)).blockId present
  rw [List.map_append, List.map_cons, List.nodup_middle, List.nodup_cons] at distinct
  have absent (other : EncodedBlock) (inside : other ∈ front ∨ other ∈ back) : other.id ≠ block.id := by
    intro same
    refine distinct.1 ?_
    rw [← same, ← List.map_append]
    exact List.mem_map_of_mem (List.mem_append.mpr inside)
  rw [under, split, List.flatMap_append, List.flatMap_cons, List.filter_append, List.filter_append, own,
    elsewhere front fun other inside => ⟨absent other (.inl inside), sent other (by simp [inside])⟩,
    elsewhere back fun other inside => ⟨absent other (.inr inside), sent other (by simp [inside])⟩]
  simp [EncodedBlock.packets]

theorem Sound.parity (sound : stream.Sound) (few : stream.opened.length < 2 ^ 32) {symbol : Bytes}
    (member : symbol ∈ stream.opened.flatMap EncodedBlock.parity) :
    ∃ header payload, symbol = serializeFecHeader header ++ payload ∧ header.parity = true ∧
      header.blockSize.toNat = (stream.under header.blockId).length ∧
      vec payload = codeword (stream.under header.blockId) header.index.toNat := by
  obtain ⟨block, inside, present⟩ := List.mem_flatMap.mp member
  obtain ⟨header, payload, same, parity, id, size, word⟩ := (sound.sent block inside).symbols symbol present
  refine ⟨header, payload, same, parity, ?_, ?_⟩
  · rw [id, sound.under_eq few inside, size, EncodedBlock.packets, List.length_map]
  · rw [id, sound.under_eq few inside, word]

theorem code_encoder (stream : Stream) (action : FecStep) :
    (stream.code action).encoder = (action.output stream.encoder).1 :=
  (Encoding.step_output stream.toEncoding action).1

theorem replace_encoder (stream : Stream) (plan : FecPlan) : (stream.replace plan).encoder =
    (configure {} plan).resumeAt stream.encoder.flush.1.nextBlock := by
  have flushed : stream.toEncoding.flush.encoder = stream.encoder.flush.1 := stream.code_encoder .flush
  rw [Stream.replace, flushed]

theorem Sound.code (sound : stream.Sound) {action : FecStep} (fits : action.Fits stream.encoder) :
    (stream.code action).Sound where
  earlier := sound.earlier
  retired := sound.retired
  numbered := sound.numbered.step sound.keeps fits
  keeps := sound.keeps.step fits

theorem Sound.replace (sound : stream.Sound) (plan : FecPlan) : (stream.replace plan).Sound := by
  have flushed : (stream.code .flush).Sound := sound.code (show FecStep.flush.Fits stream.encoder from trivial)
  have opened : (stream.replace plan).retired.flatMap Encoding.opened = (stream.code .flush).opened := by
    simp only [Stream.replace, List.flatMap_append, List.flatMap_singleton]
    rfl
  refine ⟨?_, ?_, ?_, Encoding.keeps_resumed plan _⟩
  · rw [opened]
    exact flushed.ids
  · rw [opened]
    exact flushed.sent
  · rw [opened]
    have next : (stream.code .flush).encoder.nextBlock = UInt32.ofNat (stream.code .flush).opened.length := by
      rw [flushed.numbered.next, Stream.opened, List.length_append]
    have resumed := Encoding.numbered_resumed plan (stream.code .flush).opened.length
    rwa [← next] at resumed

theorem sound_start (plan : FecPlan) : (start plan).Sound := by
  have numbered := Encoding.numbered_resumed plan 0
  have keeps := Encoding.keeps_resumed plan 0
  refine ⟨List.Perm.refl _, by simp [start], ?_, ?_⟩
  · rwa [show UInt32.ofNat 0 = 0 from rfl, resumeAt_zero] at numbered
  · rwa [resumeAt_zero] at keeps

end Stream

end Norr.Fec
