import Mathlib
import Norr.Fec.Blocks
import Norr.Fec.Decoder

/-! The decoder rebuilds what the encoder coded: the elimination of `try_recover`
solves the system of the missing packets. -/

namespace Norr.Fec

namespace Equation

variable {n : ℕ}

/-- An equation as a row of a linear system over the field. -/
def toRow (equation : Equation n) : GaussJordan.Row Gf256 (ℕ → Gf256) n :=
  (fun c => ⟨equation.coefficients.get c⟩, vec equation.syndrome)

def toRows (rows : Vector (Equation n) n) : Fin n → GaussJordan.Row Gf256 (ℕ → Gf256) n :=
  fun r => (rows.get r).toRow

def Width (rows : Vector (Equation n) n) (width : ℕ) : Prop :=
  ∀ r, (rows.get r).syndrome.length = width

theorem swapRows_toRows (rows : Vector (Equation n) n) (pivot column : Fin n) :
    toRows (swapRows rows pivot column) = GaussJordan.swapRows (toRows rows) pivot column := by
  funext r
  simp only [toRows, swapRows, Vector.get_ofFn, GaussJordan.swapRows]

theorem normalizeRow_toRows (rows : Vector (Equation n) n) (column : Fin n) :
    toRows (normalizeRow rows column) = GaussJordan.normalize (toRows rows) column := by
  funext r
  simp only [toRows, normalizeRow, Vector.get_ofFn, GaussJordan.normalize]
  by_cases same : r = column
  · rw [if_pos same, if_pos same]
    apply Prod.ext
    · funext c
      ext1
      simp only [toRow, Vector.get_ofFn, Prod.smul_fst, Pi.smul_apply, smul_eq_mul, Gf256.byte_mul,
        Gf256.byte_inv]
      exact multiply_comm _ _
    · exact vec_scale _ _
  · rw [if_neg same, if_neg same]

theorem eliminateColumn_toRows (rows : Vector (Equation n) n) (column : Fin n) (width : ℕ)
    (widths : Width rows width) :
    toRows (eliminateColumn rows column) = GaussJordan.eliminate (toRows rows) column := by
  funext r
  simp only [toRows, eliminateColumn, Vector.get_ofFn, GaussJordan.eliminate]
  by_cases same : r = column
  · rw [if_pos (.inl same), if_pos same]
  rw [if_neg same]
  by_cases zero : (rows.get r).coefficients.get column = 0
  · have vanishes : ((rows.get r).toRow.1 column) = 0 := Gf256.ext zero
    rw [if_pos (.inr zero), vanishes, zero_smul, sub_zero]
  · rw [if_neg (by simp [same, zero])]
    apply Prod.ext
    · funext c
      ext1
      simp only [toRow, Vector.get_ofFn, Prod.fst_sub, Prod.smul_fst, Pi.sub_apply, Pi.smul_apply,
        smul_eq_mul, Gf256.byte_sub, Gf256.byte_mul]
    · simp only [toRow, Prod.snd_sub, Prod.smul_snd]
      rw [vec_multiplyAdd _ _ _ (by rw [widths, widths])]
      funext index
      exact (Gf256.sub_eq_add _ _).symm

def reduceColumn (rows : Vector (Equation n) n) (column pivot : Fin n) : Vector (Equation n) n :=
  eliminateColumn (normalizeRow (swapRows rows pivot column) column) column

theorem normalizeRow_width {rows : Vector (Equation n) n} {width : ℕ} (widths : Width rows width)
    (column : Fin n) : Width (normalizeRow rows column) width := by
  intro r
  simp only [normalizeRow, Vector.get_ofFn]
  split_ifs
  · simp only [scale, List.length_map, widths column]
  · exact widths r

theorem eliminateColumn_width {rows : Vector (Equation n) n} {width : ℕ} (widths : Width rows width)
    (column : Fin n) : Width (eliminateColumn rows column) width := by
  intro r
  simp only [eliminateColumn, Vector.get_ofFn]
  split_ifs
  · exact widths r
  · rw [multiplyAdd_length, widths r]

theorem swapRows_width {rows : Vector (Equation n) n} {width : ℕ} (widths : Width rows width)
    (pivot column : Fin n) : Width (swapRows rows pivot column) width := by
  intro r
  rw [swapRows, Vector.get_ofFn]
  exact widths _

theorem reduceColumn_spec {rows : Vector (Equation n) n} {width : ℕ} (widths : Width rows width)
    (column pivot : Fin n) :
    Width (reduceColumn rows column pivot) width ∧
      toRows (reduceColumn rows column pivot) = GaussJordan.step (toRows rows) column pivot := by
  have swapped := swapRows_width widths pivot column
  have normal := normalizeRow_width swapped column
  refine ⟨eliminateColumn_width normal column, ?_⟩
  rw [reduceColumn, eliminateColumn_toRows _ _ width normal, normalizeRow_toRows, swapRows_toRows]
  rfl

/-- The elimination of a nonsingular system runs through and ends in its solution. -/
theorem solve_correct (rows : Vector (Equation n) n) (width : ℕ) (widths : Width rows width)
    (solution : Fin n → ℕ → Gf256) (reduced : GaussJordan.Reduced solution (toRows rows) 0) :
    ∃ solved, solve rows = some solved ∧ Width solved width ∧
      ∀ r, vec (solved.get r).syndrome = solution r := by
  -- from any column on: the columns still to treat are a tail of `finRange`
  have general : ∀ (left column : ℕ) (current : Vector (Equation n) n), column + left = n →
      Width current width → GaussJordan.Reduced solution (toRows current) column →
      ∃ solved, ((List.finRange n).drop column).foldlM (fun current column =>
          (pivotRow current column).map fun pivot => reduceColumn current column pivot) current = some solved ∧
        Width solved width ∧ GaussJordan.Reduced solution (toRows solved) n := by
    intro left
    induction left with
    | zero =>
      intro column current total widths reduced
      have done : (List.finRange n).drop column = [] := by
        rw [List.drop_eq_nil_iff, List.length_finRange]
        omega
      rw [done]
      have last : column = n := by omega
      exact ⟨current, rfl, widths, last ▸ reduced⟩
    | succ left ih =>
      intro column current total widths reduced
      have bound : column < n := by omega
      have next : (List.finRange n).drop column =
          ⟨column, bound⟩ :: (List.finRange n).drop (column + 1) := by
        rw [List.drop_eq_getElem_cons (by rwa [List.length_finRange]), List.getElem_finRange]
        rfl
      have here : GaussJordan.Reduced solution (toRows current) (⟨column, bound⟩ : Fin n) := reduced
      obtain ⟨row, below, nonzero⟩ := here.exists_pivot
      cases found : pivotRow current ⟨column, bound⟩ with
      | none =>
        have absent := List.find?_eq_none.mp found row (List.mem_finRange row)
        simp only [decide_eq_true_eq] at absent
        exact absurd ⟨below, fun zero => nonzero (Gf256.ext zero)⟩ absent
      | some pivot =>
        have chosen := List.find?_some found
        simp only [decide_eq_true_eq] at chosen
        obtain ⟨width', same⟩ := reduceColumn_spec widths ⟨column, bound⟩ pivot
        have stepped := here.step chosen.1
          (fun zero => chosen.2 (congrArg Gf256.byte zero))
        rw [← same] at stepped
        obtain ⟨solved, runs, final⟩ := ih (column + 1) _ (by omega) width' stepped
        refine ⟨solved, ?_, final⟩
        rw [next, List.foldlM_cons, found]
        exact runs
  obtain ⟨solved, runs, width', final⟩ := general n 0 rows (by omega) widths reduced
  exact ⟨solved, runs, width', fun r => final.solved r⟩

end Equation

theorem eq_padded (symbol bytes : Bytes) (same : vec symbol = vec bytes) (fits : bytes.length ≤ symbol.length) :
    symbol = bytes ++ List.replicate (symbol.length - bytes.length) 0 := by
  apply List.ext_getElem
  · rw [List.length_append, List.length_replicate]
    omega
  · intro index bound padded
    have values := congrArg Gf256.byte (congrFun (same.trans (vec_append_zeros bytes
      (symbol.length - bytes.length)).symm) index)
    change symbol.getD index 0 = (bytes ++ _).getD index 0 at values
    rwa [List.getD_eq_getElem _ _ bound, List.getD_eq_getElem _ _ padded] at values

theorem unprefixed_eq (symbol packet : Bytes) (same : vec symbol = vec (lengthPrefixed packet))
    (fits : kFecLengthPrefix + packet.length ≤ symbol.length) (sendable : Sendable packet) :
    unprefixed symbol = some packet := by
  obtain ⟨nonempty, short⟩ := sendable
  have padded := eq_padded symbol (lengthPrefixed packet) same (by rwa [lengthPrefixed_length])
  have front : symbol.take kFecLengthPrefix = ByteOrder.bigEndian 2 packet.length := by
    rw [padded, lengthPrefixed, List.append_assoc]
    exact List.take_left' (by simp [kFecLengthPrefix])
  have body : (symbol.drop kFecLengthPrefix).take packet.length = packet := by
    rw [padded, lengthPrefixed, List.append_assoc, List.drop_left' (by simp [kFecLengthPrefix])]
    exact List.take_left
  have length : ByteOrder.ofBigEndian (ByteOrder.bigEndian 2 packet.length) = packet.length :=
    ByteOrder.ofBigEndian_bigEndian _ _ (by omega)
  have positive : packet.length ≠ 0 := fun zero => nonempty (List.length_eq_zero_iff.mp zero)
  unfold unprefixed
  rw [if_neg (by omega), front, length]
  simp only
  rw [if_neg (by omega), body]

theorem vec_add_self (vector : ℕ → Gf256) : vector + vector = 0 := by
  funext index
  ext1
  exact UInt8.xor_self

/-- A decoder block that holds symbols of the coded packets and nothing else. -/
structure Block.Matches (block : Block) (packets : List Bytes) (width : ℕ) : Prop where
  count : block.dataCount = packets.length
  slots : block.data.length = block.dataCount
  symbols : ∀ index < packets.length, block.data.getD index [] = [] ∨
    block.data.getD index [] = lengthPrefixed (packets.getD index [])
  dataLimit : packets.length ≤ kMaximumFecData
  parityLimit : block.parityCount ≤ kMaximumFecParity
  parity : ∀ row, block.parity.getD row [] ≠ [] →
    (block.parity.getD row []).length = width ∧ vec (block.parity.getD row []) = codeword packets row
  fits : ∀ packet ∈ packets, kFecLengthPrefix + packet.length ≤ width
  sendable : ∀ packet ∈ packets, Sendable packet

namespace Block.Matches

variable {block : Block} {packets : List Bytes} {width : ℕ}

theorem lengthPrefixed_ne_nil (packet : Bytes) : lengthPrefixed packet ≠ [] := by
  intro empty
  have length := lengthPrefixed_length packet
  rw [empty, kFecLengthPrefix] at length
  simp at length
  omega

/-- The sum over the received symbols that the syndrome loop forms. -/
theorem foldl_multiplyAdd (holds : block.Matches packets width) (row : ℕ) (indices : List ℕ)
    (inside : ∀ index ∈ indices, index < packets.length) (sum : Bytes) (wide : sum.length = width) :
    let total := indices.foldl (fun sum index =>
      if block.data.getD index [] = [] then sum
      else multiplyAdd sum (block.data.getD index []) (cauchy row index)) sum
    total.length = width ∧ vec total = vec sum +
      ((indices.filter fun index => !decide (block.data.getD index [] = [])).map (term packets row)).sum := by
  induction indices generalizing sum with
  | nil => exact ⟨wide, by simp⟩
  | cons index rest ih =>
    have bound := inside index List.mem_cons_self
    have later : ∀ other ∈ rest, other < packets.length :=
      fun other member => inside other (List.mem_cons_of_mem _ member)
    simp only [List.foldl_cons]
    rcases holds.symbols index bound with empty | full
    · simpa only [empty, if_true, List.filter_cons, decide_true, Bool.not_true, Bool.false_eq_true,
        if_false] using ih later sum wide
    · have present : lengthPrefixed (packets.getD index []) ≠ [] := lengthPrefixed_ne_nil _
      have packet : packets.getD index [] ∈ packets := by
        rw [List.getD_eq_getElem _ _ bound]
        exact List.getElem_mem bound
      have fits : (lengthPrefixed (packets.getD index [])).length ≤ sum.length := by
        rw [lengthPrefixed_length, wide]
        exact holds.fits _ packet
      have rest := ih later (multiplyAdd sum (lengthPrefixed (packets.getD index [])) (cauchy row index))
        (by rw [multiplyAdd_length, wide])
      rw [vec_multiplyAdd _ _ _ fits] at rest
      simp only [full, present, if_false, List.filter_cons, decide_false, Bool.not_false, if_true,
        List.map_cons, List.sum_cons]
      refine ⟨rest.1, rest.2.trans ?_⟩
      rw [add_assoc]
      rfl

theorem syndrome_spec (holds : block.Matches packets width) (row : ℕ)
    (present : block.parity.getD row [] ≠ []) :
    (block.syndrome row).length = width ∧
      vec (block.syndrome row) = (block.missing.map (term packets row)).sum := by
  obtain ⟨wide, coded⟩ := holds.parity row present
  have folded := foldl_multiplyAdd holds row (List.range block.dataCount)
    (fun index member => holds.count ▸ List.mem_range.mp member) _ wide
  refine ⟨folded.1, folded.2.trans ?_⟩
  have split := ((List.filter_append_perm (fun index => decide (block.data.getD index [] = []))
    (List.range block.dataCount)).map (term packets row)).sum_eq
  rw [List.map_append, List.sum_append] at split
  rw [coded, codeword, ← holds.count, ← split, add_assoc, vec_add_self, add_zero]
  rfl

theorem missing_lt (holds : block.Matches packets width) (index : ℕ) (member : index ∈ block.missing) :
    index < packets.length := by
  rw [← holds.count]
  exact List.mem_range.mp (List.mem_filter.mp member).1

theorem rows_spec (row : ℕ) (member : row ∈ block.rows) :
    row < block.parityCount ∧ block.parity.getD row [] ≠ [] := by
  have filtered := List.mem_filter.mp member
  exact ⟨List.mem_range.mp filtered.1, by simpa using filtered.2⟩

/-- The system `try_recover` sets up is solved by the missing symbols and by nothing else. -/
theorem equations_reduced (holds : block.Matches packets width) (rows : List ℕ)
    (chosen : ∀ row ∈ rows, row ∈ block.rows) (distinct : rows.Nodup)
    (square : rows.length = block.missing.length) :
    Equation.Width (block.equations rows block.missing block.missing.length) width ∧
      GaussJordan.Reduced
        (fun c : Fin block.missing.length => vec (lengthPrefixed (packets.getD (block.missing.getD c 0) [])))
        (Equation.toRows (block.equations rows block.missing block.missing.length)) 0 := by
  have rowBound : ∀ r : Fin block.missing.length, r.val < rows.length := by
    intro r
    rw [square]
    exact r.isLt
  have rowAt : ∀ r : Fin block.missing.length, rows.getD r 0 ∈ block.rows := by
    intro r
    rw [List.getD_eq_getElem _ _ (rowBound r)]
    exact chosen _ (List.getElem_mem _)
  have columnAt : ∀ c : Fin block.missing.length, block.missing.getD c 0 ∈ block.missing := by
    intro c
    rw [List.getD_eq_getElem _ _ c.isLt]
    exact List.getElem_mem _
  have missingDistinct : block.missing.Nodup := List.nodup_range.filter _
  have syndrome := fun r : Fin block.missing.length =>
    syndrome_spec holds (rows.getD r 0) (rows_spec _ (rowAt r)).2
  refine ⟨?_, ?_, ?_, ?_⟩
  · intro r
    rw [Block.equations, Vector.get_ofFn]
    exact (syndrome r).1
  · intro vector kernel
    apply cauchy_nonsingular (fun r : Fin block.missing.length => rows.getD r 0)
      (fun c : Fin block.missing.length => block.missing.getD c 0)
    · intro first second same
      simp only [List.getD_eq_getElem _ _ (rowBound first), List.getD_eq_getElem _ _ (rowBound second)] at same
      exact Fin.ext ((distinct.getElem_inj_iff).mp same)
    · intro first second same
      simp only [List.getD_eq_getElem _ _ first.isLt, List.getD_eq_getElem _ _ second.isLt] at same
      exact Fin.ext ((missingDistinct.getElem_inj_iff).mp same)
    · intro r
      exact (rows_spec _ (rowAt r)).1.trans_le holds.parityLimit
    · intro c
      exact (missing_lt holds _ (columnAt c)).trans_le holds.dataLimit
    · intro r
      have row := kernel r
      simpa only [Equation.toRows, Equation.toRow, Block.equations, Vector.get_ofFn] using row
  · intro r
    simp only [GaussJordan.Holds, Equation.toRows, Equation.toRow, Block.equations, Vector.get_ofFn]
    rw [(syndrome r).2, ← Fin.sum_univ_getElem]
    simp only [List.getElem_map]
    refine Fintype.sum_equiv (finCongr (List.length_map _).symm) _ _ ?_
    intro c
    simp [term]
  · intro r c before
    exact absurd before (Nat.not_lt_zero _)

theorem recover_eq (holds : block.Matches packets width) (lost : block.missing ≠ [])
    (enough : block.missing.length ≤ block.rows.length) :
    block.recover = some (block.missing.map fun index => packets.getD index []) := by
  have square : (block.rows.take block.missing.length).length = block.missing.length := by
    rw [List.length_take, min_eq_left enough]
  have chosen : ∀ row ∈ block.rows.take block.missing.length, row ∈ block.rows :=
    fun row member => List.mem_of_mem_take member
  have distinct : (block.rows.take block.missing.length).Nodup :=
    (List.nodup_range.filter _).sublist (List.take_sublist _ _)
  obtain ⟨wide, reduced⟩ := equations_reduced holds _ chosen distinct square
  obtain ⟨solved, solves, width', values⟩ := Equation.solve_correct _ width wide _ reduced
  have head : (block.rows.take block.missing.length).headD 0 ∈ block.rows := by
    cases first : block.rows.take block.missing.length with
    | nil =>
      rw [first, List.length_nil] at square
      exact absurd (List.length_eq_zero_iff.mp square.symm) lost
    | cons row rest => exact chosen row (first ▸ List.mem_cons_self)
  have widthOf : ∀ row ∈ block.rows, (block.parity.getD row []).length = width :=
    fun row member => (holds.parity row (rows_spec row member).2).1
  have even : ((block.rows.take block.missing.length).any fun row =>
      (block.parity.getD row []).length ≠
        (block.parity.getD ((block.rows.take block.missing.length).headD 0) []).length) = false := by
    rw [List.any_eq_false]
    intro row member
    simp only [widthOf row (chosen row member), widthOf _ head, ne_eq, not_true_eq_false, decide_false,
      Bool.false_eq_true, not_false_eq_true]
  have narrow : (block.data.any fun symbol => symbol.length >
      (block.parity.getD ((block.rows.take block.missing.length).headD 0) []).length) = false := by
    rw [List.any_eq_false]
    intro symbol member
    obtain ⟨index, bound, rfl⟩ := List.getElem_of_mem member
    have inside : index < packets.length := by rw [← holds.count, ← holds.slots]; exact bound
    rw [widthOf _ head]
    rcases holds.symbols index inside with empty | full
    · rw [List.getD_eq_getElem _ _ bound] at empty
      simp [empty]
    · have packet := holds.fits packets[index] (List.getElem_mem inside)
      rw [List.getD_eq_getElem _ _ bound, List.getD_eq_getElem _ _ inside] at full
      simp only [full, lengthPrefixed_length, gt_iff_lt, decide_eq_true_eq]
      omega
  have few : ¬ block.missing.length > kMaximumFecParity := by
    have limit : block.rows.length ≤ block.parityCount :=
      (List.length_filter_le _ _).trans (List.length_range).le
    have := holds.parityLimit
    omega
  have rebuilt : solved.toList.map (fun row => unprefixed row.syndrome) =
      (block.missing.map fun index => packets.getD index []).map some := by
    apply List.ext_getElem
    · simp
    · intro index boundLeft boundRight
      have bound : index < block.missing.length := by simpa using boundRight
      have inside := missing_lt holds block.missing[index] (List.getElem_mem bound)
      have packet : packets.getD block.missing[index] [] ∈ packets := by
        rw [List.getD_eq_getElem _ _ inside]
        exact List.getElem_mem _
      have value := values ⟨index, bound⟩
      rw [List.getD_eq_getElem _ _ bound] at value
      simp only [List.getElem_map]
      apply unprefixed_eq _ _ value
      · have length := width' ⟨index, bound⟩
        rw [length]
        exact holds.fits _ packet
      · exact holds.sendable _ packet
  unfold Block.recover
  simp only
  rw [if_neg (by simp [lost, enough]), even, narrow, if_neg few, solves]
  simp only [Bool.false_eq_true, if_false, Option.map_some, Option.some.injEq]
  calc solved.toList.filterMap (fun row => unprefixed row.syndrome)
      = (solved.toList.map (fun row => unprefixed row.syndrome)).filterMap (fun packet => packet) := by
        rw [List.filterMap_map]
        rfl
    _ = block.missing.map fun index => packets.getD index [] := by
        rw [rebuilt, List.filterMap_map]
        simp

end Block.Matches

end Norr.Fec
