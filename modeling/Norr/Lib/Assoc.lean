import Mathlib.Data.List.AList
import Mathlib.Tactic

/-! Finite maps kept as association lists, in the order in which they are iterated. -/

namespace AList

variable {κ : Type} {υ : Type} [DecidableEq κ]

def size (map : AList fun _ : κ => υ) : ℕ := map.entries.length

def keep (map : AList fun _ : κ => υ) (test : κ → υ → Bool) : AList fun _ : κ => υ :=
  ⟨map.entries.filter fun entry => test entry.1 entry.2,
    List.NodupKeys.sublist List.filter_sublist map.nodupKeys⟩

/-- Writes a value in the place of its key, or in front where the key has none. -/
def put (map : AList fun _ : κ => υ) (key : κ) (value : υ) : AList fun _ : κ => υ :=
  if key ∈ map then
    ⟨map.entries.map fun entry => if entry.1 = key then ⟨key, value⟩ else entry, by
      have keys : (map.entries.map fun entry => if entry.1 = key then ⟨key, value⟩ else entry).keys =
          map.entries.keys := by
        simp only [List.keys, List.map_map]
        apply List.map_congr_left
        intro entry _
        by_cases same : entry.1 = key <;> simp [same]
      rw [List.NodupKeys, keys]
      exact map.nodupKeys⟩
  else map.insert key value

theorem mem_entries_iff (map : AList fun _ : κ => υ) (key : κ) (value : υ) :
    (⟨key, value⟩ : Sigma fun _ : κ => υ) ∈ map.entries ↔ map.lookup key = some value :=
  mem_lookup_iff.symm

theorem lookup_keep {map : AList fun _ : κ => υ} {test : κ → υ → Bool} {key : κ} {value : υ} :
    (map.keep test).lookup key = some value ↔ map.lookup key = some value ∧ test key value = true := by
  rw [← mem_entries_iff, keep, List.mem_filter, mem_entries_iff]

theorem lookup_erase_eq (map : AList fun _ : κ => υ) (erased key : κ) :
    (map.erase erased).lookup key = if key = erased then none else map.lookup key := by
  by_cases same : key = erased
  · rw [if_pos same, same, lookup_erase]
  · rw [if_neg same, lookup_erase_ne same]

theorem of_lookup_erase {map : AList fun _ : κ => υ} {erased key : κ} {value : υ}
    (found : (map.erase erased).lookup key = some value) : key ≠ erased ∧ map.lookup key = some value := by
  rw [lookup_erase_eq] at found
  split_ifs at found with same
  exact ⟨same, found⟩

theorem lookup_insert_eq (map : AList fun _ : κ => υ) (inserted key : κ) (value : υ) :
    (map.insert inserted value).lookup key = if key = inserted then some value else map.lookup key := by
  by_cases same : key = inserted
  · rw [if_pos same, same, lookup_insert]
  · rw [if_neg same, lookup_insert_ne same]

theorem lookup_put (map : AList fun _ : κ => υ) (written key : κ) (value : υ) :
    (map.put written value).lookup key = if key = written then some value else map.lookup key := by
  unfold put
  split_ifs with present same
  · obtain ⟨old, found⟩ := AList.lookup_isSome.mpr present |> Option.isSome_iff_exists.mp
    rw [same, ← mem_entries_iff]
    have member := (mem_entries_iff map written old).mpr found
    exact List.mem_map.mpr ⟨_, member, by simp⟩
  · apply Option.ext
    intro other
    rw [← mem_entries_iff, ← mem_entries_iff, List.mem_map]
    constructor
    · rintro ⟨entry, member, equal⟩
      split_ifs at equal with here
      · cases equal
        exact absurd rfl same
      · exact equal ▸ member
    · exact fun member => ⟨_, member, by simp [same]⟩
  · rename_i equal
    rw [lookup_insert_eq, if_pos equal]
  · rename_i differs
    rw [lookup_insert_eq, if_neg differs]

theorem mem_put {map : AList fun _ : κ => υ} {written key : κ} {value : υ} :
    key ∈ map.put written value ↔ key = written ∨ key ∈ map := by
  rw [← lookup_isSome, ← lookup_isSome, lookup_put]
  split_ifs with same
  · simp [same]
  · simp [same]

theorem put_same (map : AList fun _ : κ => υ) {key : κ} {value : υ} (found : map.lookup key = some value) :
    map.put key value = map := by
  have present : key ∈ map := AList.lookup_isSome.mp (by rw [found]; rfl)
  unfold put
  rw [if_pos present]
  apply AList.ext
  refine (List.map_congr_left fun entry member => ?_).trans (List.map_id _)
  split_ifs with same
  · obtain ⟨other, old⟩ := entry
    subst same
    rw [mem_entries_iff, found] at member
    cases member
    rfl
  · rfl

theorem mem_iff_lookup (map : AList fun _ : κ => υ) (key : κ) :
    key ∈ map ↔ ∃ value, map.lookup key = some value := by
  rw [← lookup_isSome, Option.isSome_iff_exists]

theorem size_erase_le (map : AList fun _ : κ => υ) (key : κ) : (map.erase key).size ≤ map.size :=
  (List.kerase_sublist key map.entries).length_le

omit [DecidableEq κ] in
theorem size_keep_le (map : AList fun _ : κ => υ) (test : κ → υ → Bool) :
    (map.keep test).size ≤ map.size := List.length_filter_le _ _

theorem size_insert_le (map : AList fun _ : κ => υ) (key : κ) (value : υ) :
    (map.insert key value).size ≤ map.size + 1 := by
  rw [size, entries_insert, List.length_cons]
  exact Nat.succ_le_succ (size_erase_le map key)

theorem size_put_le (map : AList fun _ : κ => υ) (key : κ) (value : υ) {bound : ℕ}
    (room : map.size ≤ bound) (fits : key ∈ map ∨ map.size < bound) : (map.put key value).size ≤ bound := by
  unfold put
  split_ifs with present
  · rwa [size, List.length_map]
  · exact (size_insert_le map key value).trans (fits.resolve_left present)

/-- The entry of a key, taken out of the list. -/
theorem entries_perm_erase (map : AList fun _ : κ => υ) {key : κ} {value : υ}
    (found : map.lookup key = some value) : map.entries.Perm (⟨key, value⟩ :: (map.erase key).entries) := by
  have member := (mem_entries_iff map key value).mpr found
  obtain ⟨other, before, after, -, split, erased⟩ := List.exists_of_kerase (List.mem_keys_of_mem member)
  have same : other = value := by
    have present : map.lookup key = some other := by
      rw [← mem_entries_iff, split]
      exact List.mem_append_right _ List.mem_cons_self
    exact Option.some_inj.mp (present.symm.trans found)
  have kept : (map.erase key).entries = before ++ after := erased
  rw [split, kept, same]
  exact List.perm_middle

end AList
