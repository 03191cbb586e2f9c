import Norr.Lib.Probing
import Norr.Control.KeyIds

namespace Norr

open Probing

namespace SessionTable

/-- The wrapping cursor; it leaves out the id of packets without a session. -/
def following (keyId : UInt16) : UInt16 := if keyId = 0xFFFF then 1 else keyId + 1

theorem following_toNat (keyId : UInt16) : (following keyId).toNat = keyId.toNat % 65535 + 1 := by
  have bound := keyId.toNat_lt
  unfold following
  split_ifs with last
  · rw [last]
    rfl
  · have below : keyId.toNat ≠ 65535 := fun same => last (UInt16.toNat_inj.mp same)
    rw [UInt16.toNat_add, Nat.mod_eq_of_lt (show keyId.toNat < 65535 by omega)]
    exact Nat.mod_eq_of_lt (show keyId.toNat + 1 < 65536 by omega)

theorem iterate_following (keyId : UInt16) (steps : ℕ) :
    (following^[steps] (following keyId)).toNat = (keyId.toNat + steps) % 65535 + 1 := by
  induction steps with
  | zero => exact following_toNat keyId
  | succ steps ih =>
    rw [Function.iterate_succ_apply', following_toNat, ih]
    omega

theorem iterate_following_nodup (keyId : UInt16) {steps : ℕ} (bounded : steps ≤ 65535) :
    (List.iterate following (following keyId) steps).Nodup := by
  rw [← List.range_map_iterate]
  apply List.Nodup.map_on _ List.nodup_range
  intro first inFirst second inSecond same
  have values := congrArg UInt16.toNat same
  rw [iterate_following, iterate_following] at values
  rw [List.mem_range] at inFirst inSecond
  omega

theorem following_named {keyId value : UInt16} {steps : ℕ}
    (member : value ∈ List.iterate following (following keyId) steps) : value ≠ kPreSessionKeyId := by
  obtain ⟨i, -, rfl⟩ := List.mem_iterate.mp member
  intro zero
  have values := congrArg UInt16.toNat zero
  rw [iterate_following] at values
  cases values

def busy (table : SessionTable) (keyId : UInt16) : Bool := keyId = kPreSessionKeyId || keyId ∈ table.sessions

def moved (table : SessionTable) (result : Option UInt16 × UInt16) : Except SessionError UInt16 × SessionTable :=
  (result.1.elim (.error .keyIdExhausted) .ok, { table with nextKeyId := result.2 })

theorem allocateLoop_eq (attempts : ℕ) (table : SessionTable) :
    allocateLoop attempts table =
      table.moved (search following table.busy attempts table.nextKeyId) := by
  induction attempts generalizing table with
  | zero => rfl
  | succ attempts ih =>
    have advanced : table.advanceKeyId = { table with nextKeyId := following table.nextKeyId } := rfl
    have same : table.advanceKeyId.busy = table.busy := rfl
    rw [allocateLoop, ih, same, search]
    by_cases unnamed : table.nextKeyId = kPreSessionKeyId
    · simp [busy, unnamed, advanced, moved]
    · by_cases taken : table.nextKeyId ∈ table.sessions
      · simp [busy, unnamed, taken, advanced, moved]
      · simp [busy, unnamed, taken, advanced, moved]

end SessionTable

namespace Node

def held (node : Node) (keyId : UInt16) : Bool :=
  keyId ∈ node.plane.provisional || node.plane.pending.entries.any (·.2.localKeyId = keyId)

/-- The node with its key id cursor anywhere. -/
def placed (node : Node) (cursor : UInt16) : Node :=
  { node with table := { node.table with nextKeyId := cursor } }

def stopped (node : Node) (result : Option UInt16 × UInt16) : Except ControlError UInt16 × Node :=
  (result.1.elim (.error .sessionInstallFailed) .ok, node.placed result.2)

theorem allocateLoop_eq {node : Node} (room : node.table.sessions.size < kMaximumSessions) (attempts : ℕ)
    (cursor : UInt16) : allocateLoop attempts (node.placed cursor) = node.stopped
      (nested SessionTable.following node.table.busy node.held 0x10000 attempts cursor) := by
  induction attempts generalizing cursor with
  | zero => rfl
  | succ attempts ih =>
    have table : (node.placed cursor).table.allocateKeyId =
        (node.placed cursor).table.moved
          (search SessionTable.following node.table.busy 0x10000 cursor) := by
      have spare : ¬ kMaximumSessions ≤ (node.placed cursor).table.sessions.size := Nat.not_le.mpr room
      rw [SessionTable.allocateKeyId, if_neg spare, SessionTable.allocateLoop_eq]
      rfl
    rw [allocateLoop, table, nested]
    rcases search SessionTable.following node.table.busy 0x10000 cursor with ⟨_ | found, last⟩
    · rfl
    · have plane : (node.placed cursor).plane = node.plane := rfl
      simp only [SessionTable.moved, Option.elim_some, plane]
      by_cases provisional : found ∈ node.plane.provisional
      · simp only [provisional, if_true, held, decide_true, Bool.true_or]
        exact ih last
      · by_cases pending : node.plane.pending.entries.any (·.2.localKeyId = found)
        · simp only [provisional, pending, if_true, if_false, held, Bool.or_true]
          exact ih last
        · simp [provisional, pending, held, stopped]
          rfl

theorem allocateKeyId_finds {node : Node} (room : node.table.sessions.size < kMaximumSessions)
    (pending : node.plane.pending.size ≤ kMaximumPending)
    (provisional : node.plane.provisional.size ≤ kMaximumPending) (cursor : UInt16) :
    ∃ keyId after, (node.placed cursor).allocateKeyId = (.ok keyId, after) := by
  have taken : node.table.sessions.keys.length = node.table.sessions.size := List.length_map _
  have others : (node.plane.provisional.keys ++ node.pendingKeyIds).length =
      node.plane.provisional.size + node.plane.pending.size := by
    rw [List.length_append, pendingKeyIds, List.length_map]
    exact congrArg (· + _) (List.length_map _)
  have found : ∃ found last, nested SessionTable.following node.table.busy node.held 0x10000
      (kMaximumPending * 2 + 2) cursor = (some found, last) := by
    simp only [kMaximumPending, kMaximumSessions] at room pending provisional ⊢
    apply nested_finds node.table.sessions.keys (node.plane.provisional.keys ++ node.pendingKeyIds)
      (SessionTable.iterate_following_nodup cursor (show 2000 ≤ 65535 by decide))
    · intro value member busy
      simpa [SessionTable.busy, SessionTable.following_named member, AList.mem_keys] using busy
    · intro value member held
      simpa [Node.held, pendingKeyIds, AList.mem_keys] using held
    · omega
    · omega
    · omega
  obtain ⟨found, last, ran⟩ := found
  refine ⟨found, node.placed last, ?_⟩
  rw [allocateKeyId, allocateLoop_eq room, ran]
  rfl

/-- The bounds on the half-open handshakes hold in every reachable state, so the table alone decides. -/
theorem key_id_allocation_succeeds (crypto : Crypto) (heap : HeapAlgorithms) (localStatic : KeyPair)
    (calls : List Call) (cursor : UInt16) :
    let node := (create crypto localStatic).run crypto heap calls
    node.table.sessions.size = kMaximumSessions ∨
      ∃ keyId after, (node.placed cursor).allocateKeyId = (.ok keyId, after) ∧ keyId ≠ kPreSessionKeyId ∧
        keyId ∉ node.sessionKeyIds ∧ keyId ∉ node.pendingKeyIds ∧ keyId ∉ node.provisionalKeyIds := by
  intro node
  have apart : node.Apart := run_apart crypto heap localStatic calls
  obtain ⟨sessions, pending, provisional⟩ := apart.sizes
  rcases sessions.eq_or_lt with full | room
  · exact .inl full
  · obtain ⟨keyId, after, allocated⟩ := allocateKeyId_finds room pending provisional cursor
    obtain ⟨-, -, -, free⟩ := allocateKeyId_spec allocated
    obtain ⟨named, unused, unheld, unpending⟩ := free keyId rfl
    refine .inr ⟨keyId, after, allocated, named, ?_, ?_, ?_⟩
    · rw [apart.sessionKeyIds_eq]
      exact unused
    · intro member
      obtain ⟨peer, entry, found, same⟩ := Apart.mem_pendingKeyIds member
      exact unpending peer entry found same
    · rw [apart.provisionalKeyIds_eq]
      exact unheld

end Node

end Norr
