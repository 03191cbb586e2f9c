import Norr.Control.Runs

/-! Local key ids: the sessions, the pending handshakes and the provisional entries of a node never
share one. -/

namespace Norr

namespace SessionTable

/-- Entries have gone from the table, and nothing has come. -/
structure Shrinks (before after : SessionTable) : Prop where
  heap : after.heap = before.heap
  kept : ∀ keyId ref, after.sessions.lookup keyId = some ref → before.sessions.lookup keyId = some ref
  size : after.sessions.size ≤ before.sessions.size

theorem Shrinks.refl (table : SessionTable) : Shrinks table table := ⟨rfl, fun _ _ found => found, le_rfl⟩

variable {keyId : UInt16} {after : SessionTable}

theorem displace_shrinks (table : SessionTable) (peer : PeerId) (keyId : UInt16) (now : Instant) :
    table.Shrinks (table.displace peer keyId now) := by
  unfold displace
  split
  · exact .refl table
  · split_ifs
    · exact ⟨rfl, fun _ _ found => found, le_rfl⟩
    · exact ⟨rfl, fun _ _ found => (AList.of_lookup_erase found).2, AList.size_erase_le _ _⟩

theorem remove_shrinks (table : SessionTable) (keyId : UInt16) : table.Shrinks (table.remove keyId) := by
  unfold remove
  split
  · exact .refl table
  · exact ⟨rfl, fun _ _ found => (AList.of_lookup_erase found).2, AList.size_erase_le _ _⟩

theorem expireRetired_shrinks (table : SessionTable) (now : Instant) :
    table.Shrinks (table.expireRetired now) := by
  have erased (entries : List Retired) (sessions : AList fun _ : UInt16 => SessionRef) :
      (∀ keyId ref, (entries.foldl (fun sessions entry => sessions.erase entry.keyId) sessions).lookup
          keyId = some ref → sessions.lookup keyId = some ref) ∧
        (entries.foldl (fun sessions entry => sessions.erase entry.keyId) sessions).size ≤
          sessions.size := by
    induction entries generalizing sessions with
    | nil => exact ⟨fun _ _ found => found, le_rfl⟩
    | cons entry entries ih =>
      obtain ⟨kept, size⟩ := ih (sessions.erase entry.keyId)
      exact ⟨fun keyId ref found => (AList.of_lookup_erase (kept keyId ref found)).2,
        size.trans (AList.size_erase_le _ _)⟩
  exact ⟨rfl, (erased _ table.sessions).1, (erased _ table.sessions).2⟩

/-- A session that is installed is the newest one, under its key id; the others stay or go. -/
structure Installs (before after : SessionTable) (keyId : UInt16) (session : Session) : Prop where
  named : keyId ≠ kPreSessionKeyId
  heap : after.heap = before.heap ++ [session]
  entries : ∀ other ref, after.sessions.lookup other = some ref →
    other = keyId ∧ ref = before.heap.length ∨ other ≠ keyId ∧ before.sessions.lookup other = some ref
  size : after.sessions.size ≤ kMaximumSessions

theorem install_installs {table : SessionTable} {peer : PeerId} {session : Session} {clock : Instant}
    {ref : SessionRef} (ran : table.install peer keyId session clock = (.ok ref, after)) :
    table.Installs after keyId session := by
  unfold install at ran
  split_ifs at ran with unknown unnamed full
  · cases ran
  · cases ran
  · cases ran
  · cases ran
    have shrinks := displace_shrinks table peer keyId clock
    refine ⟨unnamed, congrArg (· ++ [session]) shrinks.heap, fun other ref found => ?_, ?_⟩
    · rw [AList.lookup_insert_eq, shrinks.heap] at found
      split_ifs at found with same
      · cases found
        exact .inl ⟨same, rfl⟩
      · exact .inr ⟨same, shrinks.kept _ _ (AList.of_lookup_erase found).2⟩
    · calc AList.size _ ≤ ((table.displace peer keyId clock).sessions.erase keyId).size + 1 :=
            AList.size_insert_le _ _ _
        _ ≤ table.sessions.size + 1 :=
            Nat.succ_le_succ ((AList.size_erase_le _ _).trans shrinks.size)
        _ ≤ kMaximumSessions := not_le.mp full

/-- Every entry leads to the session of its key id. -/
def Keyed (table : SessionTable) : Prop :=
  ∀ keyId ref, table.sessions.lookup keyId = some ref →
    keyId ≠ kPreSessionKeyId ∧ ∃ session, table.get ref = some session ∧ session.localKeyId = keyId

theorem Keyed.shrinks {before : SessionTable} (keyed : before.Keyed) (shrinks : before.Shrinks after) :
    after.Keyed := by
  intro keyId ref found
  rw [get, shrinks.heap]
  exact keyed keyId ref (shrinks.kept keyId ref found)

theorem Keyed.installs {before : SessionTable} {session : Session} (keyed : before.Keyed)
    (installs : before.Installs after keyId session) (own : session.localKeyId = keyId) : after.Keyed := by
  intro other ref found
  rw [get, installs.heap]
  rcases installs.entries other ref found with ⟨rfl, rfl⟩ | ⟨-, old⟩
  · exact ⟨installs.named, session, by simp, own⟩
  · obtain ⟨named, held, present, same⟩ := keyed other ref old
    refine ⟨named, held, ?_, same⟩
    rw [List.getElem?_append_left (List.getElem?_eq_some_iff.mp present).1]
    exact present

theorem Keyed.touch {table : SessionTable} (keyed : table.Keyed) (ref : SessionRef)
    {change : Session → Session} (touches : Session.Touches change) : (table.update ref change).Keyed := by
  intro keyId place found
  obtain ⟨named, session, present, same⟩ := keyed keyId place found
  refine ⟨named, if ref = place then change session else session, ?_, ?_⟩
  · rw [get] at present
    rw [get, update, List.getElem?_modify, present]
    rfl
  · split_ifs
    · rw [(touches session).2, same]
    · exact same

/-- No entry is left without its session. -/
def Wired (table : SessionTable) : Prop :=
  ∀ keyId ref, table.sessions.lookup keyId = some ref → ref < table.heap.length

theorem Wired.shrinks {before : SessionTable} (wired : before.Wired) (shrinks : before.Shrinks after) :
    after.Wired := by
  intro keyId ref found
  rw [shrinks.heap]
  exact wired keyId ref (shrinks.kept keyId ref found)

theorem Wired.installs {before : SessionTable} {session : Session} (wired : before.Wired)
    (installs : before.Installs after keyId session) : after.Wired := by
  intro other ref found
  rw [installs.heap, List.length_append, List.length_singleton]
  rcases installs.entries other ref found with ⟨-, rfl⟩ | ⟨-, old⟩
  · exact Nat.lt_succ_self _
  · exact Nat.lt_succ_of_lt (wired other ref old)

end SessionTable

namespace Node

/-- The three owners of key ids keep apart. -/
structure Apart (node : Node) : Prop where
  keyed : node.table.Keyed
  provisional : ∀ keyId entry, node.plane.provisional.lookup keyId = some entry →
    keyId ≠ kPreSessionKeyId ∧ entry.localKeyId = keyId ∧ keyId ∉ node.table.sessions
  pending : ∀ peer entry, node.plane.pending.lookup peer = some entry →
    entry.localKeyId ≠ kPreSessionKeyId ∧ entry.localKeyId ∉ node.table.sessions ∧
      entry.localKeyId ∉ node.plane.provisional
  single : ∀ first second entry other, node.plane.pending.lookup first = some entry →
    node.plane.pending.lookup second = some other → entry.localKeyId = other.localKeyId → first = second
  sizes : node.table.sessions.size ≤ kMaximumSessions ∧ node.plane.pending.size ≤ kMaximumPending ∧
    node.plane.provisional.size ≤ kMaximumPending

variable {node : Node} {keyId : UInt16}

theorem Apart.free_or_own (apart : node.Apart) {peer : PeerId}
    (fresh : node.Free keyId ∨ ∃ old, node.plane.pending.lookup peer = some old ∧ keyId = old.localKeyId) :
    (keyId ≠ kPreSessionKeyId ∧ keyId ∉ node.table.sessions ∧ keyId ∉ node.plane.provisional) ∧
      ∀ other entry, node.plane.pending.lookup other = some entry → entry.localKeyId = keyId →
        other = peer := by
  rcases fresh with free | ⟨old, found, rfl⟩
  · exact ⟨⟨free.named, free.sessions, free.provisional⟩,
      fun other entry found same => absurd same (free.pending other entry found)⟩
  · exact ⟨apart.pending peer old found,
      fun other entry there same => apart.single other peer entry old there found same⟩

theorem Apart.setPending (apart : node.Apart) {peer : PeerId} {entry : Pending}
    (fresh : node.Free entry.localKeyId ∨ ∃ old, node.plane.pending.lookup peer = some old ∧
      entry.localKeyId = old.localKeyId)
    (room : peer ∈ node.plane.pending ∨ node.plane.pending.size < kMaximumPending) :
    (node.setPending peer entry).Apart := by
  obtain ⟨unused, own⟩ := apart.free_or_own fresh
  have lookup (other : PeerId) (value : Pending)
      (found : (node.setPending peer entry).plane.pending.lookup other = some value) :
      other = peer ∧ value = entry ∨ other ≠ peer ∧ node.plane.pending.lookup other = some value := by
    rw [Node.setPending, AList.lookup_put] at found
    split_ifs at found with same
    · cases found
      exact .inl ⟨same, rfl⟩
    · exact .inr ⟨same, found⟩
  refine ⟨apart.keyed, apart.provisional, ?_, ?_, apart.sizes.1,
    AList.size_put_le _ _ _ apart.sizes.2.1 room, apart.sizes.2.2⟩
  · intro other value found
    rcases lookup other value found with ⟨-, rfl⟩ | ⟨-, old⟩
    · exact unused
    · exact apart.pending other value old
  · intro first second value other foundFirst foundSecond same
    rcases lookup first value foundFirst with ⟨rfl, rfl⟩ | ⟨-, oldFirst⟩
    · rcases lookup second other foundSecond with ⟨rfl, -⟩ | ⟨-, oldSecond⟩
      · rfl
      · exact (own second other oldSecond same.symm).symm
    · rcases lookup second other foundSecond with ⟨rfl, rfl⟩ | ⟨-, oldSecond⟩
      · exact own first value oldFirst same
      · exact apart.single first second value other oldFirst oldSecond same

theorem Apart.erasePending (apart : node.Apart) (peer : PeerId) : (node.erasePending peer).Apart := by
  refine ⟨apart.keyed, apart.provisional, fun other value found => ?_, fun first second value other here there => ?_,
    apart.sizes.1, (AList.size_erase_le _ _).trans apart.sizes.2.1, apart.sizes.2.2⟩
  · exact apart.pending other value (AList.of_lookup_erase found).2
  · exact apart.single first second value other (AList.of_lookup_erase here).2 (AList.of_lookup_erase there).2

theorem Apart.setProvisional (apart : node.Apart) {entry : Provisional} (free : node.Free entry.localKeyId)
    (room : node.plane.provisional.size < kMaximumPending) : (node.setProvisional entry.localKeyId entry).Apart := by
  refine ⟨apart.keyed, ?_, ?_, apart.single, apart.sizes.1, apart.sizes.2.1,
    (AList.size_insert_le _ _ _).trans room⟩
  · intro keyId value found
    rw [Node.setProvisional, AList.lookup_insert_eq] at found
    split_ifs at found with same
    · cases found
      subst same
      exact ⟨free.named, rfl, free.sessions⟩
    · exact apart.provisional keyId value found
  · intro peer value found
    obtain ⟨named, session, provisional⟩ := apart.pending peer value found
    refine ⟨named, session, fun member => ?_⟩
    rcases (AList.mem_insert _).mp member with same | old
    · exact free.pending peer value found same
    · exact provisional old

/-- Provisional entries may go, in whatever way. -/
theorem Apart.releases {after : Node} (apart : node.Apart) (table : after.table = node.table)
    (pending : after.plane.pending = node.plane.pending)
    (kept : ∀ keyId entry, after.plane.provisional.lookup keyId = some entry →
      node.plane.provisional.lookup keyId = some entry)
    (size : after.plane.provisional.size ≤ node.plane.provisional.size) : after.Apart := by
  refine ⟨table ▸ apart.keyed, ?_, ?_, pending ▸ apart.single, ?_⟩
  · intro keyId entry found
    rw [table]
    exact apart.provisional keyId entry (kept keyId entry found)
  · intro peer entry found
    rw [pending] at found
    obtain ⟨named, session, provisional⟩ := apart.pending peer entry found
    refine ⟨named, table ▸ session, fun member => provisional ?_⟩
    obtain ⟨value, there⟩ := (AList.mem_iff_lookup _ _).mp member
    exact (AList.mem_iff_lookup _ _).mpr ⟨value, kept _ _ there⟩
  · rw [table, pending]
    exact ⟨apart.sizes.1, apart.sizes.2.1, size.trans apart.sizes.2.2⟩

theorem Apart.eraseProvisional (apart : node.Apart) (keyId : UInt16) :
    (node.eraseProvisional keyId).Apart :=
  apart.releases rfl rfl (fun _ _ found => (AList.of_lookup_erase found).2) (AList.size_erase_le _ _)

theorem Apart.shrinks (apart : node.Apart) {table : SessionTable} (shrinks : node.table.Shrinks table) :
    Apart { node with table } := by
  have gone (keyId : UInt16) (absent : keyId ∉ node.table.sessions) : keyId ∉ table.sessions := by
    intro member
    obtain ⟨ref, found⟩ := (AList.mem_iff_lookup _ _).mp member
    exact absent ((AList.mem_iff_lookup _ _).mpr ⟨ref, shrinks.kept keyId ref found⟩)
  refine ⟨apart.keyed.shrinks shrinks, ?_, ?_, apart.single, shrinks.size.trans apart.sizes.1,
    apart.sizes.2⟩
  · intro keyId entry found
    obtain ⟨named, own, absent⟩ := apart.provisional keyId entry found
    exact ⟨named, own, gone keyId absent⟩
  · intro peer entry found
    obtain ⟨named, absent, provisional⟩ := apart.pending peer entry found
    exact ⟨named, gone _ absent, provisional⟩

/-- A session comes into the table under a key id that nobody else has any more. -/
theorem Apart.installs (apart : node.Apart) {table : SessionTable} {session : Session}
    (installs : node.table.Installs table keyId session) (own : session.localKeyId = keyId)
    (released : keyId ∉ node.plane.provisional)
    (answered : ∀ peer entry, node.plane.pending.lookup peer = some entry → entry.localKeyId ≠ keyId) :
    Apart { node with table } := by
  have absent (other : UInt16) (differs : other ≠ keyId) (before : other ∉ node.table.sessions) :
      other ∉ table.sessions := by
    intro member
    obtain ⟨ref, found⟩ := (AList.mem_iff_lookup _ _).mp member
    rcases installs.entries other ref found with ⟨same, -⟩ | ⟨-, old⟩
    · exact differs same
    · exact before ((AList.mem_iff_lookup _ _).mpr ⟨ref, old⟩)
  refine ⟨apart.keyed.installs installs own, ?_, ?_, apart.single, installs.size, apart.sizes.2⟩
  · intro other entry found
    obtain ⟨named, stored, before⟩ := apart.provisional other entry found
    refine ⟨named, stored, absent other ?_ before⟩
    rintro rfl
    exact released ((AList.mem_iff_lookup _ _).mpr ⟨entry, found⟩)
  · intro peer entry found
    obtain ⟨named, before, provisional⟩ := apart.pending peer entry found
    exact ⟨named, absent _ (answered peer entry found) before, provisional⟩

theorem Apart.step {heap : HeapAlgorithms} {now : Instant} {answering : Prop} {before after : Node}
    (step : Step heap now answering before after) (apart : before.Apart) : after.Apart := by
  cases step with
  | timers | complete | stamp | learn | due | refresh | load =>
    exact { apart with }
  | allocate table advances =>
    obtain ⟨nextKeyId, rfl⟩ := advances
    exact { apart with }
  | dial entry known free room => exact apart.setPending (.inl free) room
  | redial peer old entry found same =>
    exact apart.setPending (.inr ⟨old, found, same⟩)
      (.inl ((AList.mem_iff_lookup _ _).mpr ⟨old, found⟩))
  | hangUp peer => exact apart.erasePending peer
  | hold entry answers known free room => exact apart.setProvisional free room
  | release keyId => exact apart.eraseProvisional keyId
  | establish peer entry session clock ref table found owner keyId installed =>
    refine (apart.erasePending peer).installs (SessionTable.install_installs installed) keyId
      (apart.pending peer entry found).2.2 fun other value there same => ?_
    obtain ⟨mine, old⟩ := AList.of_lookup_erase there
    exact mine (apart.single other peer value entry old found same)
  | promote keyId entry session clock ref table found owner own installed =>
    obtain ⟨-, rfl, -⟩ := apart.provisional keyId entry found
    refine (apart.eraseProvisional _).installs (SessionTable.install_installs installed) own ?_
      fun peer value there same => ?_
    · rw [Node.eraseProvisional, AList.mem_erase]
      exact fun kept => kept.1 rfl
    · exact (apart.pending peer value there).2.2 (same ▸ (AList.mem_iff_lookup _ _).mpr ⟨entry, found⟩)
  | touch ref change touches =>
    exact { apart with keyed := apart.keyed.touch ref touches }
  | remove keyId => exact apart.shrinks (before.table.remove_shrinks keyId)
  | expireRetired time => exact apart.shrinks (before.table.expireRetired_shrinks time)

theorem Step.wired {heap : HeapAlgorithms} {now : Instant} {answering : Prop} {before after : Node}
    (step : Step heap now answering before after) (wired : before.table.Wired) : after.table.Wired := by
  cases step with
  | allocate table advances =>
    obtain ⟨nextKeyId, rfl⟩ := advances
    exact wired
  | establish _ _ _ _ _ _ _ _ _ installed | promote _ _ _ _ _ _ _ _ _ installed =>
    exact wired.installs (SessionTable.install_installs installed)
  | touch ref change =>
    intro keyId place found
    rw [SessionTable.update, List.length_modify]
    exact wired keyId place found
  | remove keyId => exact wired.shrinks (before.table.remove_shrinks keyId)
  | expireRetired time => exact wired.shrinks (before.table.expireRetired_shrinks time)
  | _ => exact wired

theorem Steps.wired {heap : HeapAlgorithms} {now : Instant} {answering : Prop} {before after : Node}
    (steps : Steps heap now answering before after) (wired : before.table.Wired) : after.table.Wired := by
  induction steps with
  | refl => exact wired
  | tail _ step ih => exact step.wired ih

theorem apart_create (crypto : Crypto) (localStatic : KeyPair) : (create crypto localStatic).Apart where
  keyed := fun _ _ found => by cases found
  provisional := fun _ _ found => by cases found
  pending := fun _ _ found => by cases found
  single := fun _ _ _ _ found => by cases found
  sizes := ⟨Nat.zero_le _, Nat.zero_le _, Nat.zero_le _⟩

theorem Apart.forgetPeer {heap : HeapAlgorithms} (apart : node.Apart) (peer : PeerId) :
    (node.forgetPeer heap peer).Apart := by
  rw [forgetPeer_frame]
  exact (apart.erasePending peer).releases rfl rfl (fun keyId entry found => (AList.lookup_keep.mp found).1)
    (AList.size_keep_le _ _)

theorem apart_preserves (heap : HeapAlgorithms) : Preserves heap (fun _ => True) Apart where
  step := fun _ _ _ _ step apart => apart.step step
  add := by
    intro node config _ apart
    unfold Node.addPeer
    split_ifs
    · exact apart
    · exact { apart with }
  forget := fun _ peer _ apart => apart.forgetPeer peer
  expire := fun _ _ apart => { apart with }

theorem run_apart (crypto : Crypto) (heap : HeapAlgorithms) (localStatic : KeyPair) (calls : List Call) :
    ((create crypto localStatic).run crypto heap calls).Apart :=
  (apart_preserves heap).run calls (fun _ _ => trivial) (apart_create crypto localStatic)

def sessionKeyIds (node : Node) : List UInt16 :=
  node.table.sessions.entries.filterMap fun entry => (node.table.get entry.2).map Session.localKeyId

def pendingKeyIds (node : Node) : List UInt16 := node.plane.pending.entries.map (·.2.localKeyId)

def provisionalKeyIds (node : Node) : List UInt16 := node.plane.provisional.entries.map (·.2.localKeyId)

theorem Apart.sessionKeyIds_eq (apart : node.Apart) : node.sessionKeyIds = node.table.sessions.keys := by
  rw [sessionKeyIds, AList.keys, List.keys, ← List.filterMap_eq_map]
  apply List.filterMap_congr
  intro entry member
  obtain ⟨-, session, present, own⟩ := apart.keyed entry.1 entry.2 ((AList.mem_entries_iff _ _ _).mp member)
  rw [present, Option.map_some, own]
  rfl

theorem Apart.provisionalKeyIds_eq (apart : node.Apart) : node.provisionalKeyIds = node.plane.provisional.keys := by
  apply List.map_congr_left
  intro entry member
  exact (apart.provisional entry.1 entry.2 ((AList.mem_entries_iff _ _ _).mp member)).2.1

theorem Apart.mem_pendingKeyIds (member : keyId ∈ node.pendingKeyIds) :
    ∃ peer entry, node.plane.pending.lookup peer = some entry ∧ entry.localKeyId = keyId := by
  obtain ⟨entry, inside, same⟩ := List.mem_map.mp member
  exact ⟨entry.1, entry.2, (AList.mem_entries_iff _ _ _).mp inside, same⟩

theorem Apart.pendingKeyIds_nodup (apart : node.Apart) : node.pendingKeyIds.Nodup := by
  refine List.Nodup.map_on ?_ node.plane.pending.nodupKeys.nodup
  intro first inFirst second inSecond same
  have peers := apart.single first.1 second.1 first.2 second.2 ((AList.mem_entries_iff _ _ _).mp inFirst)
    ((AList.mem_entries_iff _ _ _).mp inSecond) same
  exact node.plane.pending.nodupKeys.eq_of_fst_eq inFirst inSecond peers

/-- The joint invariant of the three owners, as a caller sees it. -/
structure KeyIdsSound (node : Node) : Prop where
  distinct : (node.sessionKeyIds ++ node.pendingKeyIds ++ node.provisionalKeyIds).Nodup
  named : kPreSessionKeyId ∉ node.sessionKeyIds ++ node.pendingKeyIds ++ node.provisionalKeyIds
  stored : ∀ keyId ref, node.table.findByKeyId keyId = some ref →
    ∃ session, node.table.get ref = some session ∧ session.localKeyId = keyId
  sessions : node.table.sessions.size ≤ 1024
  pending : node.plane.pending.size ≤ 256
  provisional : node.plane.provisional.size ≤ 256

theorem local_key_ids_never_shared (crypto : Crypto) (heap : HeapAlgorithms) (localStatic : KeyPair)
    (calls : List Call) : ((create crypto localStatic).run crypto heap calls).KeyIdsSound := by
  have apart := run_apart crypto heap localStatic calls
  revert apart
  generalize (create crypto localStatic).run crypto heap calls = node
  intro apart
  refine ⟨?_, ?_, fun keyId ref found => (apart.keyed keyId ref found).2, apart.sizes.1, apart.sizes.2.1,
    apart.sizes.2.2⟩
  · rw [apart.sessionKeyIds_eq, apart.provisionalKeyIds_eq, List.nodup_append', List.nodup_append']
    refine ⟨⟨node.table.sessions.keys_nodup, apart.pendingKeyIds_nodup, ?_⟩,
      node.plane.provisional.keys_nodup, ?_⟩
    · intro keyId inSessions inPending
      obtain ⟨peer, entry, found, rfl⟩ := Apart.mem_pendingKeyIds inPending
      exact (apart.pending peer entry found).2.1 (AList.mem_keys.mpr inSessions)
    · intro keyId others inProvisional
      obtain ⟨held, found⟩ := (AList.mem_iff_lookup _ _).mp (AList.mem_keys.mpr inProvisional)
      rcases List.mem_append.mp others with inSessions | inPending
      · exact (apart.provisional keyId held found).2.2 (AList.mem_keys.mpr inSessions)
      · obtain ⟨peer, entry, there, rfl⟩ := Apart.mem_pendingKeyIds inPending
        exact (apart.pending peer entry there).2.2 (AList.mem_keys.mpr inProvisional)
  · rw [apart.sessionKeyIds_eq, apart.provisionalKeyIds_eq]
    intro member
    rcases List.mem_append.mp member with others | inProvisional
    · rcases List.mem_append.mp others with inSessions | inPending
      · obtain ⟨ref, found⟩ := (AList.mem_iff_lookup _ _).mp (AList.mem_keys.mpr inSessions)
        exact (apart.keyed _ ref found).1 rfl
      · obtain ⟨peer, entry, found, same⟩ := Apart.mem_pendingKeyIds inPending
        exact (apart.pending peer entry found).1 same
    · obtain ⟨entry, found⟩ := (AList.mem_iff_lookup _ _).mp (AList.mem_keys.mpr inProvisional)
      exact (apart.provisional _ entry found).1 rfl

end Node

end Norr
