import Norr.Session.Table

/-! The three tables of a SessionTable agree: sessions by key id, the current key id of a peer and the
list of retired key ids. -/

namespace Norr

namespace SessionTable

/-- A peer's current session is in the table, is a session of that peer, and is not about to expire. -/
structure Linked (table : SessionTable) : Prop where
  owned : ∀ peer keyId, table.byPeer.lookup peer = some keyId →
    ∃ ref session, table.sessions.lookup keyId = some ref ∧ table.get ref = some session ∧
      session.peer = peer
  kept : ∀ peer keyId, table.byPeer.lookup peer = some keyId → ∀ entry ∈ table.retired, entry.keyId ≠ keyId

theorem Linked.unique {table : SessionTable} (linked : table.Linked) {first second : PeerId} {keyId : UInt16}
    (one : table.byPeer.lookup first = some keyId) (other : table.byPeer.lookup second = some keyId) :
    first = second := by
  obtain ⟨ref, session, found, present, own⟩ := linked.owned first keyId one
  obtain ⟨again, same, foundAgain, presentAgain, owner⟩ := linked.owned second keyId other
  rw [found, Option.some_inj] at foundAgain
  subst foundAgain
  rw [present, Option.some_inj] at presentAgain
  subst presentAgain
  exact own.symm.trans owner

theorem lookup_remove (table : SessionTable) (keyId other : UInt16) :
    (table.remove keyId).sessions.lookup other =
      if other = keyId then none else table.sessions.lookup other := by
  unfold remove
  split
  · rename_i absent
    split_ifs with same
    · rw [same, absent]
    · rfl
  · exact AList.lookup_erase_eq _ _ _

theorem remove_heap (table : SessionTable) (keyId : UInt16) : (table.remove keyId).heap = table.heap := by
  unfold remove
  split <;> rfl

theorem remove_retired (table : SessionTable) (keyId : UInt16) :
    (table.remove keyId).retired =
      if keyId ∈ table.sessions then table.retired.filter (·.keyId ≠ keyId) else table.retired := by
  unfold remove
  split
  · rename_i absent
    rw [if_neg (AList.lookup_eq_none.mp absent)]
  · rename_i ref found
    rw [if_pos ((AList.mem_iff_lookup _ _).mpr ⟨ref, found⟩)]

/-- A removed session is the current one of nobody but its own peer, whose entry goes with it. -/
theorem Linked.remove_byPeer {table : SessionTable} (linked : table.Linked) (keyId : UInt16) (peer : PeerId)
    (current : UInt16) : (table.remove keyId).byPeer.lookup peer = some current ↔
      table.byPeer.lookup peer = some current ∧ current ≠ keyId := by
  unfold SessionTable.remove
  split
  · rename_i absent
    refine ⟨fun held => ⟨held, fun same => ?_⟩, And.left⟩
    obtain ⟨ref, session, found, -⟩ := linked.owned peer current held
    rw [same, absent] at found
    cases found
  · rename_i ref found
    rw [AList.lookup_keep]
    refine and_congr_right fun held => ?_
    obtain ⟨place, session, there, present, own⟩ := linked.owned peer current held
    constructor
    · intro kept same
      rw [same, found, Option.some_inj] at there
      subst there
      simp [present, own, same] at kept
    · intro differs
      simp [differs]

theorem Linked.remove {table : SessionTable} (linked : table.Linked) (keyId : UInt16) :
    (table.remove keyId).Linked := by
  constructor
  · intro peer current kept
    obtain ⟨before, differs⟩ := (linked.remove_byPeer keyId peer current).mp kept
    obtain ⟨place, session, there, present, own⟩ := linked.owned peer current before
    refine ⟨place, session, ?_, ?_, own⟩
    · rw [lookup_remove, if_neg differs, there]
    · rw [get, remove_heap]
      exact present
  · intro peer current kept entry member
    obtain ⟨before, -⟩ := (linked.remove_byPeer keyId peer current).mp kept
    rw [remove_retired] at member
    split_ifs at member
    · exact linked.kept peer current before entry (List.mem_of_mem_filter member)
    · exact linked.kept peer current before entry member

theorem lookup_foldl_erase (entries : List Retired) (sessions : AList fun _ : UInt16 => SessionRef)
    (keyId : UInt16) :
    (entries.foldl (fun sessions entry => sessions.erase entry.keyId) sessions).lookup keyId =
      if keyId ∈ entries.map Retired.keyId then none else sessions.lookup keyId := by
  induction entries generalizing sessions with
  | nil => rfl
  | cons entry entries ih =>
    rw [List.foldl_cons, ih, AList.lookup_erase_eq]
    by_cases first : keyId = entry.keyId
    · simp [first]
    · simp [first]

def expiredIds (table : SessionTable) (now : Instant) : List UInt16 :=
  (table.retired.filter fun entry => kRetireAfter ≤ now - entry.retiredAt).map Retired.keyId

theorem lookup_expireRetired (table : SessionTable) (now : Instant) (keyId : UInt16) :
    (table.expireRetired now).sessions.lookup keyId =
      if keyId ∈ table.expiredIds now then none else table.sessions.lookup keyId :=
  lookup_foldl_erase _ table.sessions keyId

theorem mem_expiredIds {table : SessionTable} {now : Instant} {keyId : UInt16} :
    keyId ∈ table.expiredIds now ↔
      ∃ entry ∈ table.retired, kRetireAfter ≤ now - entry.retiredAt ∧ entry.keyId = keyId := by
  simp [expiredIds, and_assoc]

theorem Linked.expireRetired {table : SessionTable} (linked : table.Linked) (now : Instant) :
    (table.expireRetired now).Linked := by
  constructor
  · intro peer keyId current
    obtain ⟨ref, session, found, present, own⟩ := linked.owned peer keyId current
    refine ⟨ref, session, ?_, present, own⟩
    rw [lookup_expireRetired, if_neg, found]
    intro expired
    obtain ⟨entry, member, -, same⟩ := mem_expiredIds.mp expired
    exact linked.kept peer keyId current entry member same
  · intro peer keyId current entry member
    exact linked.kept peer keyId current entry (List.mem_of_mem_filter member)

/-- The table after an install that succeeded, seen from the table before it. -/
structure Installed (table : SessionTable) (peer : PeerId) (keyId : UInt16) (session : Session)
    (now : Instant) (after : SessionTable) : Prop where
  heap : after.heap = table.heap ++ [session]
  sessions : ∀ other, after.sessions.lookup other =
    if other = keyId then some table.heap.length else table.sessions.lookup other
  byPeer : ∀ other, after.byPeer.lookup other = if other = peer then some keyId else table.byPeer.lookup other
  retired : after.retired =
    (table.retired ++ (table.byPeer.lookup peer).toList.map (Retired.mk · now)).filter (·.keyId ≠ keyId)

theorem displace_shape (table : SessionTable) (peer : PeerId) (keyId : UInt16) (now : Instant) :
    (∀ other, other ≠ keyId →
      (table.displace peer keyId now).sessions.lookup other = table.sessions.lookup other) ∧
    (∀ other, other ≠ peer →
      (table.displace peer keyId now).byPeer.lookup other = table.byPeer.lookup other) ∧
    (table.displace peer keyId now).retired.filter (·.keyId ≠ keyId) =
      (table.retired ++ (table.byPeer.lookup peer).toList.map (Retired.mk · now)).filter (·.keyId ≠ keyId) := by
  unfold displace
  split
  · rename_i none
    exact ⟨fun _ _ => rfl, fun _ _ => rfl, by simp [none]⟩
  · rename_i existing current
    split_ifs with differs
    · exact ⟨fun _ _ => rfl, fun _ apart => AList.lookup_erase_ne apart, by simp [current]⟩
    · have same := not_not.mp differs
      refine ⟨fun other apart => ?_, fun _ apart => AList.lookup_erase_ne apart, by simp [current, same]⟩
      rw [same]
      exact AList.lookup_erase_ne apart

theorem install_shape {table after : SessionTable} {peer : PeerId} {keyId : UInt16} {session : Session}
    {clock : Instant} {ref : SessionRef} (ran : table.install peer keyId session clock = (.ok ref, after)) :
    table.Installed peer keyId session clock after := by
  obtain ⟨sessions, byPeer, retired⟩ := table.displace_shape peer keyId clock
  have sameHeap := displace_heap table peer keyId clock
  unfold install at ran
  split_ifs at ran
  · cases ran
  · cases ran
  · cases ran
  · cases ran
    refine ⟨congrArg (· ++ [session]) sameHeap, fun other => ?_, fun other => ?_, retired⟩
    · rw [AList.lookup_insert_eq, sameHeap]
      split_ifs with same
      · rfl
      · rw [AList.lookup_erase_ne same, sessions other same]
    · rw [AList.lookup_insert_eq]
      split_ifs with same
      · rfl
      · exact byPeer other same

namespace Installed

variable {table after : SessionTable} {peer : PeerId} {keyId : UInt16} {session : Session} {now : Instant}

theorem get_new (installed : table.Installed peer keyId session now after) :
    after.get table.heap.length = some session := by
  rw [get, installed.heap]
  simp

theorem get_old (installed : table.Installed peer keyId session now after) {ref : SessionRef} {held : Session}
    (present : table.get ref = some held) : after.get ref = some held := by
  rw [get] at present ⊢
  rw [installed.heap, List.getElem?_append_left (List.getElem?_eq_some_iff.mp present).1]
  exact present

theorem mem_retired (installed : table.Installed peer keyId session now after) (entry : Retired) :
    entry ∈ after.retired ↔
      (entry ∈ table.retired ∨ table.byPeer.lookup peer = some entry.keyId ∧ entry.retiredAt = now) ∧
        entry.keyId ≠ keyId := by
  rw [installed.retired, List.mem_filter, List.mem_append, List.mem_map, decide_eq_true_iff]
  refine and_congr_left' (or_congr_right ⟨?_, ?_⟩)
  · rintro ⟨existing, member, rfl⟩
    exact ⟨Option.mem_toList.mp member, rfl⟩
  · rintro ⟨current, rfl⟩
    exact ⟨entry.keyId, Option.mem_toList.mpr current, rfl⟩

end Installed

/-- A key id may be used again as long as it is not the current one of another peer. -/
theorem Linked.installed {table after : SessionTable} {peer : PeerId} {keyId : UInt16} {session : Session}
    {now : Instant} (linked : table.Linked) (owner : session.peer = peer)
    (apart : ∀ other, other ≠ peer → table.byPeer.lookup other ≠ some keyId)
    (installed : table.Installed peer keyId session now after) : after.Linked := by
  constructor
  · intro other current found
    rw [installed.byPeer] at found
    split_ifs at found with mine
    · cases found
      refine ⟨table.heap.length, session, ?_, installed.get_new, owner.trans mine.symm⟩
      rw [installed.sessions, if_pos rfl]
    · obtain ⟨place, held, there, present, own⟩ := linked.owned other current found
      refine ⟨place, held, ?_, installed.get_old present, own⟩
      rw [installed.sessions, if_neg, there]
      rintro rfl
      exact apart other mine found
  · intro other current found entry member
    rw [installed.byPeer] at found
    obtain ⟨origin, differs⟩ := (installed.mem_retired entry).mp member
    split_ifs at found with mine
    · cases found
      exact differs
    · rcases origin with old | ⟨retired, -⟩
      · exact linked.kept other current found entry old
      · exact fun same => mine (linked.unique found (same ▸ retired))

/-- The tables agree: nothing is stored that is neither current nor retired, and nothing is retired
that is not stored. -/
structure Intact (table : SessionTable) : Prop extends table.Linked where
  stored : ∀ keyId ref, table.sessions.lookup keyId = some ref → ∃ session, table.get ref = some session ∧
    (table.byPeer.lookup session.peer = some keyId ∨ ∃ entry ∈ table.retired, entry.keyId = keyId)
  listed : ∀ entry ∈ table.retired, entry.keyId ∈ table.sessions
  once : (table.retired.map Retired.keyId).Nodup

theorem intact_empty : ({} : SessionTable).Intact where
  owned := fun _ _ found => by cases found
  kept := fun _ _ found => by cases found
  stored := fun _ _ found => by cases found
  listed := fun _ member => by cases member
  once := List.nodup_nil

namespace Intact

variable {table after : SessionTable}

theorem installed {peer : PeerId} {keyId : UInt16} {session : Session} {now : Instant} (intact : table.Intact)
    (owner : session.peer = peer) (apart : ∀ other, other ≠ peer → table.byPeer.lookup other ≠ some keyId)
    (installed : table.Installed peer keyId session now after) : after.Intact where
  toLinked := intact.toLinked.installed owner apart installed
  stored := by
    intro other ref found
    rw [installed.sessions] at found
    split_ifs at found with same
    · cases found
      refine ⟨session, installed.get_new, .inl ?_⟩
      rw [installed.byPeer, if_pos owner, same]
    · obtain ⟨held, present, holds⟩ := intact.stored other ref found
      refine ⟨held, installed.get_old present, ?_⟩
      rcases holds with current | ⟨entry, member, rfl⟩
      · by_cases mine : held.peer = peer
        · refine .inr ⟨⟨other, now⟩, (installed.mem_retired _).mpr ⟨.inr ⟨?_, rfl⟩, same⟩, rfl⟩
          rw [← mine]
          exact current
        · left
          rw [installed.byPeer, if_neg mine, current]
      · exact .inr ⟨entry, (installed.mem_retired entry).mpr ⟨.inl member, same⟩, rfl⟩
  listed := by
    intro entry member
    obtain ⟨origin, differs⟩ := (installed.mem_retired entry).mp member
    rw [AList.mem_iff_lookup, installed.sessions, if_neg differs, ← AList.mem_iff_lookup]
    rcases origin with old | ⟨current, -⟩
    · exact intact.listed entry old
    · obtain ⟨ref, -, found, -⟩ := intact.owned peer entry.keyId current
      exact (AList.mem_iff_lookup _ _).mpr ⟨ref, found⟩
  once := by
    have longer : ((table.retired ++ (table.byPeer.lookup peer).toList.map (Retired.mk · now)).map
        Retired.keyId).Nodup := by
      cases current : table.byPeer.lookup peer with
      | none => simpa using intact.once
      | some existing =>
        have unlisted : existing ∉ table.retired.map Retired.keyId := by
          intro member
          obtain ⟨entry, retired, same⟩ := List.mem_map.mp member
          exact intact.kept peer existing current entry retired same
        simpa [List.nodup_append, intact.once] using unlisted
    rw [installed.retired]
    exact longer.sublist (List.filter_sublist.map _)

theorem removed (intact : table.Intact) (keyId : UInt16) : (table.remove keyId).Intact where
  toLinked := intact.toLinked.remove keyId
  stored := by
    intro other ref found
    rw [lookup_remove] at found
    split_ifs at found with differs
    obtain ⟨session, present, holds⟩ := intact.stored other ref found
    refine ⟨session, by rw [get, remove_heap]; exact present, ?_⟩
    rcases holds with current | ⟨entry, member, rfl⟩
    · exact .inl ((intact.remove_byPeer keyId session.peer other).mpr ⟨current, differs⟩)
    · refine .inr ⟨entry, ?_, rfl⟩
      rw [remove_retired]
      split_ifs
      · exact List.mem_filter.mpr ⟨member, decide_eq_true differs⟩
      · exact member
  listed := by
    intro entry member
    rw [remove_retired] at member
    rw [AList.mem_iff_lookup, lookup_remove]
    split_ifs at member with present
    · obtain ⟨old, differs⟩ := List.mem_filter.mp member
      rw [if_neg (of_decide_eq_true differs), ← AList.mem_iff_lookup]
      exact intact.listed entry old
    · have stored := intact.listed entry member
      have differs : entry.keyId ≠ keyId := fun same => present (same ▸ stored)
      rw [if_neg differs, ← AList.mem_iff_lookup]
      exact stored
  once := by
    rw [remove_retired]
    split_ifs
    · exact intact.once.sublist (List.filter_sublist.map _)
    · exact intact.once

theorem expired (intact : table.Intact) (now : Instant) : (table.expireRetired now).Intact where
  toLinked := intact.toLinked.expireRetired now
  stored := by
    intro keyId ref found
    rw [lookup_expireRetired] at found
    split_ifs at found with unexpired
    obtain ⟨session, present, holds⟩ := intact.stored keyId ref found
    refine ⟨session, present, holds.imp_right ?_⟩
    rintro ⟨entry, member, rfl⟩
    refine ⟨entry, List.mem_filter.mpr ⟨member, decide_eq_true (not_le.mp fun late => ?_)⟩, rfl⟩
    exact unexpired (mem_expiredIds.mpr ⟨entry, member, late, rfl⟩)
  listed := by
    intro entry member
    obtain ⟨old, early⟩ := List.mem_filter.mp member
    rw [AList.mem_iff_lookup, lookup_expireRetired, if_neg, ← AList.mem_iff_lookup]
    · exact intact.listed entry old
    · intro expired
      obtain ⟨other, listed, late, same⟩ := mem_expiredIds.mp expired
      rw [List.inj_on_of_nodup_map intact.once listed old same] at late
      exact absurd (of_decide_eq_true early) (not_lt.mpr late)
  once := intact.once.sublist (List.filter_sublist.map _)

end Intact

/-- What the callers of a table rely on. -/
structure Integrity (table : SessionTable) : Prop where
  owner : ∀ peer ref, table.findByPeer peer = some ref →
    ∃ session, table.get ref = some session ∧ session.peer = peer
  placed : ∀ keyId ref, table.findByKeyId keyId = some ref → ∃ session, table.get ref = some session ∧
    Xor (table.byPeer.lookup session.peer = some keyId) (∃ entry ∈ table.retired, entry.keyId = keyId)
  listed : ∀ entry ∈ table.retired, entry.keyId ∈ table.sessions
  once : (table.retired.map Retired.keyId).Nodup

theorem Intact.integrity {table : SessionTable} (intact : table.Intact) : table.Integrity where
  owner := by
    intro peer ref found
    unfold findByPeer at found
    split at found
    · cases found
    · rename_i keyId current
      obtain ⟨place, session, there, present, own⟩ := intact.owned peer keyId current
      rw [findByKeyId, there, Option.some_inj] at found
      exact ⟨session, found ▸ present, own⟩
  placed := by
    intro keyId ref found
    obtain ⟨session, present, holds⟩ := intact.stored keyId ref found
    refine ⟨session, present, ?_⟩
    rcases holds with current | retired
    · refine .inl ⟨current, ?_⟩
      rintro ⟨entry, member, same⟩
      exact intact.kept session.peer keyId current entry member same
    · refine .inr ⟨retired, fun current => ?_⟩
      obtain ⟨entry, member, same⟩ := retired
      exact intact.kept session.peer keyId current entry member same
  listed := intact.listed
  once := intact.once

/-- The session that install makes for the peer and the key id it is called with. -/
def made (peer : PeerId) (keyId : UInt16) (session : Session) : Session :=
  { session with peer := peer, localKeyId := keyId }

inductive Call where
  | install (peer : PeerId) (keyId : UInt16) (session : Session) (now : Instant)
  | remove (keyId : UInt16)
  | expireRetired (now : Instant)

namespace Call

def perform (table : SessionTable) : Call → SessionTable
  | install peer keyId session now =>
    (table.install peer keyId (made peer keyId session) now).2
  | remove keyId => table.remove keyId
  | expireRetired now => table.expireRetired now

/-- The key ids a call names. -/
def named (table : SessionTable) : Call → List UInt16
  | install _ keyId _ _ => [keyId]
  | remove keyId => [keyId]
  | expireRetired now => table.expiredIds now

/-- An install that succeeds under the key id another peer is reached by. -/
def Collides (table : SessionTable) : Call → Prop
  | install peer keyId session now =>
    (∃ ref, (table.install peer keyId (made peer keyId session) now).1 = .ok ref) ∧
      ∃ other, other ≠ peer ∧ table.byPeer.lookup other = some keyId
  | _ => False

def run (calls : List Call) : SessionTable := calls.foldl perform {}

theorem run_append (calls : List Call) (call : Call) : run (calls ++ [call]) = call.perform (run calls) :=
  List.foldl_append

theorem keeps (table : SessionTable) (call : Call) {keyId : UInt16} {ref : SessionRef} {session : Session}
    (unnamed : keyId ∉ call.named table) (found : table.findByKeyId keyId = some ref)
    (present : table.get ref = some session) :
    (call.perform table).findByKeyId keyId = some ref ∧ (call.perform table).get ref = some session := by
  cases call with
  | install peer installed fresh now =>
    cases ran : table.install peer installed (made peer installed fresh) now with
    | mk outcome after =>
      rw [perform, ran]
      cases outcome with
      | error error =>
        rw [install_error ran]
        exact ⟨found, present⟩
      | ok place =>
        have shape := install_shape ran
        refine ⟨?_, shape.get_old present⟩
        rw [findByKeyId, shape.sessions, if_neg (List.mem_singleton.not.mp unnamed)]
        exact found
  | remove removed =>
    rw [perform, findByKeyId, get, lookup_remove, remove_heap, if_neg (List.mem_singleton.not.mp unnamed)]
    exact ⟨found, present⟩
  | expireRetired now =>
    refine ⟨?_, present⟩
    rw [perform, findByKeyId, lookup_expireRetired]
    exact (if_neg unnamed).trans found

theorem intact_step {table : SessionTable} (intact : table.Intact) (call : Call)
    (apart : ¬ call.Collides table) : (call.perform table).Intact := by
  cases call with
  | install peer keyId session now =>
    cases ran : table.install peer keyId (made peer keyId session) now with
    | mk outcome after =>
      rw [perform, ran]
      cases outcome with
      | error error =>
        rw [install_error ran]
        exact intact
      | ok place =>
        have owner : (made peer keyId session).peer = peer := rfl
        refine intact.installed owner (fun other differs current => ?_) (install_shape ran)
        exact apart ⟨⟨place, congrArg Prod.fst ran⟩, other, differs, current⟩
  | remove keyId => exact intact.removed keyId
  | expireRetired now => exact intact.expired now

theorem intact_run (calls : List Call)
    (apart : ∀ before call, before ++ [call] <+: calls → ¬ call.Collides (run before)) : (run calls).Intact := by
  induction calls using List.reverseRecOn with
  | nil => exact intact_empty
  | append_singleton calls call ih =>
    rw [run_append]
    apply intact_step
    · apply ih
      intro before earlier taken
      exact apart before earlier (taken.trans (List.prefix_append calls [call]))
    · exact apart calls call List.prefix_rfl

/-- The peer that had the key id is then answered with the session of the peer that took it. -/
theorem collision_breaks {table : SessionTable} {call : Call} (collides : call.Collides table) :
    ¬ (call.perform table).Integrity := by
  intro integrity
  cases call with
  | install peer keyId session now =>
    obtain ⟨⟨ref, succeeded⟩, other, differs, current⟩ := collides
    have shape := install_shape (Prod.ext succeeded rfl)
    obtain ⟨held, present, own⟩ := integrity.owner other table.heap.length (by
      rw [perform, findByPeer, shape.byPeer, if_neg differs, current]
      exact (shape.sessions keyId).trans (if_pos rfl))
    rw [perform, shape.get_new, Option.some_inj] at present
    subst present
    exact differs own.symm
  | remove keyId => exact collides
  | expireRetired now => exact collides

/-- The tables agree after every call exactly as long as no install takes a key id by which another peer
is reached; whatever the calls are, a session goes only by a call that names it. -/
theorem table_integrity_iff (calls : List Call) :
    ((∀ before, before <+: calls → (run before).Integrity) ↔
      ∀ before call, before ++ [call] <+: calls → ¬ call.Collides (run before)) ∧
    ∀ before call, before ++ [call] <+: calls → ∀ keyId ref session, keyId ∉ call.named (run before) →
      (run before).findByKeyId keyId = some ref → (run before).get ref = some session →
        (run (before ++ [call])).findByKeyId keyId = some ref ∧
          (run (before ++ [call])).get ref = some session := by
  refine ⟨⟨?_, ?_⟩, ?_⟩
  · intro integrity before call taken collides
    apply collision_breaks collides
    rw [← run_append]
    exact integrity _ taken
  · intro apart before taken
    apply Intact.integrity
    apply intact_run
    intro earlier call inside
    exact apart earlier call (inside.trans taken)
  · intro before call _ keyId ref session unnamed found present
    rw [run_append]
    exact keeps (run before) call unnamed found present

def sampleSession : Session where
  peer := 0
  localKeyId := 0
  remoteKeyId := 0
  sendKey := Vector.replicate 32 0
  receiveKey := Vector.replicate 32 0
  establishedAt := 0

/-- Peer 1 is answered with the session of peer 2. -/
theorem reused_id_answers_for_another :
    let table := run [.install 1 0x10 sampleSession 0, .install 2 0x10 sampleSession 0]
    ((table.findByPeer 1).bind table.get).map Session.peer = some 2 ∧ ¬ table.Integrity := by
  have collides : (install 2 0x10 sampleSession 0).Collides (run [.install 1 0x10 sampleSession 0]) :=
    ⟨⟨1, rfl⟩, 1, by decide, by decide⟩
  exact ⟨by decide, collision_breaks collides⟩

end Call

end SessionTable

end Norr
