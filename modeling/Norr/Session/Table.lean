import Norr.Lib.Assoc
import Norr.Session.Session

/-! The SessionTable of `session.cpp`.

`heap` holds every Session ever made; a shared pointer is an index into it, so that a session
outlives its table entry. `now` is the steady clock at the moment of a call. -/

namespace Norr

abbrev SessionRef := ℕ

def kMaximumSessions : ℕ := 1024

def kRetireAfter : Duration := seconds 10

structure Retired where
  keyId : UInt16
  retiredAt : Instant
  deriving DecidableEq, Repr

structure SessionTable where
  heap : List Session := []
  sessions : AList (fun _ : UInt16 => SessionRef) := ∅
  byPeer : AList (fun _ : PeerId => UInt16) := ∅
  retired : List Retired := []
  nextKeyId : UInt16 := 1

namespace SessionTable

def get (table : SessionTable) (ref : SessionRef) : Option Session := table.heap[ref]?

def update (table : SessionTable) (ref : SessionRef) (change : Session → Session) : SessionTable :=
  { table with heap := table.heap.modify ref change }

def advanceKeyId (table : SessionTable) : SessionTable :=
  { table with nextKeyId := if table.nextKeyId = 0xFFFF then 1 else table.nextKeyId + 1 }

def allocateLoop : ℕ → SessionTable → Except SessionError UInt16 × SessionTable
  | 0, table => (.error .keyIdExhausted, table)
  | attempts + 1, table =>
    let candidate := table.nextKeyId
    let advanced := table.advanceKeyId
    if candidate = kPreSessionKeyId then allocateLoop attempts advanced
    else if candidate ∈ advanced.sessions then allocateLoop attempts advanced
    else (.ok candidate, advanced)

def allocateKeyId (table : SessionTable) : Except SessionError UInt16 × SessionTable :=
  if kMaximumSessions ≤ table.sessions.size then (.error .tooManySessions, table)
  else allocateLoop 0x10000 table

/-- What install does to the entry the peer had. -/
def displace (table : SessionTable) (peer : PeerId) (localKeyId : UInt16) (now : Instant) :
    SessionTable :=
  match table.byPeer.lookup peer with
  | none => table
  | some existing =>
    if existing ≠ localKeyId then
      { table with
        retired := table.retired ++ [⟨existing, now⟩]
        byPeer := table.byPeer.erase peer }
    else
      { table with
        sessions := table.sessions.erase existing
        byPeer := table.byPeer.erase peer }

def install (table : SessionTable) (peer : PeerId) (localKeyId : UInt16) (session : Session)
    (now : Instant) : Except SessionError SessionRef × SessionTable :=
  if peer = kNoPeer then (.error .unknownPeer, table)
  else if localKeyId = kPreSessionKeyId then (.error .unknownKeyId, table)
  else if kMaximumSessions ≤ table.sessions.size then (.error .tooManySessions, table)
  else
    let displaced := table.displace peer localKeyId now
    -- the key id has just been erased, so that try_emplace always inserts
    (.ok displaced.heap.length, { displaced with
      heap := displaced.heap ++ [session]
      sessions := (displaced.sessions.erase localKeyId).insert localKeyId displaced.heap.length
      byPeer := displaced.byPeer.insert peer localKeyId
      retired := displaced.retired.filter (·.keyId ≠ localKeyId) })

def findByKeyId (table : SessionTable) (keyId : UInt16) : Option SessionRef :=
  table.sessions.lookup keyId

def findByPeer (table : SessionTable) (peer : PeerId) : Option SessionRef :=
  match table.byPeer.lookup peer with
  | none => none
  | some keyId => table.findByKeyId keyId

def expireRetired (table : SessionTable) (now : Instant) : SessionTable :=
  let expired := table.retired.filter fun entry => kRetireAfter ≤ now - entry.retiredAt
  { table with
    sessions := expired.foldl (fun sessions entry => sessions.erase entry.keyId) table.sessions
    retired := table.retired.filter fun entry => now - entry.retiredAt < kRetireAfter }

def remove (table : SessionTable) (localKeyId : UInt16) : SessionTable :=
  match table.sessions.lookup localKeyId with
  | none => table
  | some ref =>
    let peer := (table.get ref).map Session.peer
    { table with
      retired := table.retired.filter (·.keyId ≠ localKeyId)
      byPeer := table.byPeer.keep fun owner keyId => !(some owner = peer && keyId = localKeyId)
      sessions := table.sessions.erase localKeyId }

theorem displace_heap (table : SessionTable) (peer : PeerId) (keyId : UInt16) (clock : Instant) :
    (table.displace peer keyId clock).heap = table.heap := by
  unfold displace
  split
  · rfl
  · split_ifs <;> rfl

variable {table after : SessionTable} {session : Session} {ref : SessionRef} {peer : PeerId} {keyId : UInt16}
  {clock : Instant}

theorem get_update_self (present : table.get ref = some session) (change : Session → Session) :
    (table.update ref change).get ref = some (change session) := by
  rw [get] at present
  rw [get, update, List.getElem?_modify, present]
  simp

theorem install_error {error : SessionError} (ran : table.install peer keyId session clock = (.error error, after)) :
    after = table := by
  unfold install at ran
  split_ifs at ran <;> cases ran <;> rfl

theorem install_ok (ran : table.install peer keyId session clock = (.ok ref, after)) :
    peer ≠ kNoPeer ∧ ref = table.heap.length ∧ after.heap = table.heap ++ [session] ∧
      after.findByKeyId keyId = some ref ∧ after.findByPeer peer = some ref := by
  unfold install at ran
  split_ifs at ran with unknown
  · cases ran
  · cases ran
  · cases ran
  · cases ran
    exact ⟨unknown, congrArg List.length (displace_heap table peer keyId clock),
      congrArg (· ++ [session]) (displace_heap table peer keyId clock), AList.lookup_insert _,
      by simp [findByPeer, findByKeyId]⟩

/-- The session just installed, with its endpoint noted. -/
theorem install_noted (ran : table.install peer keyId session clock = (.ok ref, after)) (endpoint : Endpoint) :
    (after.update ref (·.noteAuthenticatedEndpoint endpoint)).heap =
      table.heap ++ [session.noteAuthenticatedEndpoint endpoint] := by
  obtain ⟨-, same, grown, -⟩ := install_ok ran
  rw [update, grown, same, List.modify_eq_take_drop, List.take_left, List.drop_left]
  rfl

end SessionTable

end Norr
