import Mathlib.Logic.Relation
import Norr.Control.Plane
import Norr.Session.LossSample

/-! What the operations of the control plane do, taken apart into steps.

`Step` says once all that a call can do to the pending handshakes, the provisional entries, the
sessions and the timers, with what the code has checked before. -/

namespace Norr

open HandshakeMessage

/-- A handshake timeout scheduled at `now` lies one full timeout ahead. -/
def OnTime (now : Instant) (event : TimerEvent) : Prop :=
  event.kind = .handshakeTimeout → event.due = now + kHandshakeTimeout

/-- A change that leaves a session the session of its peer and key id. -/
def Session.Touches (change : Session → Session) : Prop :=
  ∀ session, (change session).peer = session.peer ∧ (change session).localKeyId = session.localKeyId

theorem Session.touches_endpoint (endpoint : Endpoint) :
    Session.Touches (·.noteAuthenticatedEndpoint endpoint) := fun _ => ⟨rfl, rfl⟩

/-- The allocator has moved on, and nothing else. -/
def SessionTable.Advances (before after : SessionTable) : Prop :=
  ∃ nextKeyId, after = { before with nextKeyId }

theorem SessionTable.Advances.trans {first second third : SessionTable} (early : first.Advances second)
    (late : second.Advances third) : first.Advances third := by
  obtain ⟨middle, rfl⟩ := early
  obtain ⟨last, rfl⟩ := late
  exact ⟨last, rfl⟩

def Session.keys (session : Session) : TrafficKey × TrafficKey := (session.sendKey, session.receiveKey)

def NoiseResult.keys (result : NoiseResult) : TrafficKey × TrafficKey := (result.send, result.receive)

/-- A session made out of a handshake, which has given out no counter yet. -/
structure Session.MadeOf (session : Session) (result : NoiseResult) : Prop where
  keys : session.keys = result.keys
  known : session.peer ≠ kNoPeer
  counter : session.sendCounter = {}
  sent : session.sent = 0
  metered : session.Metered

/-- The sessions of a node and the handshakes behind them. -/
structure Account where
  sessions : List Session
  provisional : AList (fun _ : UInt16 => Provisional)
  completed : List NoiseResult

inductive Account.Step : Account → Account → Prop
  | complete (account : Account) (result : NoiseResult) :
      Step account { account with completed := account.completed ++ [result] }
  | hold (account : Account) (entry : Provisional) :
      Step account { account with
        completed := account.completed ++ [entry.result]
        provisional := account.provisional.insert entry.localKeyId entry }
  | release (account : Account) (kept : AList fun _ : UInt16 => Provisional) :
      kept.entries.Sublist account.provisional.entries → Step account { account with provisional := kept }
  | establish (account : Account) (result : NoiseResult) (session : Session) :
      session.MadeOf result → session.replay = {} → Step account { account with
        completed := account.completed ++ [result]
        sessions := account.sessions ++ [session] }

abbrev Account.Steps : Account → Account → Prop := Relation.ReflTransGen Account.Step

def outgoingOf (outcome : Except ControlError (Option OutgoingHandshake)) : List OutgoingHandshake :=
  outcome.toOption.join.toList

namespace Node

def account (node : Node) : Account := ⟨node.table.heap, node.plane.provisional, node.completed⟩

/-- The node still has to do with the peer. -/
def Knows (node : Node) (peer : PeerId) : Prop :=
  peer ∈ node.plane.peers ∨ peer ∈ node.plane.pending ∨
    (∃ keyId entry, node.plane.provisional.lookup keyId = some entry ∧ entry.peer = peer) ∨
    node.table.findByPeer peer ≠ none

/-- A key id that no session, pending handshake or provisional entry has. -/
structure Free (node : Node) (keyId : UInt16) : Prop where
  named : keyId ≠ kPreSessionKeyId
  sessions : keyId ∉ node.table.sessions
  provisional : keyId ∉ node.plane.provisional
  pending : ∀ peer entry, node.plane.pending.lookup peer = some entry → entry.localKeyId ≠ keyId

/-- The kinds of timer whose subject is a peer. -/
def peerTimers : List TimerKind := [.handshakeTimeout, .handshakeRetry, .rekey, .keepalive]

/-- The timers a call schedules belong to a peer the node knows or to a provisional entry. -/
def Allows (node : Node) (now : Instant) (event : TimerEvent) : Prop :=
  OnTime now event ∧
    (event.kind = .provisionalTimeout ∨ event.kind ∈ peerTimers ∧ node.Knows event.subject)

section Steps

variable (heap : HeapAlgorithms) (now : Instant) (answering : Prop)

/-- `answering` says whether the call is one that may answer an initiation. -/
inductive Step : Node → Node → Prop
  | timers (node : Node) (wheel : TimerWheel) :
      TimerWheel.Reaches heap (node.Allows now) node.wheel wheel → Step node { node with wheel }
  | allocate (node : Node) (table : SessionTable) : node.table.Advances table → Step node { node with table }
  | complete (node : Node) (result : NoiseResult) : Step node (node.complete result)
  | dial (node : Node) (entry : Pending) : entry.peer ∈ node.plane.peers → node.Free entry.localKeyId →
      entry.peer ∈ node.plane.pending ∨ node.plane.pending.size < kMaximumPending →
      Step node (node.setPending entry.peer entry)
  | redial (node : Node) (peer : PeerId) (old entry : Pending) :
      node.plane.pending.lookup peer = some old → entry.localKeyId = old.localKeyId →
      Step node (node.setPending peer entry)
  | hangUp (node : Node) (peer : PeerId) : Step node (node.erasePending peer)
  | stamp (node : Node) (peer : PeerId) (timestamp : UInt64) : answering → peer ∈ node.plane.peers →
      (node.plane.greatestTimestamp.lookup peer).any (timestamp ≤ ·) = false →
      Step node { node with plane := { node.plane with
        greatestTimestamp := node.plane.greatestTimestamp.insert peer timestamp } }
  | hold (node : Node) (entry : Provisional) : answering → entry.peer ∈ node.plane.peers →
      node.Free entry.localKeyId → node.plane.provisional.size < kMaximumPending →
      Step node (node.setProvisional entry.localKeyId entry)
  | release (node : Node) (keyId : UInt16) : Step node (node.eraseProvisional keyId)
  | establish (node : Node) (peer : PeerId) (entry : Pending) (session : Session) (clock : Instant)
      (ref : SessionRef) (table : SessionTable) :
      node.plane.pending.lookup peer = some entry → session.peer = peer →
      session.localKeyId = entry.localKeyId →
      node.table.install peer entry.localKeyId session clock = (.ok ref, table) →
      Step node { node.erasePending peer with table }
  | promote (node : Node) (keyId : UInt16) (entry : Provisional) (session : Session) (clock : Instant)
      (ref : SessionRef) (table : SessionTable) :
      node.plane.provisional.lookup keyId = some entry → session.peer = entry.peer →
      session.localKeyId = entry.localKeyId →
      node.table.install entry.peer entry.localKeyId session clock = (.ok ref, table) →
      Step node { node.eraseProvisional keyId with table }
  | touch (node : Node) (ref : SessionRef) (change : Session → Session) : Session.Touches change →
      Step node { node with table := node.table.update ref change }
  | learn (node : Node) (peer : PeerId) (endpoint : Endpoint) : node.Knows peer →
      Step node (node.learnEndpoint peer endpoint)
  | due (node : Node) (keepaliveDue : List PeerId) :
      (∀ peer ∈ keepaliveDue, peer ∈ node.plane.keepaliveDue ∨ node.Knows peer) →
      Step node { node with plane := { node.plane with keepaliveDue } }
  | refresh (node : Node) (drawn : Octets 32) : answering →
      Step node { node with plane := { node.plane with issuer := node.plane.issuer.refresh drawn now } }
  | load (node : Node) (value : Bool) : Step node (node.setUnderLoad value)
  | remove (node : Node) (keyId : UInt16) : Step node { node with table := node.table.remove keyId }
  | expireRetired (node : Node) (time : Instant) :
      Step node { node with table := node.table.expireRetired time }

abbrev Steps : Node → Node → Prop := Relation.ReflTransGen (Step heap now answering)

/-- A call has taken the node from one state to the other and returned these datagrams. -/
structure Ran (sends : Bytes → Prop) (before : Node) (outgoing : List OutgoingHandshake) (after : Node) :
    Prop where
  steps : Steps heap now answering before after
  accounts : Account.Steps before.account after.account
  frames : ∀ sent ∈ outgoing, sends sent.datagram

end Steps

variable {heap : HeapAlgorithms} {now : Instant} {answering : Prop} {crypto : Crypto} {sends : Bytes → Prop}

theorem Ran.refl (node : Node) : Ran heap now answering sends node [] node := ⟨.refl, .refl, nofun⟩

theorem Ran.trans {first second third : Node} {outgoing : List OutgoingHandshake}
    (early : Ran heap now answering sends first [] second)
    (late : Ran heap now answering sends second outgoing third) :
    Ran heap now answering sends first outgoing third :=
  ⟨early.steps.trans late.steps, early.accounts.trans late.accounts, late.frames⟩

variable {after before node : Node} {table : SessionTable} {allowed : TimerEvent → Prop}

theorem Ran.quiet (step : Step heap now answering before after) (same : after.account = before.account) :
    Ran heap now answering sends before [] after :=
  ⟨.single step, same ▸ .refl, nofun⟩

theorem Ran.complete (node : Node) (result : NoiseResult) :
    Ran heap now answering sends node [] (node.complete result) :=
  ⟨.single (.complete node result), .single (.complete node.account result), nofun⟩

theorem Ran.release (node : Node) (keyId : UInt16) :
    Ran heap now answering sends node [] (node.eraseProvisional keyId) :=
  ⟨.single (.release node keyId), .single (.release node.account _ (List.kerase_sublist keyId _)), nofun⟩

theorem Ran.allocate (advances : node.table.Advances table) :
    Ran heap now answering sends node [] { node with table } := by
  obtain ⟨nextKeyId, rfl⟩ := advances
  exact .quiet (.allocate node _ ⟨nextKeyId, rfl⟩) rfl

theorem Ran.sent {sent : OutgoingHandshake} (ran : Ran heap now answering sends before [] after)
    (framed : sends sent.datagram) :
    Ran heap now answering sends before [sent] after :=
  ⟨ran.steps, ran.accounts, fun _ member => List.mem_singleton.mp member ▸ framed⟩

theorem Ran.mono {outgoing : List OutgoingHandshake} {weaker : Bytes → Prop}
    (ran : Ran heap now answering sends before outgoing after) (weakens : ∀ bytes, sends bytes → weaker bytes) :
    Ran heap now answering weaker before outgoing after :=
  ⟨ran.steps, ran.accounts, fun sent member => weakens _ (ran.frames sent member)⟩

theorem knows_of_findPeer {peer : PeerId} {config : PeerConfig} (found : node.findPeer peer = some config) :
    peer ∈ node.plane.peers :=
  AList.lookup_isSome.mp (Option.isSome_of_mem found)

theorem tableLoop_allocates (attempts : ℕ) (table : SessionTable) :
    table.Advances (SessionTable.allocateLoop attempts table).2 ∧
      ∀ keyId, (SessionTable.allocateLoop attempts table).1 = .ok keyId →
        keyId ≠ kPreSessionKeyId ∧ keyId ∉ table.sessions := by
  induction attempts generalizing table with
  | zero => exact ⟨⟨table.nextKeyId, rfl⟩, fun _ failed => by cases failed⟩
  | succ attempts ih =>
    have advanced : table.Advances table.advanceKeyId := ⟨_, rfl⟩
    obtain ⟨rest, chosen⟩ := ih table.advanceKeyId
    simp only [SessionTable.allocateLoop]
    split_ifs with unnamed taken
    · exact ⟨advanced.trans rest, chosen⟩
    · exact ⟨advanced.trans rest, chosen⟩
    · refine ⟨advanced, fun keyId allocated => ?_⟩
      cases allocated
      exact ⟨unnamed, taken⟩

theorem tableKeyId_spec {after : SessionTable} {outcome : Except SessionError UInt16}
    (ran : table.allocateKeyId = (outcome, after)) : table.Advances after ∧
      ∀ keyId, outcome = .ok keyId → keyId ≠ kPreSessionKeyId ∧ keyId ∉ table.sessions := by
  unfold SessionTable.allocateKeyId at ran
  split_ifs at ran
  · cases ran
    exact ⟨⟨table.nextKeyId, rfl⟩, fun _ failed => by cases failed⟩
  · have spec := tableLoop_allocates 0x10000 table
    rwa [ran] at spec

theorem Free.of_advances {keyId : UInt16} (advances : node.table.Advances table)
    (free : { node with table }.Free keyId) : node.Free keyId := by
  obtain ⟨nextKeyId, rfl⟩ := advances
  exact { free with }

theorem allocateLoop_allocates (attempts : ℕ) (node : Node) : ∃ table, node.table.Advances table ∧
    (allocateLoop attempts node).2 = { node with table } ∧
      ∀ keyId, (allocateLoop attempts node).1 = .ok keyId → node.Free keyId := by
  induction attempts generalizing node with
  | zero => exact ⟨node.table, ⟨node.table.nextKeyId, rfl⟩, rfl, fun _ failed => by cases failed⟩
  | succ attempts ih =>
    simp only [allocateLoop]
    split
    · rename_i table ran
      exact ⟨table, (tableKeyId_spec ran).1, rfl, fun _ failed => by cases failed⟩
    · rename_i candidate table ran
      obtain ⟨advanced, chosen⟩ := tableKeyId_spec ran
      obtain ⟨last, later, same, free⟩ := ih { node with table }
      split_ifs with provisional pending
      · exact ⟨last, advanced.trans later, same, fun keyId ok => (free keyId ok).of_advances advanced⟩
      · exact ⟨last, advanced.trans later, same, fun keyId ok => (free keyId ok).of_advances advanced⟩
      · refine ⟨table, advanced, rfl, fun keyId allocated => ?_⟩
        cases allocated
        obtain ⟨named, unused⟩ := chosen candidate rfl
        refine ⟨named, unused, provisional, fun peer entry found shared => pending ?_⟩
        rw [List.any_eq_true]
        exact ⟨_, (AList.mem_entries_iff _ peer entry).mpr found, decide_eq_true shared⟩

theorem allocateKeyId_spec {outcome : Except ControlError UInt16} (ran : node.allocateKeyId = (outcome, after)) :
    ∃ table, node.table.Advances table ∧
      after = { node with table } ∧ ∀ keyId, outcome = .ok keyId → node.Free keyId := by
  have spec := allocateLoop_allocates (kMaximumPending * 2 + 2) node
  rwa [← allocateKeyId, ran] at spec

/-- Timers have been cancelled, and allowed ones scheduled; nothing else has changed. -/
structure Retimed (heap : HeapAlgorithms) (allowed : TimerEvent → Prop) (before after : Node) : Prop where
  frame : after = { before with wheel := after.wheel }
  reaches : TimerWheel.Reaches heap allowed before.wheel after.wheel

theorem Retimed.refl (node : Node) : Retimed heap allowed node node :=
  ⟨rfl, .refl⟩

theorem Retimed.trans {first second third : Node} (early : Retimed heap allowed first second)
    (late : Retimed heap allowed second third) : Retimed heap allowed first third := by
  refine ⟨?_, early.reaches.trans late.reaches⟩
  rw [late.frame, early.frame]

theorem retimed_schedule {kind : TimerKind} {subject : UInt32} {due : Instant} {scheduled : Bool}
    (ran : node.schedule heap kind subject due = (scheduled, after)) (legal : allowed ⟨kind, subject, due⟩) :
    Retimed heap allowed node after := by
  cases ran
  exact ⟨rfl, .schedule ⟨kind, subject, due⟩ .refl legal⟩

theorem retimed_cancel (node : Node) (kind : TimerKind) (subject : UInt32) :
    Retimed heap allowed node (node.cancel heap kind subject) := ⟨rfl, .cancel kind subject .refl⟩

theorem retimed_cancelAll (kinds : List TimerKind) (subject : UInt32) (node : Node) : Retimed heap allowed node
      (kinds.foldl (fun node kind => cancel heap node kind subject) node) := by
  induction kinds generalizing node with
  | nil => exact .refl node
  | cons kind kinds ih => exact (retimed_cancel node kind subject).trans (ih _)

theorem Retimed.steps (retimed : Retimed heap (node.Allows now) node after) :
    Steps heap now answering node after := by
  rw [retimed.frame]
  exact .single (.timers node _ retimed.reaches)

theorem Retimed.ran (retimed : Retimed heap (node.Allows now) node after) :
    Ran heap now answering sends node [] after := by
  refine ⟨retimed.steps, ?_, nofun⟩
  rw [retimed.frame]
  exact .refl

section Layout

theorem overwrite_append {before old after patch : Bytes} (same : patch.length = old.length) :
    overwrite (before ++ old ++ after) before.length patch = before ++ patch ++ after := by
  unfold overwrite
  rw [List.append_assoc before old after, List.take_left, ← List.append_assoc before old after,
    List.drop_left' (by rw [List.length_append, same])]

variable (kind : HandshakeMessage) (message : Bytes)

theorem mac1Offset_eq : mac1Offset message.length = (envelope kind message.length ++ message).length := by
  simp [mac1Offset]

theorem mac2Offset_eq (mac1 : Mac) : mac2Offset message.length =
    (envelope kind message.length ++ message ++ mac1.toList).length := by
  rw [List.length_append, ← mac1Offset_eq kind, Octets.toList_length, mac2Offset, kHandshakeMacSize]

theorem write_mac1 (mac1 : Mac) (rest : Bytes) :
    overwrite (envelope kind message.length ++ message ++ List.replicate 16 0 ++ rest)
        (mac1Offset message.length) mac1.toList =
      envelope kind message.length ++ message ++ mac1.toList ++ rest := by
  rw [mac1Offset_eq kind]
  exact overwrite_append (by simp)

theorem write_mac2 (mac1 mac2 : Mac) :
    overwrite (envelope kind message.length ++ message ++ mac1.toList ++ List.replicate 16 0)
        (mac2Offset message.length) mac2.toList =
      envelope kind message.length ++ message ++ mac1.toList ++ mac2.toList := by
  have patched := @overwrite_append (envelope kind message.length ++ message ++ mac1.toList)
    (List.replicate 16 0) [] mac2.toList (by simp)
  rw [List.append_nil, List.append_nil] at patched
  rw [mac2Offset_eq kind message mac1]
  exact patched

end Layout

variable {draws : Draws} {entry changed : Pending} {datagram packet : Bytes} {peer : PeerId} {clock : Instant}
  {rest entries : List (Sigma fun _ : PeerId => Pending)} {outcome : Except ControlError (Option OutgoingHandshake)}
  {source : Endpoint} {frame : HandshakeFrameView} {view : PacketView} {room : ℕ}

/-- What build_initiation has written, and what it keeps of it. -/
theorem initiation_parts {node : Node} (built : node.initiation crypto entry draws now = .ok (datagram, changed)) :
    ∃ config created message handshake holder mac1, node.findPeer entry.peer = some config ∧
      NoiseHandshake.create crypto .initiator node.plane.localStatic config.staticPublic config.preshared [] =
        .ok created ∧
      Fallible.exec (NoiseHandshake.writeMessage1 crypto draws.ephemeral
        (buildPayload 0 entry.localKeyId draws.timestamp)
        (kNoiseMessage1Overhead + (buildPayload 0 entry.localKeyId draws.timestamp).length)) created =
          (.ok message, handshake) ∧
      holder = entry.cookies.getD (CookieHolder.create crypto config.staticPublic) ∧
      mac1 = holder.computeMac1 crypto (envelope .init message.length ++ message) ∧
      message.length ≤ kMaximumHandshakePayload ∧
      datagram = envelope .init message.length ++ message ++ mac1.toList ++
        (holder.computeMac2 crypto (envelope .init message.length ++ message ++ mac1.toList)).toList ∧
      changed = { entry with
        cookies := some holder
        lastMac1 := mac1
        handshake := some handshake
        started := now } := by
  simp only [initiation] at built
  split at built
  · cases built
  · rename_i config found
    split at built
    · cases built
    · rename_i created made
      split at built
      · cases built
      · rename_i message handshake wrote
        split at built
        · cases built
        · rename_i framed
          obtain ⟨small, rfl⟩ := serializeHandshakeFrameWithMacs_ok framed
          have covered1 : (envelope .init message.length ++ message ++ List.replicate 16 (0 : UInt8) ++
              List.replicate 16 0).take (mac1Offset message.length) =
                envelope .init message.length ++ message := by
            rw [List.append_assoc _ (List.replicate 16 0), List.take_left' (mac1Offset_eq .init message).symm]
          rw [covered1, write_mac1, List.take_left' (mac2Offset_eq .init message _).symm, write_mac2] at built
          cases built
          exact ⟨config, created, message, handshake, _, _, found, made, wrote, rfl, rfl, small, rfl, rfl⟩

theorem initiation_peer {node : Node} (built : node.initiation crypto entry draws now = .ok (datagram, changed)) :
    changed.peer = entry.peer := by
  obtain ⟨_, _, _, _, _, _, -, -, -, -, -, -, -, rfl⟩ := initiation_parts built
  rfl

structure Rebuilt (heap : HeapAlgorithms) (now : Instant) (node : Node) (entry : Pending)
    (outcome : Except ControlError OutgoingHandshake) (changed : Pending) (after : Node) : Prop where
  timers : Retimed heap (node.Allows now) node after
  keyId : changed.localKeyId = entry.localKeyId
  peer : changed.peer = entry.peer
  known : outcome.isOk → entry.peer ∈ node.plane.peers
  frames : ∀ sent, outcome = .ok sent → HandshakeMessage.init.Frames sent.datagram

theorem buildInitiation_spec {node after : Node} {outcome : Except ControlError OutgoingHandshake}
    (ran : node.buildInitiation crypto heap entry draws now = (outcome, changed, after)) :
    Rebuilt heap now node entry outcome changed after := by
  unfold buildInitiation at ran
  split at ran
  · cases ran
    exact ⟨.refl node, rfl, rfl, nofun, nofun⟩
  · rename_i built
    obtain ⟨config, -, message, _, holder, mac1, found, -, -, -, -, small, rfl, rfl⟩ := initiation_parts built
    have known := knows_of_findPeer found
    have allows (kind : TimerKind) (due : Instant) (own : kind ∈ peerTimers)
        (onTime : OnTime now ⟨kind, entry.peer, due⟩) : node.Allows now ⟨kind, entry.peer, due⟩ :=
      ⟨onTime, .inr ⟨own, .inl known⟩⟩
    split at ran
    · rename_i timed
      cases ran
      exact ⟨retimed_schedule timed (allows _ _ (by decide) fun _ => rfl), rfl, rfl, nofun, nofun⟩
    · rename_i timed
      have first := retimed_schedule timed (allows _ _ (by decide) fun _ => rfl)
      split at ran
      all_goals
        rename_i retried
        have second := retimed_schedule retried (allows .handshakeRetry _ (by decide) (by simp [OnTime]))
        cases ran
      · exact ⟨first.trans second, rfl, rfl, nofun, nofun⟩
      · refine ⟨first.trans second, rfl, rfl, fun _ => known, ?_⟩
        rintro sent ⟨⟩
        exact .macs message _ _ small (Octets.toList_length _) (Octets.toList_length _)

theorem Rebuilt.sent {node after first last : Node} {outcome : Except ControlError OutgoingHandshake}
    (rebuilt : Rebuilt heap now node entry outcome changed after)
    (ran : Ran heap now answering init.Frames first [] last) :
    Ran heap now answering init.Frames first outcome.toOption.toList last := by
  cases outcome with
  | error => exact ran
  | ok sent => exact ran.sent (rebuilt.frames sent rfl)

/-- An entry rebuilt in its place. -/
theorem Rebuilt.redial {node after : Node} {old : Pending} {outcome : Except ControlError OutgoingHandshake}
    (rebuilt : Rebuilt heap now node entry outcome changed after)
    (found : node.plane.pending.lookup peer = some old) (same : entry.localKeyId = old.localKeyId) :
    Ran heap now answering init.Frames node outcome.toOption.toList
      (after.setPending peer changed) := by
  refine rebuilt.sent (rebuilt.timers.ran.trans (.quiet (.redial after peer old changed ?_ ?_) rfl))
  · rw [rebuilt.timers.frame]
    exact found
  · exact rebuilt.keyId.trans same

theorem startHandshake_ran {node after : Node} {outcome : Except ControlError OutgoingHandshake}
    (ran : node.startHandshake crypto heap peer draws now = (outcome, after)) :
    Ran heap now answering init.Frames node outcome.toOption.toList after := by
  unfold startHandshake at ran
  split at ran
  · cases ran
    exact .refl node
  · cases ran
    exact .refl node
  · split_ifs at ran with full
    · cases ran
      exact .refl node
    · split at ran
      · rename_i allocated
        obtain ⟨table, advances, same, -⟩ := allocateKeyId_spec allocated
        cases ran
        rw [same]
        exact .allocate advances
      · rename_i localKeyId advanced allocated
        obtain ⟨table, advances, same, free⟩ := allocateKeyId_spec allocated
        have first : Ran heap now answering init.Frames node [] advanced := by
          rw [same]
          exact .allocate advances
        split at ran
        · rename_i built
          cases ran
          exact first.trans (buildInitiation_spec built).timers.ran
        · rename_i entry timed built
          have rebuilt := buildInitiation_spec built
          cases ran
          have dialled : Step heap now answering timed (timed.setPending entry.peer entry) := by
            apply Step.dial
            · rw [rebuilt.timers.frame, rebuilt.peer]
              exact rebuilt.known rfl
            · obtain ⟨nextKeyId, rfl⟩ := advances
              have chosen := free localKeyId rfl
              rw [rebuilt.timers.frame, rebuilt.keyId, same]
              exact { chosen with }
            · rw [rebuilt.timers.frame, rebuilt.peer, same]
              exact not_and_or.mp full |>.elim (fun small => .inr (not_le.mp small))
                (fun present => .inl (not_not.mp present))
          rw [rebuilt.peer] at dialled
          exact rebuilt.sent ((first.trans rebuilt.timers.ran).trans (.quiet dialled rfl))

theorem retimed_armInitiator {allowed : TimerEvent → Prop} (node : Node) (peer : PeerId) (clock : Instant)
    (legal : ∀ kind due, kind = .rekey ∨ kind = .keepalive → allowed ⟨kind, peer, due⟩) :
    Retimed heap allowed node (node.armInitiator heap peer clock) := by
  have cancelled : Retimed heap allowed node _ := retimed_cancelAll
    [TimerKind.handshakeTimeout, .handshakeRetry, .rekey, .keepalive] peer node
  unfold armInitiator
  refine Retimed.trans ?_ (retimed_schedule rfl (legal _ _ (by decide)))
  split_ifs
  · exact cancelled.trans (retimed_schedule rfl (legal _ _ (by decide)))
  · exact cancelled

/-- The session is installed in the place of the pending handshake, and the timers are armed. -/
theorem installSession_ran {node after : Node} {localKeyId remoteKeyId : UInt16} {result : NoiseResult}
    {endpoint : Endpoint} (found : node.plane.pending.lookup peer = some entry)
    (named : entry.localKeyId = localKeyId)
    (ran : (node.complete result).installSession heap peer localKeyId remoteKeyId result endpoint clock =
      (.ok (), after)) :
    Ran heap now answering sends node [] ((after.erasePending peer).pushKeepalive peer) := by
  subst named
  simp only [installSession] at ran
  split at ran
  · cases ran
  · rename_i ref table installed
    obtain ⟨owned, -, -, -, known⟩ := SessionTable.install_ok installed
    let touched := table.update ref (·.noteAuthenticatedEndpoint endpoint)
    have knows : touched.findByPeer peer ≠ none := by
      change table.findByPeer peer ≠ none
      rw [known]
      exact Option.some_ne_none ref
    let erased : Node := { (node.complete result).erasePending peer with table := touched }
    let learned := erased.learnEndpoint peer endpoint
    have established : Account.Step node.account learned.account := by
      have step := Account.Step.establish node.account result (Session.noteAuthenticatedEndpoint
        { peer, localKeyId := entry.localKeyId, remoteKeyId, sendKey := result.send, receiveKey := result.receive,
          establishedAt := clock } endpoint)
        ⟨rfl, owned, rfl, rfl, Session.metered_fresh rfl rfl rfl⟩ rfl
      have noted : touched.heap = _ := SessionTable.install_noted installed endpoint
      rw [show (node.complete result).table.heap = node.account.sessions from rfl] at noted
      rw [← noted] at step
      exact step
    have first : Ran heap now answering sends node [] learned :=
      ⟨(((Relation.ReflTransGen.single (.complete node result)).tail (.establish _ peer entry _ clock ref table
        found rfl rfl installed)).tail (.touch _ ref _ (Session.touches_endpoint endpoint))).tail
        (.learn erased peer endpoint (.inr (.inr (.inr knows)))), .single established, nofun⟩
    have armsUp : Retimed heap (learned.Allows now) _ _ := retimed_armInitiator
      ({ node.complete result with table := touched }.learnEndpoint peer endpoint) peer clock
      (by
        rintro kind due (rfl | rfl)
        · exact ⟨by simp [OnTime], .inr ⟨by simp [peerTimers], .inr (.inr (.inr knows))⟩⟩
        · exact ⟨by simp [OnTime], .inr ⟨by simp [peerTimers], .inr (.inr (.inr knows))⟩⟩)
    have armed := first.trans (.quiet (.timers learned _ armsUp.reaches) rfl)
    have pushed := armed.trans (.quiet (.due _ (node.plane.keepaliveDue ++ [peer]) (by
      intro other member
      rcases List.mem_append.mp member with old | new
      · exact .inl old
      · rw [List.mem_singleton.mp new]
        exact .inr (.inr (.inr (.inr knows))))) rfl)
    cases ran
    rw [armsUp.frame]
    exact pushed

/-- The entries a loop over pending_ has still to visit are those of the map. -/
structure Visits (node : Node) (entries : List (Sigma fun _ : PeerId => Pending)) : Prop where
  distinct : entries.NodupKeys
  current : ∀ entry ∈ entries, node.plane.pending.lookup entry.1 = some entry.2

theorem visits_all (node : Node) : Visits node node.plane.pending.entries :=
  ⟨node.plane.pending.nodupKeys, fun entry member => (AList.mem_entries_iff _ entry.1 entry.2).mp member⟩

theorem Visits.tail {node : Node} {entry : Sigma fun _ : PeerId => Pending} (visits : Visits node (entry :: rest)) :
    Visits node rest :=
  ⟨(List.nodupKeys_cons.mp visits.distinct).2,
    fun other member => visits.current other (List.mem_cons_of_mem _ member)⟩

theorem Visits.head {node : Node} {entry : Sigma fun _ : PeerId => Pending} (visits : Visits node (entry :: rest)) :
    node.plane.pending.lookup entry.1 = some entry.2 := visits.current entry List.mem_cons_self

/-- Writing the entry just visited does not touch those to come. -/
theorem Visits.write {node : Node} {entry : Sigma fun _ : PeerId => Pending} (visits : Visits node (entry :: rest))
    (changed : Pending) : Visits (node.setPending entry.1 changed) rest := by
  obtain ⟨apart, distinct⟩ := List.nodupKeys_cons.mp visits.distinct
  refine ⟨distinct, fun other member => ?_⟩
  have differs : other.1 ≠ entry.1 := fun same => apart (same ▸ List.mem_keys_of_mem member)
  rw [setPending, AList.lookup_put, if_neg differs]
  exact visits.current other (List.mem_cons_of_mem _ member)

theorem Visits.complete {node : Node} (visits : Visits node entries) (result : NoiseResult) :
    Visits (node.complete result) entries :=
  ⟨visits.distinct, visits.current⟩

/-- The loop over pending_ leaves all as it is, or sends the initiation of an entry that opens the reply again. -/
theorem acceptCookie_retries {reply : CookieReply} {node after : Node}
    {all : List (Sigma fun _ : PeerId => Pending)} (within : entries ⊆ all)
    (ran : acceptCookie crypto heap reply draws now entries node = (outcome, after)) :
    (after = node ∧ outcome = .error .notPending) ∨ ∃ peer entry held opened built changed timed,
      ⟨peer, entry⟩ ∈ all ∧ entry.cookies = some held ∧
      held.acceptReply crypto reply entry.lastMac1 now = .ok opened ∧
      node.buildInitiation crypto heap { entry with cookies := some opened } draws now = (built, changed, timed) ∧
      outcome = built.map some ∧ after = timed.setPending peer changed := by
  induction entries with
  | nil =>
    cases ran
    exact .inl ⟨rfl, rfl⟩
  | cons head rest ih =>
    obtain ⟨here, later⟩ := List.cons_subset.mp within
    obtain ⟨peer, entry⟩ := head
    simp only [acceptCookie] at ran
    split at ran
    · exact ih later ran
    · rename_i held holds
      split at ran
      · exact ih later ran
      · rename_i opened accepted
        rcases built : node.buildInitiation crypto heap { entry with cookies := some opened } draws now with
          ⟨error | retry, changed, timed⟩
        all_goals
          rw [built] at ran
          cases ran
          exact .inr ⟨_, _, _, _, _, _, _, here, holds, accepted, built, rfl, rfl⟩

theorem acceptCookie_ran {reply : CookieReply} {node after : Node}
    (ran : acceptCookie crypto heap reply draws now node.plane.pending.entries node = (outcome, after)) :
    Ran heap now answering init.Frames node (outgoingOf outcome) after := by
  rcases acceptCookie_retries (List.Subset.refl _) ran with
    ⟨rfl, rfl⟩ | ⟨peer, entry, held, opened, built, changed, timed, member, -, -, tried, rfl, rfl⟩
  · exact .refl _
  · have found := (AList.mem_entries_iff _ peer entry).mp member
    cases built <;> exact (buildInitiation_spec tried).redial found rfl

theorem acceptResponse_ran {node after : Node} (visits : Visits node entries)
    (ran : acceptResponse crypto heap source frame clock entries node = (outcome, after)) :
    Ran heap now answering (fun _ => False) node (outgoingOf outcome) after := by
  induction entries generalizing node with
  | nil =>
    cases ran
    exact .refl _
  | cons head rest ih =>
    obtain ⟨peer, entry⟩ := head
    have written (handshake : NoiseHandshake) : Ran heap now answering (fun _ => False) node []
        (node.setPending peer { entry with handshake := some handshake }) :=
      .quiet (.redial node peer entry _ visits.head rfl) rfl
    simp only [acceptResponse] at ran
    split at ran
    · split_ifs at ran
      · exact ih visits.tail ran
      · split at ran
        · exact (written _).trans (ih (visits.write _) ran)
        · rename_i payload handshake read
          split at ran
          · exact (written _).trans (ih (visits.write _) ran)
          · rename_i result _
            have completed := (written handshake).trans (.complete _ result)
            split_ifs at ran
            · exact completed.trans (ih ((visits.write _).complete result) ran)
            · split at ran
              · rename_i failed
                cases ran
                simp only [installSession] at failed
                split at failed
                · rename_i refused
                  cases failed
                  rw [SessionTable.install_error refused]
                  exact completed
                · cases failed
              · rename_i installed
                cases ran
                have found : (node.plane.pending.put peer { entry with
                    handshake := some handshake }).lookup peer =
                      some { entry with handshake := some handshake } := by
                  rw [AList.lookup_put, if_pos rfl]
                exact (written handshake).trans (installSession_ran found rfl installed)
    · exact ih visits.tail ran

theorem buildReply_issuer (crypto : Crypto) (issuer : CookieIssuer) (source : Endpoint) (peer : UInt32)
    (mac1 : Mac) (drawn : Octets 32) (nonce : CookieNonce) (now : Instant) :
    (issuer.buildReply crypto source peer mac1 drawn nonce now).2 = issuer.refresh drawn now := by
  simp only [CookieIssuer.buildReply]
  split <;> rfl

/-- A challenge only refreshes the secrets of the issuer. -/
theorem challenge_ran (heap : HeapAlgorithms) {node after : Node}
    {verdict : Option (Except ControlError (Option OutgoingHandshake))}
    (ran : node.challenge crypto source frame draws now = (verdict, after)) :
    (∃ issuer, after = { node with plane := { node.plane with issuer } }) ∧
      Ran heap now True cookieReply.Frames node ((verdict.map outgoingOf).getD []) after := by
  have verified : Ran heap now True cookieReply.Frames node [] _ :=
    .quiet (.refresh node draws.verifySecret trivial) rfl
  have replied := verified.trans (.quiet (.refresh _ draws.replySecret trivial) rfl)
  rw [← buildReply_issuer crypto _ source 0 (Octets.ofBytes 16 frame.mac1) draws.replySecret
    draws.cookieNonce now] at replied
  simp only [challenge] at ran
  split_ifs at ran
  · cases ran
    exact ⟨⟨_, rfl⟩, verified⟩
  · split at ran
    · cases ran
      exact ⟨⟨_, rfl⟩, replied⟩
    · split at ran
      · cases ran
        exact ⟨⟨_, rfl⟩, replied⟩
      · rename_i framed
        obtain ⟨small, rfl⟩ := serializeHandshakeFrame_ok framed
        cases ran
        exact ⟨⟨_, rfl⟩, replied.sent (.bare _ small)⟩
  · cases ran
    exact ⟨⟨_, rfl⟩, .refl node⟩

theorem identify_known {node : Node} {message : Bytes} {config : PeerConfig}
    (identified : node.identify crypto message = .ok (peer, config)) :
    node.plane.peers.lookup peer = some config := by
  unfold identify at identified
  split at identified
  · cases identified
  · split at identified
    · cases identified
    · rename_i found
      cases identified
      exact (AList.mem_entries_iff _ peer config).mp (List.mem_of_find?_eq_some found)

/-- The initiation of a known peer, newer than all before. -/
structure Vouched (crypto : Crypto) (node : Node) (frame : HandshakeFrameView) (peer : PeerId) (payload : Bytes) :
    Prop where
  read : ∃ config handshake, node.identify crypto frame.noiseMessage = .ok (peer, config) ∧
    node.readInitiation crypto config.preshared frame.noiseMessage = some (payload, handshake)
  newer : (node.plane.greatestTimestamp.lookup peer).any (payloadTimestamp payload ≤ ·) = false

/-- The timestamp has been noted, and the allocator has moved on. -/
def stamped (node : Node) (peer : PeerId) (timestamp : UInt64) (table : SessionTable) : Node :=
  { node with
    table
    plane := { node.plane with greatestTimestamp := node.plane.greatestTimestamp.insert peer timestamp } }

section Responder

variable (crypto : Crypto) (heap : HeapAlgorithms) (frame : HandshakeFrameView) (now : Instant) (node : Node)

/-- Everything that an initiation whose MACs have been accepted can lead to. -/
inductive Responds : Except ControlError (Option OutgoingHandshake) → Node → Prop
  | refused (error : ControlError) : Responds (.error error) node
  | stamped (peer : PeerId) (payload : Bytes) (table : SessionTable) (error : ControlError) :
      Vouched crypto node frame peer payload → node.table.Advances table →
      Responds (.error error) (node.stamped peer (payloadTimestamp payload) table)
  | completed (peer : PeerId) (payload : Bytes) (table : SessionTable) (result : NoiseResult)
      (error : ControlError) : Vouched crypto node frame peer payload → node.table.Advances table →
      Responds (.error error) ((node.stamped peer (payloadTimestamp payload) table).complete result)
  | held (payload : Bytes) (table : SessionTable) (entry : Provisional)
      (outcome : Except ControlError (Option OutgoingHandshake)) :
      Vouched crypto node frame entry.peer payload → node.table.Advances table → node.Free entry.localKeyId →
      node.plane.provisional.size < kMaximumPending → entry.created = now →
      (∀ sent ∈ outgoingOf outcome, response.Frames sent.datagram) →
      Responds outcome ((((node.stamped entry.peer (payloadTimestamp payload) table).complete
        entry.result).setProvisional entry.localKeyId entry).schedule heap .provisionalTimeout
          entry.localKeyId.toUInt32 (now + kHandshakeTimeout)).2

variable (source : Endpoint) (datagram : Bytes) (draws : Draws)
  (outcome : Except ControlError (Option OutgoingHandshake)) (after : Node)

/-- What handle_datagram does with the frame it has read. -/
inductive Handles : Prop
  | refused (error : ControlError) : outcome = .error error → after = node → Handles
  | cookie (frame : HandshakeFrameView) (reply : CookieReply) : parseHandshakeFrame datagram = .ok frame →
      frame.message = .cookieReply → parseCookieReply frame.noiseMessage = .ok reply →
      acceptCookie crypto heap reply draws now node.plane.pending.entries node = (outcome, after) → Handles
  | challenged (frame : HandshakeFrameView) : parseHandshakeFrame datagram = .ok frame → frame.message = .init →
      node.challenge crypto source frame draws now = (some outcome, after) → Handles
  | initiation (frame : HandshakeFrameView) (passed : Node) : parseHandshakeFrame datagram = .ok frame →
      node.challenge crypto source frame draws now = (none, passed) →
      Responds crypto heap frame now passed outcome after → Handles
  | response (frame : HandshakeFrameView) : parseHandshakeFrame datagram = .ok frame → frame.message = .response →
      acceptResponse crypto heap source frame draws.clock node.plane.pending.entries node = (outcome, after) →
      Handles

end Responder

theorem acceptInitiation_responds {node after : Node}
    (ran : node.acceptInitiation crypto heap source frame draws now = (outcome, after)) :
    Responds crypto heap frame now node outcome after := by
  simp only [acceptInitiation] at ran
  split at ran
  · cases ran
    exact .refused _
  · rename_i peer config identified
    split at ran
    · cases ran
      exact .refused _
    · rename_i payload handshake read
      split_ifs at ran with unnamed stale
      · cases ran
        exact .refused _
      · cases ran
        exact .refused _
      · have vouched : Vouched crypto node frame peer payload :=
          ⟨⟨config, handshake, identified, read⟩, Bool.not_eq_true _ ▸ stale⟩
        split at ran
        · rename_i allocated
          obtain ⟨table, advances, same, -⟩ := allocateKeyId_spec allocated
          cases ran
          rw [same]
          exact .stamped peer payload table _ vouched advances
        · rename_i localKeyId advanced allocated
          obtain ⟨table, advances, rfl, free⟩ := allocateKeyId_spec allocated
          have chosen := free localKeyId rfl
          simp only [answer] at ran
          split at ran
          · cases ran
            exact .stamped peer payload table _ vouched advances
          · split at ran
            · cases ran
              exact .stamped peer payload table _ vouched advances
            · rename_i message _ _ _ result _
              split_ifs at ran with foreign full
              · cases ran
                exact .completed peer payload table result _ vouched advances
              · cases ran
                exact .completed peer payload table result _ vouched advances
              · let entry : Provisional := ⟨peer, localKeyId, payloadKeyId payload, result, source, now⟩
                have held (outcome : Except ControlError (Option OutgoingHandshake)) :
                    _ → Responds crypto heap frame now node outcome _ := .held payload table entry outcome vouched
                  advances { chosen with } (not_le.mp full) rfl
                split at ran
                · cases ran
                  exact held _ nofun
                · rename_i framed
                  obtain ⟨small, rfl⟩ := serializeHandshakeFrameWithMacs_ok framed
                  cases ran
                  refine held _ fun sent member => ?_
                  rw [List.mem_singleton.mp member, write_mac1]
                  exact .macs message _ _ small (Octets.toList_length _) (List.length_replicate ..)

theorem Responds.ran {node after : Node} (responds : Responds crypto heap frame now node outcome after) :
    Ran heap now True response.Frames node (outgoingOf outcome) after := by
  have noted {peer : PeerId} {payload : Bytes} {table : SessionTable}
      (vouched : Vouched crypto node frame peer payload)
      (advances : node.table.Advances table) : peer ∈ node.plane.peers ∧
        Ran heap now True response.Frames node [] (node.stamped peer (payloadTimestamp payload) table) := by
    obtain ⟨⟨config, handshake, identified, -⟩, newer⟩ := vouched
    have known := knows_of_findPeer (identify_known identified)
    exact ⟨known, (Ran.quiet (.stamp node peer _ trivial known newer) rfl).trans (.allocate advances)⟩
  cases responds with
  | refused => exact .refl node
  | stamped peer payload table error vouched advances => exact (noted vouched advances).2
  | completed peer payload table result error vouched advances =>
    exact (noted vouched advances).2.trans (.complete _ result)
  | held payload table entry _ vouched advances free room created framed =>
    obtain ⟨known, before⟩ := noted vouched advances
    obtain ⟨nextKeyId, rfl⟩ := advances
    let named := node.stamped entry.peer (payloadTimestamp payload) { node.table with nextKeyId }
    have held : Ran heap now True response.Frames named [] _ :=
      ⟨(Relation.ReflTransGen.single (.complete named entry.result)).tail
        (.hold (named.complete entry.result) entry trivial known
          { free with } room),
        .single (.hold named.account entry), nofun⟩
    have timed := (before.trans held).trans (Retimed.ran (retimed_schedule rfl
      ⟨by simp [OnTime], .inl rfl⟩ : Retimed heap _ _ (schedule heap _ .provisionalTimeout
        entry.localKeyId.toUInt32 (now + kHandshakeTimeout)).2))
    exact ⟨timed.steps, timed.accounts, framed⟩

theorem handleDatagram_handles {node after : Node}
    (ran : node.handleDatagram crypto heap source datagram draws now = (outcome, after)) :
    Handles crypto heap now node source datagram draws outcome after := by
  unfold handleDatagram at ran
  split_ifs at ran
  · cases ran
    exact .refused _ rfl rfl
  · split at ran
    · cases ran
      exact .refused _ rfl rfl
    · rename_i frame parsed
      split at ran
      · rename_i kind
        unfold handleCookieReply at ran
        split at ran
        · cases ran
          exact .refused _ rfl rfl
        · rename_i reply read
          exact .cookie frame reply parsed kind read ran
      · rename_i kind
        unfold handleInit at ran
        split_ifs at ran
        · cases ran
          exact .refused _ rfl rfl
        · cases ran
          exact .refused _ rfl rfl
        · cases ran
          exact .refused _ rfl rfl
        · split at ran
          · rename_i challenged
            cases ran
            exact .challenged frame parsed kind challenged
          · rename_i passed challenged
            exact .initiation frame passed parsed challenged (acceptInitiation_responds ran)
      · rename_i kind
        unfold handleResponse at ran
        split_ifs at ran
        · cases ran
          exact .refused _ rfl rfl
        · exact .response frame parsed kind ran
      · cases ran
        exact .refused _ rfl rfl

/-- The datagrams of the control plane. -/
def Framed (bytes : Bytes) : Prop := ∃ message : HandshakeMessage, message.Frames bytes

theorem handleDatagram_ran {node after : Node}
    (ran : node.handleDatagram crypto heap source datagram draws now = (outcome, after)) :
    Ran heap now True Framed node (outgoingOf outcome) after := by
  cases handleDatagram_handles ran with
  | refused error failed same =>
    rw [failed, same]
    exact .refl node
  | cookie frame reply parsed kind read accepted =>
    exact (acceptCookie_ran accepted).mono fun _ framed => ⟨_, framed⟩
  | challenged frame parsed kind challenged =>
    exact (challenge_ran heap challenged).2.mono fun _ framed => ⟨_, framed⟩
  | initiation frame passed parsed challenged responds =>
    have first : Ran heap now True Framed _ _ _ :=
      (challenge_ran heap challenged).2.mono fun _ framed => ⟨_, framed⟩
    exact first.trans (responds.ran.mono fun _ framed => ⟨_, framed⟩)
  | response frame parsed kind accepted =>
    exact (acceptResponse_ran (visits_all node) accepted).mono nofun

theorem open_touches {session after : Session} {outcome : Except SessionError Bytes}
    (opened : session.open crypto view packet room clock = (outcome, after)) :
    after.peer = session.peer ∧ after.localKeyId = session.localKeyId := by
  unfold Session.open at opened
  split at opened
  · cases opened
    exact ⟨rfl, rfl⟩
  · split at opened
    · cases opened
      exact ⟨rfl, rfl⟩
    · unfold Session.commit at opened
      split at opened <;> rename_i committed <;> split at committed <;> cases committed <;>
        cases opened <;> exact ⟨rfl, rfl⟩

theorem retimed_armResponder {allowed : TimerEvent → Prop} (node : Node) (keyId : UInt16) (peer : PeerId)
    (clock : Instant) (legal : ∀ due, allowed ⟨.keepalive, peer, due⟩) :
    Retimed heap allowed node (node.armResponder heap keyId peer clock) :=
  (((retimed_cancel node .provisionalTimeout keyId.toUInt32).trans (retimed_cancel _ .rekey peer)).trans
    (retimed_cancel _ .keepalive peer)).trans (retimed_schedule rfl (legal _))

/-- The node after a provisional entry became the session. -/
def promoted (heap : HeapAlgorithms) (node : Node) (keyId : UInt16) (peer : PeerId) (ref : SessionRef)
    (table : SessionTable) (source : Endpoint) (clock : Instant) : Node :=
  let noted := { node with table := table.update ref (·.noteAuthenticatedEndpoint source) }
  ((noted.eraseProvisional keyId).learnEndpoint peer source).armResponder heap keyId peer clock

theorem promoted_frame (heap : HeapAlgorithms) (node : Node) (keyId : UInt16) (peer : PeerId)
    (ref : SessionRef) (table : SessionTable) (source : Endpoint) (clock : Instant) :
    (node.promoted heap keyId peer ref table source clock).table =
        table.update ref (·.noteAuthenticatedEndpoint source) ∧
      (node.promoted heap keyId peer ref table source clock).plane.provisional =
        node.plane.provisional.erase keyId ∧
      (node.promoted heap keyId peer ref table source clock).completed = node.completed := by
  have armed : Retimed heap (fun _ => True) _ (node.promoted heap keyId peer ref table source clock) :=
    retimed_armResponder _ keyId peer clock fun _ => trivial
  rw [armed.frame]
  exact ⟨rfl, rfl, rfl⟩

/-- Everything that try_promote_provisional can do. -/
theorem tryPromoteProvisional_cases {node after : Node} {outcome : Except ControlError Bytes}
    (ran : node.tryPromoteProvisional crypto heap view packet room source clock = (outcome, after)) :
    (∃ error, outcome = .error error) ∧ (after = node ∨ after = node.eraseProvisional view.header.keyId) ∨
      ∃ entry plaintext session ref table, outcome = .ok plaintext ∧
        node.plane.provisional.lookup view.header.keyId = some entry ∧
        (candidate entry clock).open crypto view packet room clock = (.ok plaintext, session) ∧
        node.table.install entry.peer entry.localKeyId session clock = (.ok ref, table) ∧
        after = node.promoted heap view.header.keyId entry.peer ref table source clock := by
  unfold tryPromoteProvisional at ran
  split at ran
  · cases ran
    exact .inl ⟨⟨_, rfl⟩, .inl rfl⟩
  · rename_i entry held
    split at ran
    · cases ran
      exact .inl ⟨⟨_, rfl⟩, .inl rfl⟩
    · rename_i plaintext session opened
      split at ran
      · rename_i failed
        cases ran
        rw [SessionTable.install_error failed]
        exact .inl ⟨⟨_, rfl⟩, .inr rfl⟩
      · rename_i ref table installed
        cases ran
        exact .inr ⟨entry, plaintext, session, ref, table, rfl, held, opened, installed, rfl⟩

theorem tryPromoteProvisional_steps {node after : Node} {outcome : Except ControlError Bytes}
    (ran : node.tryPromoteProvisional crypto heap view packet room source clock = (outcome, after)) :
    Steps heap now answering node after := by
  rcases tryPromoteProvisional_cases ran with ⟨-, rfl | rfl⟩ |
    ⟨entry, plaintext, session, ref, table, -, held, opened, installed, rfl⟩
  · exact .refl
  · exact .single (.release node view.header.keyId)
  · obtain ⟨peer, keyId⟩ := open_touches opened
    have knows : (table.update ref (·.noteAuthenticatedEndpoint source)).findByPeer entry.peer ≠ none := by
      change table.findByPeer entry.peer ≠ none
      rw [(SessionTable.install_ok installed).2.2.2.2]
      exact Option.some_ne_none ref
    have promoted : Steps heap now answering node _ :=
      ((Relation.ReflTransGen.single (.promote node view.header.keyId entry session clock ref table held
        peer keyId installed)).tail (.touch _ ref _ (Session.touches_endpoint source))).tail
        (.learn _ entry.peer source (.inr (.inr (.inr knows))))
    exact promoted.trans (Retimed.steps (retimed_armResponder _ _ _ clock
      (fun due => ⟨by simp [OnTime], .inr ⟨by simp [peerTimers], .inr (.inr (.inr knows))⟩⟩)))

theorem onTimer_ran {node after : Node} {event : TimerEvent} {outgoing : List OutgoingHandshake}
    (ran : node.onTimer crypto heap event draws now = (outgoing, after)) :
    Ran heap now answering init.Frames node outgoing after := by
  unfold onTimer at ran
  split at ran
  · split_ifs at ran
    · cases ran
      exact Ran.trans (.quiet (.hangUp node event.subject) rfl) (Retimed.ran (retimed_cancel _ _ _))
    · cases ran
      exact .refl node
  · split_ifs at ran
    · cases ran
      exact .release node _
    · cases ran
      exact .refl node
  · split at ran
    · cases ran
      exact .refl node
    · rename_i entry found
      split at ran
      · rename_i built
        cases ran
        exact (buildInitiation_spec built).redial found rfl
      · rename_i built
        cases ran
        exact (buildInitiation_spec built).redial found rfl
  · split at ran
    · rename_i started
      cases ran
      exact startHandshake_ran started
    · rename_i started
      cases ran
      exact startHandshake_ran started
  · split at ran
    · cases ran
      exact .refl node
    · rename_i ref found
      have knows : node.Knows event.subject := .inr (.inr (.inr (by rw [found]; exact Option.some_ne_none ref)))
      have pushed : Step heap now answering node (node.pushKeepalive event.subject) := .due node _ (by
        intro peer member
        rcases List.mem_append.mp member with old | new
        · exact .inl old
        · rw [List.mem_singleton.mp new]
          exact .inr knows)
      cases ran
      exact Ran.trans (.quiet pushed rfl) (Retimed.ran (retimed_schedule rfl
        ⟨by simp [OnTime], .inr ⟨by simp [peerTimers], knows⟩⟩))
  · cases ran
    exact .refl node

theorem onTimers_ran (events : List (TimerEvent × Draws)) (node : Node) :
    Ran heap now answering init.Frames node (onTimers crypto heap now events node).1
      (onTimers crypto heap now events node).2 := by
  induction events generalizing node with
  | nil => exact .refl node
  | cons event events ih =>
    obtain ⟨event, draws⟩ := event
    have first : Ran heap now answering init.Frames node
        (node.onTimer crypto heap event draws now).1 (node.onTimer crypto heap event draws now).2 := onTimer_ran rfl
    have rest := ih (node.onTimer crypto heap event draws now).2
    refine ⟨first.steps.trans rest.steps, first.accounts.trans rest.accounts, fun sent member => ?_⟩
    exact (List.mem_append.mp member).elim (first.frames sent) (rest.frames sent)

theorem retimed_cancelProvisional {allowed : TimerEvent → Prop}
    (entries : List (Sigma fun _ : UInt16 => Provisional)) (node : Node) :
    Retimed heap allowed node (entries.foldl
      (fun node entry => cancel heap node .provisionalTimeout entry.1.toUInt32) node) := by
  induction entries generalizing node with
  | nil => exact .refl node
  | cons entry entries ih => exact (retimed_cancel node _ _).trans (ih _)

/-- The tables of the node after forget_peer, with the timers still on the wheel. -/
def withoutPeer (node : Node) (peer : PeerId) : Node :=
  { node with plane := { node.plane with
      peers := node.plane.peers.erase peer
      pending := node.plane.pending.erase peer
      greatestTimestamp := node.plane.greatestTimestamp.erase peer
      learnedEndpoint := node.plane.learnedEndpoint.erase peer
      provisional := node.plane.provisional.keep fun _ entry => !(entry.peer = peer)
      keepaliveDue := node.plane.keepaliveDue.filter (· ≠ peer) } }

theorem retimed_forgetPeer {allowed : TimerEvent → Prop} (node : Node) (peer : PeerId) :
    Retimed heap allowed (node.withoutPeer peer) (node.forgetPeer heap peer) := by
  unfold forgetPeer
  exact (retimed_cancelAll _ peer _).trans (retimed_cancelProvisional _ _)

theorem forgetPeer_frame (node : Node) (peer : PeerId) :
    node.forgetPeer heap peer = { node.withoutPeer peer with wheel := (node.forgetPeer heap peer).wheel } :=
  have retimed : Retimed heap (fun _ => True) _ _ := retimed_forgetPeer node peer
  retimed.frame

end Node

end Norr
