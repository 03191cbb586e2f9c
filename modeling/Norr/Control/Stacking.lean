import Norr.Control.Arming
import Norr.Control.Initiations
import Norr.Control.Timeouts
import Norr.Lib.Runs

/-! How many timers of a kind a peer has on the wheel. -/

namespace Norr

open Running

open Runs (Throughout)

variable {crypto : Crypto} {heap : HeapAlgorithms} {now : Instant}

/-- How many of the events are timers of this kind for the peer. -/
def armed (kind : TimerKind) (peer : PeerId) (events : List TimerEvent) : ℕ :=
  events.countP fun event => event.kind = kind && event.subject = peer

theorem armed_cons (kind : TimerKind) (peer : PeerId) (event : TimerEvent) (events : List TimerEvent) :
    armed kind peer (event :: events) =
      armed kind peer events + if event.kind = kind ∧ event.subject = peer then 1 else 0 := by
  simp [armed, List.countP_cons]

theorem armed_append (kind : TimerKind) (peer : PeerId) (first second : List TimerEvent) :
    armed kind peer (first ++ second) = armed kind peer first + armed kind peer second := List.countP_append

theorem armed_perm {first second : List TimerEvent} (same : first.Perm second) (kind : TimerKind) (peer : PeerId) :
    armed kind peer first = armed kind peer second := same.countP_eq _

namespace Node

def armed (node : Node) (kind : TimerKind) (peer : PeerId) : ℕ := Norr.armed kind peer node.wheel.timers

theorem armed_schedule (lawful : heap.Lawful) (node : Node) (scheduled kind : TimerKind) (subject peer : PeerId)
    (due : Instant) : (node.schedule heap scheduled subject due).2.armed kind peer ≤
      node.armed kind peer + if scheduled = kind ∧ subject = peer then 1 else 0 := by
  simp only [armed, schedule]
  rcases node.wheel.schedule_cases lawful scheduled subject due with ⟨-, same⟩ | ⟨-, after, same, timers⟩
  · rw [same]
    exact Nat.le_add_right _ _
  · rw [same, armed_perm timers, armed_cons]

theorem armed_cancel (lawful : heap.Lawful) (node : Node) (cancelled kind : TimerKind) (subject peer : PeerId) :
    (node.cancel heap cancelled subject).armed kind peer ≤
      if cancelled = kind ∧ subject = peer then 0 else node.armed kind peer := by
  simp only [armed, cancel, armed_perm (TimerWheel.cancel_timers lawful _ _ _)]
  split_ifs with same
  · obtain ⟨rfl, rfl⟩ := same
    simp [Norr.armed, List.countP_filter]
  · exact List.Sublist.countP_le List.filter_sublist

theorem armed_cancelAll (lawful : heap.Lawful) (kinds : List TimerKind) (subject peer : PeerId) (kind : TimerKind)
    (node : Node) : (kinds.foldl (fun node kind => cancel heap node kind subject) node).armed kind peer ≤
      if kind ∈ kinds ∧ subject = peer then 0 else node.armed kind peer := by
  induction kinds generalizing node with
  | nil => simp
  | cons first kinds ih =>
    have once := armed_cancel lawful node first kind subject peer
    have rest := ih (node.cancel heap first subject)
    rw [List.foldl_cons]
    refine rest.trans ?_
    split_ifs at * <;> simp_all

theorem armed_scheduleWhen (lawful : heap.Lawful) (condition : Prop) [Decidable condition] (node : Node)
    (scheduled kind : TimerKind) (subject peer : PeerId) (due : Instant) :
    (if condition then (node.schedule heap scheduled subject due).2 else node).armed kind peer ≤
      node.armed kind peer + if scheduled = kind ∧ subject = peer then 1 else 0 := by
  by_cases met : condition
  · rw [if_pos met]
    exact armed_schedule lawful node scheduled kind subject peer due
  · rw [if_neg met]
    exact Nat.le_add_right _ _

theorem mem_peerTimers {kind : TimerKind} : kind ∈ peerTimers ↔
    kind = .handshakeTimeout ∨ kind = .handshakeRetry ∨ kind = .rekey ∨ kind = .keepalive := by
  simp [peerTimers]

theorem ne_of_mem_peerTimers {kind : TimerKind} (own : kind ∈ peerTimers) : .provisionalTimeout ≠ kind := by
  rintro rfl
  exact absurd own (by decide)

/-- The peer of a new session has one rekey and one keepalive timer and none of the handshake. -/
theorem armed_armInitiator (lawful : heap.Lawful) (node : Node) (subject peer : PeerId) (kind : TimerKind)
    (clock : Instant) (own : kind ∈ peerTimers) : (node.armInitiator heap subject clock).armed kind peer ≤
      if subject = peer then (if kind = .rekey ∨ kind = .keepalive then 1 else 0) else node.armed kind peer := by
  have cancelled := armed_cancelAll lawful peerTimers subject peer kind node
  rw [armInitiator]
  refine (armed_schedule lawful _ _ kind subject peer _).trans ?_
  refine (Nat.add_le_add_right (armed_scheduleWhen lawful _ _ _ kind subject peer _) _).trans ?_
  refine (Nat.add_le_add_right (Nat.add_le_add_right cancelled _) _).trans ?_
  by_cases same : subject = peer
  · simp only [same, and_true, if_true, own]
    rcases mem_peerTimers.mp own with rfl | rfl | rfl | rfl <;> simp
  · simp [same]

/-- No peer has two timers of one kind, and only peers with a pending handshake have timers of one. -/
structure Unstacked (node : Node) : Prop where
  single : ∀ kind ∈ peerTimers, ∀ peer, node.armed kind peer ≤ 1
  pending : ∀ event ∈ node.wheel.timers, event.kind = .handshakeTimeout ∨ event.kind = .handshakeRetry →
    event.subject ∈ node.plane.pending

/-- The same with the events that wait to be handed over, as far as they can come back to the wheel. -/
def Spaced (node : Node) (batch : List TimerEvent) : Prop :=
  ∀ kind ∈ peerTimers, ∀ peer, node.armed kind peer +
      (if kind = .handshakeTimeout ∨ kind = .keepalive then Norr.armed kind peer batch else 0) ≤
    if kind = .rekey ∨ kind = .keepalive ∨ peer ∈ node.plane.pending then 1 else 0

variable {event : TimerEvent} {node after : Node} {batch rest : List TimerEvent}

theorem armed_pos {events : List TimerEvent} (member : event ∈ events) :
    0 < Norr.armed event.kind event.subject events := List.countP_pos_iff.mpr ⟨event, member, by simp⟩

theorem Spaced.unstacked (spaced : Spaced node batch) : node.Unstacked := by
  constructor
  · intro kind own peer
    refine (Nat.le_add_right _ _).trans ((spaced kind own peer).trans ?_)
    split_ifs <;> decide
  · intro event member handshake
    by_contra absent
    have some : 0 < node.armed event.kind event.subject := armed_pos member
    rcases handshake with own | own
    all_goals
      have bound := spaced event.kind (by simp [own, peerTimers]) event.subject
      simp only [own, absent, reduceCtorEq, or_false, if_false] at bound some
      omega

/-- Nothing is scheduled for a peer, and the same handshakes are pending. -/
theorem Spaced.mono (spaced : Spaced node batch)
    (timers : ∀ kind ∈ peerTimers, ∀ peer, after.armed kind peer ≤ node.armed kind peer)
    (pending : ∀ peer, peer ∈ after.plane.pending ↔ peer ∈ node.plane.pending)
    (handed : ∀ kind peer, Norr.armed kind peer rest ≤ Norr.armed kind peer batch) : Spaced after rest := by
  intro kind own peer
  have before := spaced kind own peer
  have fewer := timers kind own peer
  have left := handed kind peer
  simp only [pending peer]
  split_ifs at before ⊢ <;> omega

theorem Spaced.unmoved (spaced : Spaced node batch) (unmoved : Unmoved node after) : Spaced after batch :=
  spaced.mono (fun _ _ _ => by rw [armed, unmoved.wheel, armed]) unmoved.pending fun _ _ => le_rfl

/-- start_handshake needs a peer without a pending handshake, and two free places on the wheel. -/
def canDial (node : Node) (peer : PeerId) : Bool :=
  decide (peer ∉ node.plane.pending) && decide (node.wheel.timers.length + 2 ≤ kMaximumTimers)

theorem Spaced.dials {peer : PeerId} (spaced : Spaced node batch) (free : node.canDial peer = true)
    (dials : Dials now peer node after) : Spaced after batch := by
  simp only [canDial, Bool.and_eq_true, decide_eq_true_eq] at free
  cases dials with
  | refused unmoved => exact spaced.unmoved unmoved
  | halfway last => omega
  | armed due timers _ pending =>
    intro kind own other
    have count : after.armed kind other = node.armed kind other +
        (if .handshakeTimeout = kind ∧ peer = other then 1 else 0) +
        (if .handshakeRetry = kind ∧ peer = other then 1 else 0) := by
      rw [armed, armed_perm timers, armed_cons, armed_cons]
      rfl
    have before := spaced kind own other
    rw [count]
    simp only [pending other]
    by_cases same : peer = other
    · subst same
      rcases mem_peerTimers.mp own with rfl | rfl | rfl | rfl
      all_goals
        simp only [free.1, reduceCtorEq, or_self, or_false, or_true, and_true, and_self, if_true, if_false]
          at before ⊢
        omega
    · simpa [same, Ne.symm same] using before

/-- The timers of one peer are set anew. -/
theorem Spaced.renew (spaced : Spaced node []) (peer : PeerId)
    (others : ∀ kind ∈ peerTimers, ∀ other, peer ≠ other → after.armed kind other ≤ node.armed kind other)
    (own : ∀ kind ∈ peerTimers, after.armed kind peer ≤
      if kind = .rekey ∨ kind = .keepalive ∨ peer ∈ after.plane.pending then 1 else 0)
    (pending : ∀ other, peer ≠ other → (other ∈ after.plane.pending ↔ other ∈ node.plane.pending)) :
    Spaced after [] := by
  intro kind known other
  by_cases same : peer = other
  · subst same
    simpa [Norr.armed] using own kind known
  · simp only [pending other same]
    exact (Nat.add_le_add_right (others kind known other same) _).trans (spaced kind known other)

theorem Spaced.completes (lawful : heap.Lawful) {peer : PeerId} (spaced : Spaced node [])
    (completes : Completes heap node after peer) : Spaced after [] := by
  obtain ⟨⟨middle, clock, unmoved, wheel⟩, -, pending⟩ := completes
  have bound (kind : TimerKind) (known : kind ∈ peerTimers) (other : PeerId) : after.armed kind other ≤
      if peer = other then (if kind = .rekey ∨ kind = .keepalive then 1 else 0) else node.armed kind other := by
    have before : middle.armed kind other = node.armed kind other := by rw [armed, unmoved.wheel, armed]
    rw [armed, wheel, ← before]
    exact armed_armInitiator lawful middle peer other kind clock known
  refine spaced.renew peer (fun kind known other differs => ?_) (fun kind known => ?_) fun other differs => ?_
  · simpa [differs] using bound kind known other
  · refine (bound kind known peer).trans ?_
    rw [if_pos rfl]
    split_ifs with early late <;> simp_all
  · rw [pending other]
    simp [Ne.symm differs]

theorem Spaced.enrols (lawful : heap.Lawful) {entry : Provisional} (spaced : Spaced node batch)
    (enrols : Enrols heap now node after entry) : Spaced after batch := by
  refine spaced.mono (fun kind own peer => ?_) enrols.pending fun _ _ => le_rfl
  have bound := armed_schedule lawful node .provisionalTimeout kind entry.localKeyId.toUInt32 peer
    (now + kHandshakeTimeout)
  rw [if_neg fun same => ne_of_mem_peerTimers own same.1] at bound
  rwa [armed, enrols.wheel]

theorem Spaced.armResponder (lawful : heap.Lawful) (spaced : Spaced node []) (keyId : UInt16) (peer : PeerId)
    (clock : Instant) : Spaced (node.armResponder heap keyId peer clock) [] := by
  have bound (kind : TimerKind) (known : kind ∈ peerTimers) (other : PeerId) :
      (node.armResponder heap keyId peer clock).armed kind other ≤
        (if peer = other ∧ (kind = .rekey ∨ kind = .keepalive) then 0 else node.armed kind other) +
          if .keepalive = kind ∧ peer = other then 1 else 0 := by
    let freed := node.cancel heap .provisionalTimeout keyId.toUInt32
    have first : freed.armed kind other ≤ _ := armed_cancel lawful node .provisionalTimeout kind keyId.toUInt32 other
    have second := armed_cancel lawful freed .rekey kind peer other
    have third := armed_cancel lawful (freed.cancel heap .rekey peer) .keepalive kind peer other
    refine (armed_schedule lawful _ .keepalive kind peer other _).trans (Nat.add_le_add_right (third.trans ?_) _)
    rw [if_neg fun same => ne_of_mem_peerTimers known same.1] at first
    by_cases same : peer = other
    · subst same
      rcases mem_peerTimers.mp known with rfl | rfl | rfl | rfl
      · simpa using second.trans first
      · simpa using second.trans first
      · simpa using second
      · simp
    · simp only [same, and_false, if_false, false_and] at second ⊢
      exact second.trans first
  have plane : (node.armResponder heap keyId peer clock).plane = node.plane := rfl
  refine spaced.renew peer (fun kind known other differs => ?_) (fun kind known => ?_) fun other _ => by rw [plane]
  · simpa [differs] using bound kind known other
  · rw [plane]
    refine (bound kind known peer).trans ?_
    have before := spaced kind known peer
    rcases mem_peerTimers.mp known with rfl | rfl | rfl | rfl
    · simpa using (Nat.le_add_right _ _).trans before
    · simpa using before
    · simp
    · simp

theorem Spaced.tryPromoteProvisional (lawful : heap.Lawful) {view : PacketView} {packet : Bytes} {room : ℕ}
    {source : Endpoint} {clock : Instant} {outcome : Except ControlError Bytes} (spaced : Spaced node [])
    (ran : node.tryPromoteProvisional crypto heap view packet room source clock = (outcome, after)) :
    Spaced after [] := by
  have kept {plane : ControlPlane} {table : SessionTable} (same : plane.pending = node.plane.pending) :
      Spaced { node with plane, table } [] :=
        spaced.mono (fun _ _ _ => le_rfl) (fun _ => by rw [same]) fun _ _ => le_rfl
  rcases Node.tryPromoteProvisional_cases ran with ⟨-, rfl | rfl⟩ | ⟨entry, -, -, ref, table, -, -, -, -, rfl⟩
  · exact spaced
  · exact kept rfl
  · refine Spaced.armResponder lawful ?_ view.header.keyId entry.peer clock
    exact kept (by rfl)

theorem armed_cancelProvisional (lawful : heap.Lawful) (entries : List (Sigma fun _ : UInt16 => Provisional))
    (node : Node) (kind : TimerKind) (known : kind ∈ peerTimers) (peer : PeerId) :
    (entries.foldl (fun node entry => cancel heap node .provisionalTimeout entry.1.toUInt32) node).armed kind peer ≤
      node.armed kind peer := by
  induction entries generalizing node with
  | nil => exact le_rfl
  | cons entry entries ih =>
    have once := armed_cancel lawful node .provisionalTimeout kind entry.1.toUInt32 peer
    rw [if_neg fun same => ne_of_mem_peerTimers known same.1] at once
    exact (ih _).trans once

theorem Spaced.forgetPeer (lawful : heap.Lawful) (spaced : Spaced node []) (peer : PeerId) :
    Spaced (node.forgetPeer heap peer) [] := by
  have bound (kind : TimerKind) (known : kind ∈ peerTimers) (other : PeerId) :
      (node.forgetPeer heap peer).armed kind other ≤ if peer = other then 0 else node.armed kind other := by
    refine (armed_cancelProvisional lawful _ _ kind known other).trans ?_
    refine (armed_cancelAll lawful peerTimers peer other kind _).trans ?_
    simp only [known, true_and]
    exact le_rfl
  have pending (other : PeerId) :
      other ∈ (node.forgetPeer heap peer).plane.pending ↔ other ≠ peer ∧ other ∈ node.plane.pending := by
    rw [forgetPeer_frame]
    exact AList.mem_erase
  refine spaced.renew peer (fun kind known other differs => ?_) (fun kind known => ?_) fun other differs => ?_
  · simpa [differs] using bound kind known other
  · refine (bound kind known peer).trans ?_
    simp
  · rw [pending other]
    simp [Ne.symm differs]

/-- The due timers become the batch. -/
theorem Spaced.expire {due : List TimerEvent} {wheel : TimerWheel} (spaced : Spaced node [])
    (moved : (due ++ wheel.timers).Perm node.wheel.timers) : Spaced { node with wheel } due := by
  intro kind own peer
  have count : Norr.armed kind peer due + Norr.armed kind peer wheel.timers = node.armed kind peer := by
    rw [← armed_append, armed_perm moved, armed]
  refine le_trans ?_ ((Nat.le_add_right _ _).trans (spaced kind own peer))
  change Norr.armed kind peer wheel.timers + _ ≤ _
  split_ifs <;> omega

/-- An event does not start a handshake that is under way. -/
def tolerates (node : Node) (event : TimerEvent) : Bool :=
  match event.kind with
  | .handshakeRetry => event.subject ∉ node.plane.pending
  | .rekey => node.canDial event.subject
  | _ => true

/-- The timeout takes the handshake and its retry with it. -/
theorem Spaced.timesOut (lawful : heap.Lawful) (spaced : Spaced node (event :: rest))
    (kind : event.kind = .handshakeTimeout) :
    Spaced ((node.erasePending event.subject).cancel heap .handshakeRetry event.subject) rest := by
  intro other own peer
  have before := spaced other own peer
  have bound : _ ≤ if _ then 0 else node.armed other peer :=
    armed_cancel lawful (node.erasePending event.subject) .handshakeRetry other event.subject peer
  have pending : peer ∈ ((node.erasePending event.subject).cancel heap .handshakeRetry event.subject).plane.pending ↔
      peer ≠ event.subject ∧ peer ∈ node.plane.pending := AList.mem_erase
  rw [armed_cons, kind] at before
  simp only [pending]
  by_cases mine : event.subject = peer
  · subst mine
    rcases mem_peerTimers.mp own with rfl | rfl | rfl | rfl <;>
      simp only [reduceCtorEq, or_self, or_false, or_true, true_or, false_or, and_true, and_self, ne_eq,
        not_true_eq_false, false_and, if_true, if_false] at before bound ⊢
    · split_ifs at before <;> omega
    · exact bound
    · exact bound.trans before
    · exact (Nat.add_le_add_right bound _).trans before
  · simp only [mine, and_false, if_false, Nat.add_zero] at before bound
    simp only [ne_eq, Ne.symm mine, not_false_eq_true, true_and]
    exact (Nat.add_le_add_right bound _).trans before

theorem Spaced.keepsAlive (lawful : heap.Lawful) (spaced : Spaced node (event :: rest))
    (kind : event.kind = .keepalive) (due : Instant) :
    Spaced ((node.pushKeepalive event.subject).schedule heap .keepalive event.subject due).2 rest := by
  intro other own peer
  have before := spaced other own peer
  have bound : _ ≤ node.armed other peer + _ :=
    armed_schedule lawful (node.pushKeepalive event.subject) .keepalive other event.subject peer due
  rw [armed_cons, kind] at before
  refine (Nat.add_le_add_right bound _).trans (le_trans ?_ before)
  by_cases same : other = .keepalive
  · simp only [same, true_and, or_true, if_true]
    omega
  · simp [Ne.symm same]

theorem Spaced.onTimer (lawful : heap.Lawful) {draws : Draws} {outcome : List OutgoingHandshake}
    (spaced : Spaced node (event :: rest)) (tolerates : node.tolerates event = true)
    (ran : node.onTimer crypto heap event draws now = (outcome, after)) : Spaced after rest := by
  have dropped : Spaced node rest := spaced.mono (fun _ _ _ => le_rfl) (fun _ => Iff.rfl) fun kind peer => by
    rw [armed_cons]
    exact Nat.le_add_right _ _
  unfold Node.onTimer at ran
  split at ran
  next kind =>
    split_ifs at ran with present
    · cases ran
      exact spaced.timesOut lawful kind
    · cases ran
      exact dropped
  next =>
    split_ifs at ran <;> cases ran
    · exact dropped.mono (fun _ _ _ => le_rfl) (fun _ => Iff.rfl) fun _ _ => le_rfl
    · exact dropped
  next kind =>
    have absent : event.subject ∉ node.plane.pending := by simpa [Node.tolerates, kind] using tolerates
    rw [AList.lookup_eq_none.mpr absent] at ran
    cases ran
    exact dropped
  next kind =>
    have free : node.canDial event.subject = true := by simpa [Node.tolerates, kind] using tolerates
    split at ran <;>
      next started =>
        cases ran
        exact dropped.dials free (startHandshake_dials lawful started)
  next kind =>
    split at ran
    next =>
      cases ran
      exact dropped
    next =>
      cases ran
      exact spaced.keepsAlive lawful kind _
  next =>
    cases ran
    exact dropped

end Node

namespace Running

/-- Nobody starts a handshake anew: no call dials a peer whose handshake is pending, accepts a cookie reply or
hands over a retry of a pending handshake. -/
def unhurried (crypto : Crypto) (running : Running) : Call → Bool
  | .start peer .. => running.node.canDial peer
  | .datagram _ bytes _ now => !running.node.takesCookie crypto bytes now
  | .process _ => running.batch.head?.all running.node.tolerates
  | _ => true

theorem spaced_call (lawful : heap.Lawful) {running after : Running} {call : Call} (sound : running.Sound)
    (spaced : running.node.Spaced running.batch) (calm : running.unhurried crypto call = true)
    (called : running.call crypto heap call = some after) : after.node.Spaced after.batch := by
  cases call_spec called with
  | process draws => exact spaced.onTimer lawful calm rfl
  | addPeer config =>
    refine spaced.unmoved ?_
    unfold Node.addPeer
    split_ifs <;> exact ⟨rfl, rfl, fun _ => Iff.rfl⟩
  | start peer draws => exact spaced.dials calm (Node.startHandshake_dials lawful rfl)
  | @datagram node _ source bytes draws now =>
    rcases ran : node.handleDatagram crypto heap source bytes draws now with ⟨outcome, after⟩
    cases Node.handleDatagram_receives lawful ran with
    | nothing unmoved => exact spaced.unmoved unmoved
    | retried accepted => simp [unhurried, accepted] at calm
    | answered entry enrols => exact spaced.enrols lawful enrols
    | completed peer completes => exact spaced.completes lawful completes
  | forget peer => exact spaced.forgetPeer lawful peer
  | promote => exact spaced.tryPromoteProvisional lawful rfl
  | @expire node _ now =>
    exact spaced.expire (TimerWheel.expire_spec lawful node.wheel now sound.heaped).perm
  | aside allowed =>
    obtain ⟨wheel, pending, provisional⟩ := Node.call_aside crypto heap _ allowed
    exact spaced.unmoved ⟨wheel, provisional, fun peer => by rw [pending]⟩

theorem spaced_perform (lawful : heap.Lawful) {running : Running} {call : Call} (sound : running.Sound)
    (spaced : running.node.Spaced running.batch) (calm : running.unhurried crypto call = true) :
    (running.perform crypto heap call).node.Spaced (running.perform crypto heap call).batch := by
  rw [perform]
  cases called : running.call crypto heap call with
  | none => exact spaced
  | some after => exact spaced_call lawful sound spaced calm called

/-- As long as no handshake is started again while it is pending, timers do not stack. -/
theorem timers_do_not_stack (lawful : heap.Lawful) (localStatic : KeyPair) (origin : Instant) (calls : List Call)
    (calm : Throughout (perform crypto heap) (unhurried crypto · ·) ⟨Node.create crypto localStatic, [], origin⟩
      calls) :
    (calls.foldl (perform crypto heap) ⟨Node.create crypto localStatic, [], origin⟩).node.Unstacked := by
  have start : (Node.create crypto localStatic).Spaced [] := by
    intro kind _ peer
    have none : (Node.create crypto localStatic).armed kind peer = 0 := rfl
    simp [none, armed]
  have both := Throughout.keeps
    (fun running call (held : running.Sound ∧ running.node.Spaced running.batch) calm =>
      ⟨held.1.perform lawful call, spaced_perform lawful held.1 held.2 calm⟩)
    ⟨sound_create localStatic origin, start⟩ calm
  exact both.2.unstacked

def sampleResponse : Bytes :=
  match (Node.responder.handleDatagram Crypto.plain sortingHeap {} (Node.sampleInitiation 1) plainDraws 0).1 with
  | .ok (some outgoing) => outgoing.datagram
  | _ => []

/-- A handshake, a keepalive after 25 s, and the rekey after 120 s. -/
def rekeyed : List Call :=
  [.addPeer plainPeer, .start 7 plainDraws 0, .datagram {} sampleResponse plainDraws 0, .expire (seconds 25),
    .process plainDraws, .expire (seconds 120), .process plainDraws, .process plainDraws]

theorem timers_do_not_stack_rekeyed :
    let final := rekeyed.foldl (perform Crypto.plain sortingHeap) plainStart
    final.node.wheel.timers.map (·.kind) = [.handshakeRetry, .handshakeTimeout, .keepalive] ∧ final.node.Unstacked :=
  ⟨by decide +kernel, timers_do_not_stack sortingHeap_lawful (Crypto.plainPair 1) 0 rekeyed (by decide +kernel)⟩

/-- The first retry leaves a second timeout on the wheel. -/
theorem retry_stacks_timeouts :
    let retried := [.addPeer plainPeer, .start 7 plainDraws 0, .expire (milliseconds 500),
      .process plainDraws].foldl (perform Crypto.plain sortingHeap) plainStart
    retried.node.armed .handshakeTimeout 7 = 2 ∧ ¬ retried.node.Unstacked := by
  intro retried
  have twice : retried.node.armed .handshakeTimeout 7 = 2 := by decide +kernel
  refine ⟨twice, fun unstacked => ?_⟩
  have once := unstacked.single .handshakeTimeout (by decide) 7
  omega

end Running

end Norr
