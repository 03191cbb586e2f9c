import Norr.Control.Arming
import Norr.Control.Initiations
import Norr.Control.Timeouts
import Norr.Lib.Runs

/-! Provisional entries and the timers that remove them. -/

namespace Norr

open Node Crypto

open Runs (Throughout)

variable {crypto : Crypto} {heap : HeapAlgorithms} {now : Instant}

/-- One of the events removes the entry in time. -/
def Provisional.Expires (events : List TimerEvent) (keyId : UInt16) (entry : Provisional) : Prop :=
  ∃ event ∈ events, event.kind = .provisionalTimeout ∧ event.subject = keyId.toUInt32 ∧
    event.due ≤ entry.created + kHandshakeTimeout

namespace Node

/-- No provisional entry is new, and the ones that are left have the timers they had. -/
structure Spares (before after : Node) : Prop where
  entries : ∀ keyId entry, after.plane.provisional.lookup keyId = some entry →
    before.plane.provisional.lookup keyId = some entry
  timers : ∀ keyId ∈ after.plane.provisional, ∀ event ∈ before.wheel.timers,
    event.kind = .provisionalTimeout → event.subject = keyId.toUInt32 → event ∈ after.wheel.timers

variable {after before : Node}

theorem Spares.of_subset (timers : before.wheel.timers ⊆ after.wheel.timers)
    (provisional : after.plane.provisional = before.plane.provisional) : Spares before after :=
  ⟨fun _ _ found => provisional ▸ found, fun _ _ _ member _ _ => timers member⟩

theorem Spares.trans {first second third : Node} (early : Spares first second) (late : Spares second third) :
    Spares first third := by
  refine ⟨fun keyId entry found => early.entries keyId entry (late.entries keyId entry found), ?_⟩
  intro keyId present event member kind subject
  have earlier : keyId ∈ second.plane.provisional := by
    obtain ⟨entry, found⟩ := Option.isSome_iff_exists.mp (AList.lookup_isSome.mpr present)
    exact AList.lookup_isSome.mp (by rw [late.entries keyId entry found]; rfl)
  exact late.timers keyId present event (early.timers keyId earlier event member kind subject) kind subject

theorem Unmoved.spares (unmoved : Unmoved before after) : Spares before after :=
  .of_subset (unmoved.wheel ▸ List.Subset.refl _) unmoved.provisional

theorem spares_schedule (lawful : heap.Lawful) (node : Node) (kind : TimerKind) (subject : UInt32) (due : Instant) :
    Spares node (node.schedule heap kind subject due).2 :=
  .of_subset (TimerWheel.schedule_keeps lawful kind subject due) rfl

/-- Timers are cancelled that no provisional entry needs. -/
theorem spares_cancel (lawful : heap.Lawful) (node : Node) (kind : TimerKind) (subject : UInt32)
    (unneeded : kind = .provisionalTimeout → ∀ keyId ∈ node.plane.provisional, keyId.toUInt32 ≠ subject) :
    Spares node (node.cancel heap kind subject) := by
  refine ⟨fun _ _ => id, fun keyId present event member own names => ?_⟩
  refine TimerWheel.cancel_keeps lawful member fun same subjects => ?_
  exact unneeded (same.symm.trans own) keyId present (names.symm.trans subjects)

theorem spares_cancelAll (lawful : heap.Lawful) (kinds : List TimerKind) (subject : UInt32) (node : Node)
    (others : TimerKind.provisionalTimeout ∉ kinds) :
    Spares node (kinds.foldl (fun node kind => cancel heap node kind subject) node) := by
  induction kinds generalizing node with
  | nil => exact (Unmoved.refl node).spares
  | cons kind kinds ih =>
    rw [List.mem_cons, not_or] at others
    exact (spares_cancel lawful node kind subject fun same => absurd same.symm others.1).trans (ih _ others.2)

theorem spares_armInitiator (lawful : heap.Lawful) (node : Node) (peer : PeerId) (clock : Instant) :
    Spares node (node.armInitiator heap peer clock) := by
  have cancelled := spares_cancelAll lawful [.handshakeTimeout, .handshakeRetry, .rekey, .keepalive] peer node
    (by decide)
  simp only [armInitiator]
  refine Spares.trans ?_ (spares_schedule lawful _ _ _ _)
  split_ifs
  · exact cancelled.trans (spares_schedule lawful _ _ _ _)
  · exact cancelled

theorem Dials.spares {peer : PeerId} (dials : Dials now peer before after) : Spares before after := by
  cases dials with
  | refused unmoved => exact unmoved.spares
  | halfway _ timers provisional =>
    exact .of_subset (fun _ member => timers.symm.subset (List.mem_cons_of_mem _ member)) provisional
  | armed due timers provisional _ =>
    refine .of_subset (fun _ member => ?_) provisional
    exact timers.symm.subset (List.mem_cons_of_mem _ (List.mem_cons_of_mem _ member))

theorem Completes.spares (lawful : heap.Lawful) {peer : PeerId} (completes : Completes heap before after peer) :
    Spares before after := by
  obtain ⟨⟨middle, clock, unmoved, wheel⟩, provisional, -⟩ := completes
  have armed := unmoved.spares.trans (spares_armInitiator lawful middle peer clock)
  have same : (middle.armInitiator heap peer clock).plane.provisional = after.plane.provisional := by
    rw [armInitiator_plane, unmoved.provisional, provisional]
  refine ⟨fun keyId entry found => armed.entries keyId entry (same ▸ found), ?_⟩
  rw [wheel, ← same]
  exact armed.timers

theorem spares_eraseProvisional (node : Node) (keyId : UInt16) : Spares node (node.eraseProvisional keyId) := by
  exact ⟨fun _ _ found => (AList.of_lookup_erase found).2, fun _ _ _ member _ _ => member⟩

theorem spares_tryPromoteProvisional (lawful : heap.Lawful) {node : Node} {view : PacketView} {packet : Bytes}
    {room : ℕ} {source : Endpoint} {clock : Instant} {outcome : Except ControlError Bytes}
    (ran : node.tryPromoteProvisional crypto heap view packet room source clock = (outcome, after)) :
    Spares node after := by
  have erased := spares_eraseProvisional node view.header.keyId
  rcases tryPromoteProvisional_cases ran with ⟨-, rfl | rfl⟩ | ⟨entry, -, -, ref, table, -, -, -, -, rfl⟩
  · exact (Unmoved.refl after).spares
  · exact erased
  · let noted : Node := { node with table := table.update ref (·.noteAuthenticatedEndpoint source) }
    let promoted : Node := (noted.eraseProvisional view.header.keyId).learnEndpoint entry.peer source
    have first : Spares node promoted := ⟨erased.entries, erased.timers⟩
    -- the entry is gone before its timer is cancelled
    have gone (keyId : UInt16) (present : keyId ∈ promoted.plane.provisional) :
        keyId.toUInt32 ≠ view.header.keyId.toUInt32 := fun same =>
      (AList.mem_erase.mp present).1 (UInt16.toUInt32_inj.mp same)
    have second := spares_cancel lawful promoted .provisionalTimeout view.header.keyId.toUInt32 fun _ => gone
    have third := spares_cancelAll lawful [.rekey, .keepalive] entry.peer
      (promoted.cancel heap .provisionalTimeout view.header.keyId.toUInt32) (by decide)
    exact ((first.trans second).trans third).trans (spares_schedule lawful _ _ _ _)

theorem spares_cancelProvisional (lawful : heap.Lawful) (entries : List (Sigma fun _ : UInt16 => Provisional))
    (node : Node) (gone : ∀ entry ∈ entries, entry.1 ∉ node.plane.provisional) :
    Spares node (entries.foldl (fun node entry => cancel heap node .provisionalTimeout entry.1.toUInt32) node) := by
  induction entries generalizing node with
  | nil => exact (Unmoved.refl node).spares
  | cons entry entries ih =>
    obtain ⟨first, rest⟩ := List.forall_mem_cons.mp gone
    refine (spares_cancel lawful node _ _ fun _ keyId present same => ?_).trans (ih _ rest)
    exact first (UInt16.toUInt32_inj.mp same ▸ present)

theorem spares_forgetPeer (lawful : heap.Lawful) (node : Node) (peer : PeerId) :
    Spares node (node.forgetPeer heap peer) := by
  unfold forgetPeer
  have kept : Spares node (node.withoutPeer peer) :=
    ⟨fun keyId entry found => (AList.lookup_keep.mp found).1, fun _ _ _ member _ _ => member⟩
  have cancelled := spares_cancelAll lawful [.handshakeTimeout, .handshakeRetry, .rekey, .keepalive] peer
    (node.withoutPeer peer) (by decide)
  refine (kept.trans cancelled).trans (spares_cancelProvisional lawful _ _ fun entry doomed present => ?_)
  -- the entries of the peer are not among those kept
  obtain ⟨member, own⟩ := List.mem_filter.mp doomed
  have present : entry.1 ∈ node.plane.provisional.keep fun _ entry => !(entry.peer = peer) := present
  obtain ⟨other, found⟩ := (AList.mem_iff_lookup _ _).mp present
  obtain ⟨there, kept⟩ := AList.lookup_keep.mp found
  rw [(AList.mem_entries_iff _ entry.1 entry.2).mp member] at there
  simp_all

theorem spares_onTimer (lawful : heap.Lawful) {node : Node} {event : TimerEvent} {draws : Draws}
    {outcome : List OutgoingHandshake} (ran : node.onTimer crypto heap event draws now = (outcome, after)) :
    Spares node after := by
  unfold onTimer at ran
  split at ran
  next =>
    split_ifs at ran
    · cases ran
      exact ⟨fun _ _ => id, (spares_cancel lawful node .handshakeRetry event.subject (by simp)).timers⟩
    · cases ran
      exact (Unmoved.refl _).spares
  next =>
    split_ifs at ran
    · cases ran
      exact spares_eraseProvisional node _
    · cases ran
      exact (Unmoved.refl _).spares
  next =>
    split at ran
    next =>
      cases ran
      exact (Unmoved.refl _).spares
    next =>
      split at ran <;>
        next built =>
          obtain ⟨timers, provisional⟩ := buildInitiation_keeps lawful built
          cases ran
          exact .of_subset timers provisional
  next =>
    split at ran
    next started =>
      cases ran
      exact (startHandshake_dials lawful started).spares
    next started =>
      cases ran
      exact (startHandshake_dials lawful started).spares
  next =>
    split at ran
    next =>
      cases ran
      exact (Unmoved.refl _).spares
    next =>
      cases ran
      exact .of_subset (TimerWheel.schedule_keeps lawful _ _ _) rfl
  next =>
    cases ran
    exact (Unmoved.refl _).spares

/-- A provisional timeout removes the entry it names. -/
theorem onTimer_provisionalTimeout (node : Node) {event : TimerEvent} {keyId : UInt16}
    (kind : event.kind = .provisionalTimeout) (subject : event.subject = keyId.toUInt32) (draws : Draws) :
    (node.onTimer crypto heap event draws now).2 = node.eraseProvisional keyId := by
  have short : keyId.toUInt32 ≤ 0xFFFF := UInt32.le_iff_toNat_le.mpr (Nat.le_of_lt_succ keyId.toNat_lt)
  have back : keyId.toUInt32.toUInt16 = keyId := UInt16.toUInt16_toUInt32 keyId
  simp only [onTimer, kind, subject, if_pos short, back]

theorem tableKeyId_next {table : SessionTable} (empty : table.sessions = ∅)
    (named : table.nextKeyId ≠ kPreSessionKeyId) :
    table.allocateKeyId = (.ok table.nextKeyId, table.advanceKeyId) := by
  have vacant : table.nextKeyId ∉ table.advanceKeyId.sessions := by
    change table.nextKeyId ∉ table.sessions
    rw [empty]
    exact AList.notMem_empty _
  have small : ¬ kMaximumSessions ≤ table.sessions.size := by
    rw [empty]
    decide
  rw [SessionTable.allocateKeyId, if_neg small, SessionTable.allocateLoop]
  simp only [if_neg named, if_neg vacant]

/-- With no session in the table, the next key id is taken if nothing else has it. -/
theorem allocateKeyId_next {node : Node} (empty : node.table.sessions = ∅)
    (named : node.table.nextKeyId ≠ kPreSessionKeyId) (unheld : node.table.nextKeyId ∉ node.plane.provisional)
    (unused : ∀ entry ∈ node.plane.pending.entries, entry.2.localKeyId ≠ node.table.nextKeyId) :
    node.allocateKeyId = (.ok node.table.nextKeyId, { node with table := node.table.advanceKeyId }) := by
  have clear : node.plane.pending.entries.any (·.2.localKeyId = node.table.nextKeyId) = false := by
    simpa using unused
  rw [allocateKeyId, kMaximumPending, allocateLoop]
  simp only [tableKeyId_next empty named, if_neg unheld, clear, Bool.false_eq_true, if_false]

theorem startHandshake_room (lawful : heap.Lawful) {node : Node} {peer : PeerId} {config : PeerConfig}
    {destination : Endpoint} {table : SessionTable} {localKeyId : UInt16} {draws : Draws} {datagram : Bytes}
    {entry : Pending} (found : node.findPeer peer = some config) (endpoint : config.endpoint = some destination)
    (space : node.plane.pending.size < kMaximumPending)
    (allocated : node.allocateKeyId = (.ok localKeyId, { node with table }))
    (initiated : { node with table }.initiation crypto { peer, localKeyId, destination } draws now =
      .ok (datagram, entry))
    (room : node.wheel.timers.length + 2 ≤ kMaximumTimers) :
    ∃ wheel due, (node.startHandshake crypto heap peer draws now).2 =
        { node with table, wheel }.setPending peer entry ∧
      wheel.timers.Perm (⟨.handshakeRetry, peer, due⟩ :: timeoutOf peer now :: node.wheel.timers) := by
  have dial : node.dialEndpoint peer = some destination := by
    simp only [dialEndpoint, found, endpoint]
  rcases node.wheel.schedule_cases lawful .handshakeTimeout peer (now + kHandshakeTimeout) with
    ⟨full, -⟩ | ⟨-, first, timed, timers⟩
  · omega
  · have length : first.timers.length = node.wheel.timers.length + 1 := timers.length_eq
    rcases first.schedule_cases lawful .handshakeRetry peer (now + retryBackoff entry.attempt) with
      ⟨full, -⟩ | ⟨-, second, retried, more⟩
    · omega
    · refine ⟨second, _, ?_, more.trans (timers.cons _)⟩
      rw [startHandshake, found, dial]
      simp only [not_le.mpr space, false_and, if_false, allocated, buildInitiation, initiated, schedule,
        initiation_peer initiated, timed, retried]

end Node

namespace Running

/-- Every provisional entry has its timeout on the wheel, or among the events being handed over. -/
def HalfOpenExpires (running : Running) : Prop :=
  ∀ keyId entry, running.node.plane.provisional.lookup keyId = some entry →
    entry.Expires (running.node.wheel.timers ++ running.batch) keyId

/-- A datagram finds a free place on the wheel. -/
def roomy (running : Running) : Call → Bool
  | .datagram .. => running.node.wheel.timers.length < kMaximumTimers
  | _ => true

variable {running after : Running} {count : ℕ}

theorem HalfOpenExpires.spared (expires : running.HalfOpenExpires) (spares : running.node.Spares after.node)
    (batch : running.batch ⊆ after.batch) : after.HalfOpenExpires := by
  intro keyId entry found
  obtain ⟨event, member, kind, subject, due⟩ := expires keyId entry (spares.entries keyId entry found)
  refine ⟨event, ?_, kind, subject, due⟩
  rw [List.mem_append] at member ⊢
  refine member.imp (fun timer => ?_) fun handed => batch handed
  exact spares.timers keyId (AList.lookup_isSome.mp (by rw [found]; rfl)) event timer kind subject

/-- An initiation is answered while there is room for the timer. -/
theorem HalfOpenExpires.enrols (lawful : heap.Lawful) {entry : Provisional} (expires : running.HalfOpenExpires)
    (room : running.node.wheel.timers.length < kMaximumTimers)
    (enrols : Enrols heap now running.node after.node entry) (batch : running.batch ⊆ after.batch) :
    after.HalfOpenExpires := by
  obtain ⟨created, provisional, wheel, -⟩ := enrols
  rcases running.node.wheel.schedule_cases lawful .provisionalTimeout entry.localKeyId.toUInt32
    (now + kHandshakeTimeout) with ⟨full, -⟩ | ⟨-, next, scheduled, timers⟩
  · omega
  · rw [scheduled] at wheel
    intro keyId held found
    rw [provisional, AList.lookup_insert_eq] at found
    rw [wheel]
    split_ifs at found with same
    · cases found
      refine ⟨_, List.mem_append_left _ (timers.symm.subset List.mem_cons_self), rfl, by rw [same], ?_⟩
      rw [created]
    · obtain ⟨event, member, names⟩ := expires keyId held found
      refine ⟨event, ?_, names⟩
      rw [List.mem_append] at member ⊢
      exact member.imp (fun timer => timers.symm.subset (List.mem_cons_of_mem _ timer)) fun handed => batch handed

/-- An event is handed to on_timers. -/
theorem HalfOpenExpires.process (lawful : heap.Lawful) {node : Node} {event : TimerEvent}
    {rest : List TimerEvent} {clock : Instant} (expires : HalfOpenExpires ⟨node, event :: rest, clock⟩)
    (draws : Draws) :
    HalfOpenExpires ⟨(node.onTimer crypto heap event draws clock).2, rest, clock⟩ := by
  have spares : node.Spares (node.onTimer crypto heap event draws clock).2 := spares_onTimer lawful rfl
  intro keyId entry found
  obtain ⟨timer, member, kind, subject, due⟩ := expires keyId entry (spares.entries keyId entry found)
  rcases List.mem_append.mp member with timed | handed
  · refine ⟨timer, List.mem_append_left _ ?_, kind, subject, due⟩
    exact spares.timers keyId (AList.lookup_isSome.mp (by rw [found]; rfl)) timer timed kind subject
  · rcases List.mem_cons.mp handed with same | later
    · -- the timeout of the entry itself, which is gone with it
      subst same
      rw [onTimer_provisionalTimeout node kind subject, eraseProvisional, AList.lookup_erase] at found
      cases found
    · exact ⟨timer, List.mem_append_right _ later, kind, subject, due⟩

theorem HalfOpenExpires.call (lawful : heap.Lawful) {call : Call} (sound : running.Sound)
    (expires : running.HalfOpenExpires) (room : running.roomy call = true)
    (called : running.call crypto heap call = some after) : after.HalfOpenExpires := by
  cases call_spec called with
  | process draws => exact expires.process lawful draws
  | addPeer config =>
    refine expires.spared (Unmoved.spares ?_) (List.Subset.refl _)
    unfold addPeer
    split_ifs <;> exact ⟨rfl, rfl, fun _ => Iff.rfl⟩
  | start peer draws => exact expires.spared (startHandshake_dials lawful rfl).spares (List.Subset.refl _)
  | @datagram node _ source bytes draws now =>
    have ran := (Prod.eta (node.handleDatagram crypto heap source bytes draws now)).symm
    cases handleDatagram_receives lawful ran with
    | nothing unmoved => exact expires.spared unmoved.spares (List.Subset.refl _)
    | retried _ timers provisional => exact expires.spared (.of_subset timers provisional) (List.Subset.refl _)
    | answered entry enrols =>
      exact expires.enrols lawful (by simpa [roomy] using room) enrols (List.Subset.refl _)
    | completed peer completes => exact expires.spared (completes.spares lawful) (List.Subset.refl _)
  | forget peer => exact expires.spared (spares_forgetPeer lawful _ peer) (List.Subset.refl _)
  | promote => exact expires.spared (spares_tryPromoteProvisional lawful rfl) (List.Subset.refl _)
  | @expire node _ now =>
    have expired := TimerWheel.expire_spec lawful node.wheel now sound.heaped
    intro keyId entry found
    obtain ⟨event, member, names⟩ := expires keyId entry found
    have waiting : event ∈ node.wheel.timers := by simpa using member
    have moved := expired.perm.symm.subset waiting
    exact ⟨event, List.mem_append.mpr (List.mem_append.mp moved).symm, names⟩
  | aside allowed =>
    obtain ⟨wheel, -, provisional⟩ := Node.call_aside crypto heap _ allowed
    refine expires.spared (.of_subset ?_ provisional) (List.Subset.refl _)
    rw [wheel]
    exact List.Subset.refl _

theorem HalfOpenExpires.perform (lawful : heap.Lawful) {call : Call} (sound : running.Sound)
    (expires : running.HalfOpenExpires) (room : running.roomy call = true) :
    (running.perform crypto heap call).HalfOpenExpires := by
  rw [Running.perform]
  cases called : running.call crypto heap call with
  | none => exact expires
  | some after => exact expires.call lawful sound room called

/-- As long as every datagram finds a free place on the wheel, every provisional entry has a timeout that
removes it within kHandshakeTimeout. -/
theorem half_open_expires (lawful : heap.Lawful) (localStatic : KeyPair) (origin : Instant) (calls : List Call)
    (room : Throughout (perform crypto heap) (roomy · ·) ⟨create crypto localStatic, [], origin⟩ calls) :
    (calls.foldl (perform crypto heap) ⟨create crypto localStatic, [], origin⟩).HalfOpenExpires := by
  have start : HalfOpenExpires ⟨create crypto localStatic, [], origin⟩ := by
    intro keyId entry found
    cases found
  have both := Throughout.keeps
    (fun running call (held : running.Sound ∧ running.HalfOpenExpires) free =>
      ⟨held.1.perform lawful call, held.2.perform lawful held.1 free⟩)
    ⟨sound_create localStatic origin, start⟩ room
  exact both.2

def listening : Running := ⟨Node.create Crypto.plain (Crypto.plainPair 2), [], 0⟩

def initiate : Call := .datagram {} (Node.sampleInitiation 1) plainDraws 0

theorem half_open_expires_answered :
    let answered := [.addPeer callerPeer, initiate].foldl (perform plain sortingHeap) listening
    answered.node.plane.provisional.size = 1 ∧ answered.HalfOpenExpires :=
  ⟨by decide +kernel, half_open_expires sortingHeap_lawful (plainPair 2) 0 [.addPeer callerPeer, initiate]
    (by decide +kernel)⟩

/-! A responder that dials its peer over and over, until the wheel is full. -/

def dialablePeer : PeerConfig := { Node.callerPeer with endpoint := some {} }

def dialling : Node := ((Node.create Crypto.plain (Crypto.plainPair 2)).addPeer dialablePeer).2

def dialAgain : Call := .start 9 plainDraws 0

def tableAt (count : ℕ) : SessionTable := { nextKeyId := UInt16.ofNat (count + 1) }

/-- The node after `count` handshakes with its peer have been started. -/
def crowded (count : ℕ) (pending : AList fun _ : PeerId => Pending) (wheel : TimerWheel) : Node :=
  { dialling with plane := { dialling.plane with pending }, table := tableAt count, wheel }

structure Crowds (count : ℕ) (pending : AList fun _ : PeerId => Pending) (wheel : TimerWheel) : Prop where
  peers : ∀ entry ∈ pending.entries, entry.1 = 9
  keyIds : ∀ entry ∈ pending.entries, entry.2.localKeyId = UInt16.ofNat count
  single : pending.size ≤ 1
  length : wheel.timers.length = 2 * count
  kinds : ∀ event ∈ wheel.timers, event.kind ≠ .provisionalTimeout

theorem ofNat_ne (first second : ℕ) (differs : first ≠ second) (small : first < 65536) (small' : second < 65536) :
    UInt16.ofNat first ≠ UInt16.ofNat second := by
  intro same
  have value := congrArg UInt16.toNat same
  rw [UInt16.toNat_ofNat_of_lt' small, UInt16.toNat_ofNat_of_lt' small'] at value
  exact differs value

theorem tableAt_advances (small : count < 4097) : (tableAt count).advanceKeyId = tableAt (count + 1) := by
  have inside : UInt16.ofNat (count + 1) ≠ 0xFFFF := ofNat_ne (count + 1) 0xFFFF (by omega) (by omega) (by omega)
  rw [SessionTable.advanceKeyId, if_neg (by exact inside)]
  simp only [tableAt, UInt16.ofNat_add]
  rfl

theorem allocates {node : Node} (small : count < 4097) (table : node.table = tableAt count)
    (provisional : node.plane.provisional = ∅)
    (keyIds : ∀ entry ∈ node.plane.pending.entries, entry.2.localKeyId = UInt16.ofNat count) :
    node.allocateKeyId = (.ok (UInt16.ofNat (count + 1)), { node with table := tableAt (count + 1) }) := by
  have next : node.table.nextKeyId = UInt16.ofNat (count + 1) := by rw [table, tableAt]
  rw [allocateKeyId_next, next, table, tableAt_advances small]
  · rw [table, tableAt]
  · rw [next]
    exact ofNat_ne (count + 1) 0 (by omega) (by omega) (by omega)
  · rw [provisional]
    exact AList.notMem_empty _
  · intro entry member
    rw [keyIds entry member, next]
    exact ofNat_ne count (count + 1) (by omega) (by omega) (by omega)

theorem Crowds.start {pending : AList fun _ : PeerId => Pending} {wheel : TimerWheel}
    (crowds : Crowds count pending wheel) (room : 2 * count + 2 ≤ kMaximumTimers) :
    ∃ pending' wheel', ((crowded count pending wheel).startHandshake plain sortingHeap 9 plainDraws 0).2 =
        crowded (count + 1) pending' wheel' ∧ Crowds (count + 1) pending' wheel' := by
  have small : count < 4097 := by
    rw [kMaximumTimers] at room
    omega
  have found : (crowded count pending wheel).findPeer 9 = some dialablePeer := AList.lookup_insert _
  have allocated : (crowded count pending wheel).allocateKeyId = _ := allocates small rfl rfl crowds.keyIds
  obtain ⟨datagram, entry, initiated, keyId⟩ : ∃ datagram entry,
      (crowded (count + 1) pending wheel).initiation plain
        { peer := 9, localKeyId := UInt16.ofNat (count + 1), destination := {} } plainDraws 0 =
          .ok (datagram, entry) ∧
      entry.localKeyId = UInt16.ofNat (count + 1) := ⟨_, _, rfl, rfl⟩
  obtain ⟨after, due, started, timers⟩ := startHandshake_room sortingHeap_lawful found rfl
    (lt_of_le_of_lt crowds.single (by decide)) allocated initiated (by rw [← crowds.length] at room; exact room)
  have entries (other : Sigma fun _ : PeerId => Pending) (member : other ∈ (pending.put 9 entry).entries) :
      other = ⟨9, entry⟩ := by
    obtain ⟨peer, held⟩ := other
    rw [AList.mem_entries_iff, AList.lookup_put] at member
    split_ifs at member with same
    · rw [same, Option.some.inj member]
    · exact absurd (crowds.peers _ ((AList.mem_entries_iff _ _ _).mpr member)) same
  refine ⟨pending.put 9 entry, after, started, ?_, ?_, ?_, ?_, ?_⟩
  · intro other member
    rw [entries other member]
  · intro other member
    rw [entries other member]
    exact keyId
  · refine AList.size_put_le _ _ _ crowds.single ?_
    by_cases present : 9 ∈ pending
    · exact .inl present
    · have empty : pending.entries = [] := by
        refine List.eq_nil_iff_forall_not_mem.mpr fun other member => present ?_
        rw [← crowds.peers other member]
        exact List.mem_keys_of_mem member
      exact .inr (by rw [AList.size, empty]; decide)
  · rw [timers.length_eq]
    simp only [List.length_cons]
    have length := crowds.length
    change wheel.timers.length + 1 + 1 = _
    omega
  · intro event member
    rcases List.mem_cons.mp (timers.subset member) with rfl | rest
    · simp
    · rcases List.mem_cons.mp rest with rfl | old
      · simp [timeoutOf]
      · exact crowds.kinds event old

theorem replicate_crowds (count : ℕ) (room : 2 * count ≤ kMaximumTimers) :
    ∃ pending wheel, (List.replicate count dialAgain).foldl (perform plain sortingHeap) ⟨dialling, [], 0⟩ =
      ⟨crowded count pending wheel, [], 0⟩ ∧ Crowds count pending wheel := by
  induction count with
  | zero => exact ⟨∅, {}, rfl, by simp, by simp, by decide, rfl, by simp⟩
  | succ count ih =>
    obtain ⟨pending, wheel, reached, crowds⟩ := ih (by omega)
    obtain ⟨pending', wheel', started, crowds'⟩ := crowds.start (by omega)
    refine ⟨pending', wheel', ?_, crowds'⟩
    rw [List.replicate_succ', List.foldl_append, reached]
    simp only [List.foldl_cons, List.foldl_nil, perform, call, dialAgain, ne_eq, not_true_eq_false, lt_irrefl,
      or_self, if_false, Option.getD_some, started]

/-- How an initiation goes on from the key id allocated for it. -/
def goesOn {α : Type} (next : UInt16 → Node → Except ControlError α × Node) :
    Except ControlError UInt16 × Node → Except ControlError α × Node
  | (.error error, node) => (.error error, node)
  | (.ok localKeyId, node) => next localKeyId node

set_option maxRecDepth 100000 in
/-- The sample initiation is answered, whatever is pending and on the wheel. -/
theorem crowded_answers {pending : AList fun _ : PeerId => Pending} {wheel : TimerWheel}
    (crowds : Crowds 4096 pending wheel) :
    let after :=
      ((crowded 4096 pending wheel).handleDatagram plain sortingHeap {} (sampleInitiation 1) plainDraws 0).2
    (after.plane.provisional.lookup 4097).isSome = true ∧
      after.wheel = (wheel.schedule sortingHeap .provisionalTimeout 4097 kHandshakeTimeout).2 := by
  have allocated : ((crowded 4096 pending wheel).stamped 9 1 (tableAt 4096)).allocateKeyId = _ :=
    allocates (by decide) rfl rfl crowds.keyIds
  have handled : (crowded 4096 pending wheel).handleDatagram plain sortingHeap {} (sampleInitiation 1) plainDraws 0 =
      goesOn (fun localKeyId node => node.answer plain sortingHeap {} 9 dialablePeer _ _ localKeyId plainDraws 0)
        ((crowded 4096 pending wheel).stamped 9 1 (tableAt 4096)).allocateKeyId := rfl
  rw [handled, allocated]
  exact ⟨rfl, rfl⟩

/-- The wheel is full of the timers of handshakes that were started again and again: an initiation is answered,
and nothing removes what it has left. -/
theorem full_wheel_keeps_half_open :
    ¬ ((.addPeer dialablePeer :: List.replicate 4096 dialAgain ++ [initiate]).foldl
      (perform plain sortingHeap) listening).HalfOpenExpires := by
  obtain ⟨pending, wheel, reached, crowds⟩ := replicate_crowds 4096 (by decide)
  have added : perform plain sortingHeap listening (.addPeer dialablePeer) = ⟨dialling, [], 0⟩ := rfl
  have full : (Call.addPeer dialablePeer :: List.replicate 4096 dialAgain).foldl (perform plain sortingHeap)
      listening = ⟨crowded 4096 pending wheel, [], 0⟩ := by
    rw [List.foldl_cons, added, reached]
  rw [List.foldl_append, full]
  intro expires
  have answers := crowded_answers crowds
  rw [List.foldl_cons, List.foldl_nil] at expires
  simp only [perform, call, initiate, ne_eq, not_true_eq_false, lt_irrefl, or_self, if_false, Option.getD_some]
    at expires
  generalize ((crowded 4096 pending wheel).handleDatagram plain sortingHeap {} (sampleInitiation 1) plainDraws 0).2 =
    after at answers expires
  obtain ⟨enrols, timers⟩ := answers
  obtain ⟨entry, found⟩ := Option.isSome_iff_exists.mp enrols
  obtain ⟨event, member, kind, -⟩ := expires 4097 entry found
  have refused : (wheel.schedule sortingHeap .provisionalTimeout 4097 kHandshakeTimeout).2 = wheel := by
    rcases wheel.schedule_cases sortingHeap_lawful .provisionalTimeout 4097 kHandshakeTimeout with
      ⟨-, refused⟩ | ⟨room, -⟩
    · rw [refused]
    · rw [crowds.length] at room
      exact absurd room (by decide)
  rw [List.append_nil, timers, refused] at member
  exact crowds.kinds event member kind

end Running

end Norr
