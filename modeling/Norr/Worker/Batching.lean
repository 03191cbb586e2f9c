import Norr.Control.KeyIds
import Norr.Worker.Guarantees
import Norr.Worker.Settling

/-! The batched way in and the sequential one: pump_udp_to_tun against forward_from_transport. -/

namespace Norr

open Fec SessionTable

namespace Node

/-- The key id belongs to a session, or will once its first packet has come. -/
def Reaches (node : Node) (keyId : UInt16) : Prop :=
  keyId ∈ node.table.sessions ∨ keyId ∈ node.plane.provisional

/-- No key id becomes reachable. -/
def Admits (before after : Node) : Prop := ∀ keyId, after.Reaches keyId → before.Reaches keyId

namespace Admits

theorem trans {first second third : Node} (early : first.Admits second) (late : second.Admits third) :
    first.Admits third := fun keyId reached => early keyId (late keyId reached)

theorem of_same {before after : Node} (sessions : after.table.sessions = before.table.sessions)
    (provisional : ∀ keyId, keyId ∈ after.plane.provisional → keyId ∈ before.plane.provisional) :
    before.Admits after := by
  rintro keyId (known | waiting)
  · rw [sessions] at known
    exact .inl known
  · exact .inr (provisional keyId waiting)

theorem of_installs {before after : Node} {keyId : UInt16} {session : Session}
    (installs : before.table.Installs after.table keyId session) (held : keyId ∈ before.plane.provisional)
    (provisional : ∀ keyId, keyId ∈ after.plane.provisional → keyId ∈ before.plane.provisional) :
    before.Admits after := by
  rintro other (known | waiting)
  · obtain ⟨ref, found⟩ := (AList.mem_iff_lookup _ _).mp known
    rcases installs.entries other ref found with ⟨rfl, -⟩ | ⟨-, old⟩
    · exact .inr held
    · exact .inl ((AList.mem_iff_lookup _ _).mpr ⟨ref, old⟩)
  · exact .inr (provisional other waiting)

end Admits

variable {crypto : Crypto} {heap : HeapAlgorithms}

theorem tryPromoteProvisional_admits {node after : Node} {view : PacketView} {packet : Bytes} {room : ℕ}
    {source : Endpoint} {clock : Instant} {outcome : Except ControlError Bytes}
    (keyed : ∀ keyId entry, node.plane.provisional.lookup keyId = some entry → entry.localKeyId = keyId)
    (ran : node.tryPromoteProvisional crypto heap view packet room source clock = (outcome, after)) :
    node.Admits after := by
  have erased (keyId : UInt16) (waiting : keyId ∈ node.plane.provisional.erase view.header.keyId) :
      keyId ∈ node.plane.provisional := (AList.mem_erase.mp waiting).2
  rcases tryPromoteProvisional_cases ran with ⟨-, rfl | rfl⟩ | ⟨entry, -, _, ref, table, -, held, -, installed, rfl⟩
  · exact fun _ reached => reached
  · exact .of_same rfl erased
  · have installs := install_installs installed
    have waiting : entry.localKeyId ∈ node.plane.provisional := by
      rw [keyed _ entry held]
      exact (AList.mem_iff_lookup _ _).mpr ⟨entry, held⟩
    have first : node.Admits { node with table } := .of_installs installs waiting fun _ same => same
    exact first.trans (.of_same rfl erased)

end Node

namespace Worker

variable {crypto : Crypto} {heap : HeapAlgorithms}

/-- What holds of every reachable worker. -/
structure Wellformed (worker : Worker) : Prop where
  orderly : worker.ledger.Orderly
  wired : worker.node.table.Wired

variable {worker : Worker} {session : Session}

theorem Wellformed.moves {after : Worker} (wellformed : worker.Wellformed)
    (moves : Moves crypto worker.view after.view) : after.Wellformed :=
  ⟨wellformed.orderly.steps (moves.ledger wellformed.orderly.keyed), moves.wired wellformed.wired⟩

theorem Wellformed.present (wellformed : worker.Wellformed) {keyId : UInt16} {ref : SessionRef}
    (found : worker.node.table.findByKeyId keyId = some ref) :
    ∃ session, worker.node.table.get ref = some session :=
  ⟨_, List.getElem?_eq_getElem (wellformed.wired keyId ref found)⟩

/-- A counter that check_window refuses is refused by commit too, which then changes nothing. -/
theorem commit_of_checkWindow {counter : UInt64} {now : Instant} {error : SessionError}
    (blank : session.replay.Blank) (old : session.checkWindow counter = .error error) :
    session.commit counter now = (.error .tooOld, session) := by
  unfold Session.checkWindow at old
  split_ifs at old with behind
  have initialized : session.replay.initialized ≠ false := by
    intro fresh
    rw [blank fresh] at behind
    exact absurd (UInt64.lt_iff_toNat_lt.mp behind.1) (Nat.not_lt_zero _)
  have below : ¬ session.replay.highest < counter := UInt64.not_lt.mpr (UInt64.le_of_lt behind.1)
  rw [Session.commit, ReplayWindow.accept, if_neg initialized, if_neg below, if_pos behind.2]

/-- Settling a job at once is forwarding its datagram. -/
theorem settleJob_forwards (wellformed : worker.Wellformed) (job : ReceiveJob)
    (found : worker.node.table.findByKeyId job.view.header.keyId = some job.session) :
    (settleJob crypto (0, worker) job).2 =
      (worker.forwardSealed crypto heap job.source job.datagram false job.env).2 := by
  obtain ⟨session, present⟩ := wellformed.present found
  simp only [settleJob, forwardSealed, job.parsed, found, present, Session.open]
  cases checked : session.checkWindow job.view.header.counter with
  | error error =>
    have refused : session.commit job.view.header.counter job.env.now = (.error .tooOld, session) :=
      commit_of_checkWindow (wellformed.orderly.windows _ _ present) checked
    dsimp only
    rw [updateSession_same present]
    cases session.decrypt crypto job.view job.datagram kFrameBufferSize with
    | error => rfl
    | ok plaintext =>
      simp only [refused]
      exact updateSession_same present
  | ok =>
    dsimp only
    cases session.decrypt crypto job.view job.datagram kFrameBufferSize with
    | error => exact (updateSession_same present).symm
    | ok plaintext =>
      dsimp only
      rcases session.commit job.view.header.counter job.env.now with ⟨error | done, after⟩
      · rfl
      · rfl

theorem checkWindow_rises {later : Session} {counter : UInt64} {error : SessionError}
    (risen : session.replay.highest ≤ later.replay.highest) (old : session.checkWindow counter = .error error) :
    later.checkWindow counter = .error .tooOld := by
  unfold Session.checkWindow at old ⊢
  split_ifs at old with behind
  rw [if_pos]
  rw [UInt64.lt_iff_toNat_lt, UInt64.le_iff_toNat_le] at behind ⊢
  rw [UInt64.le_iff_toNat_le] at risen
  rw [UInt64.toNat_sub_of_le _ _ (UInt64.le_of_lt (UInt64.lt_iff_toNat_lt.mpr behind.1))] at behind
  rw [UInt64.toNat_sub_of_le _ _ (UInt64.le_iff_toNat_le.mpr (by omega))]
  omega

theorem Wellformed.settled (wellformed : worker.Wellformed) : (worker.settled crypto).Wellformed :=
  wellformed.moves (settleReceive_moves worker)

/-- stage_receive settles first when the jobs fill the batch. -/
def withRoom (crypto : Crypto) (worker : Worker) : Worker :=
  if kDefaultBatchSize ≤ worker.receiveJobs.length then worker.settled crypto else worker

theorem withRoom_settled (worker : Worker) : (worker.withRoom crypto).settled crypto = worker.settled crypto := by
  unfold withRoom
  split_ifs
  · exact settled_idle (settled_receiveJobs worker)
  · rfl

theorem Wellformed.withRoom (wellformed : worker.Wellformed) : (worker.withRoom crypto).Wellformed := by
  unfold Worker.withRoom
  split_ifs
  · exact wellformed.settled
  · exact wellformed

theorem withRoom_found (worker : Worker) (keyId : UInt16) :
    (worker.withRoom crypto).node.table.findByKeyId keyId = worker.node.table.findByKeyId keyId := by
  unfold withRoom
  split_ifs
  · exact congrArg (AList.lookup keyId) (settled_keeps worker).sessions
  · rfl

theorem settled_found (worker : Worker) (keyId : UInt16) :
    (worker.settled crypto).node.table.findByKeyId keyId = worker.node.table.findByKeyId keyId :=
  congrArg (AList.lookup keyId) (settled_keeps worker).sessions

/-- A staged datagram is settled as it would have been forwarded. -/
theorem stageReceive_true {after : Worker} {source : Endpoint} {datagram : Bytes} {env : Env}
    (wellformed : worker.Wellformed) (ran : worker.stageReceive crypto source datagram env = (true, after)) :
    after.settled crypto =
      ((worker.settled crypto).forwardSealed crypto heap source datagram false env).2 := by
  unfold stageReceive at ran
  split at ran
  · cases ran
  · rename_i view parsed
    split at ran
    · cases ran
    · rename_i ref found
      rw [← settled, ← withRoom] at ran
      dsimp only at ran
      split at ran
      · cases ran
      · rename_i session present
        split at ran
        · rename_i old
          cases ran
          -- the window has only risen since, so that the datagram is too old once more
          obtain ⟨later, stays, risen⟩ :=
            wellformed.withRoom.orderly.rises
              (settled_steps (worker.withRoom crypto) wellformed.withRoom.orderly.keyed) present
          rw [withRoom_settled] at stays ⊢
          have here : (worker.settled crypto).node.table.get ref = some later := stays
          simp only [forwardSealed, parsed, settled_found, found, here, Session.open,
            checkWindow_rises risen old, updateSession_same here]
        · cases ran
          rw [settled_stage, withRoom_settled]
          apply settleJob_forwards wellformed.settled
          rw [settled_found]
          exact found

/-- The session table has nothing to stage the datagram for. -/
def Unstaged (worker : Worker) (datagram : Bytes) : Prop :=
  ∀ view, parsePacket datagram = .ok view → worker.node.table.findByKeyId view.header.keyId = none

theorem stageReceive_false {after : Worker} {source : Endpoint} {datagram : Bytes} {env : Env}
    (wellformed : worker.Wellformed) (ran : worker.stageReceive crypto source datagram env = (false, after)) :
    after = worker ∧ worker.Unstaged datagram := by
  unfold stageReceive at ran
  split at ran
  · rename_i malformed
    cases ran
    refine ⟨rfl, fun view parsed => ?_⟩
    rw [malformed] at parsed
    cases parsed
  · rename_i view parsed
    split at ran
    · rename_i absent
      cases ran
      refine ⟨rfl, fun other same => ?_⟩
      rw [parsed] at same
      cases same
      exact absent
    · rename_i ref found
      rw [← settled, ← withRoom] at ran
      dsimp only at ran
      rw [← withRoom_found] at found
      obtain ⟨session, present⟩ := wellformed.withRoom.present found
      rw [present] at ran
      dsimp only at ran
      split at ran <;> cases ran

/-- Forwarding stages nothing and makes no key id reachable. -/
structure Admits (before after : Worker) : Prop where
  node : before.node.Admits after.node
  jobs : after.receiveJobs = before.receiveJobs

namespace Admits

theorem refl (worker : Worker) : worker.Admits worker := ⟨fun _ reached => reached, rfl⟩

theorem trans {first second third : Worker} (early : first.Admits second) (late : second.Admits third) :
    first.Admits third := ⟨early.node.trans late.node, late.jobs.trans early.jobs⟩

theorem of_keeps {before after : Worker} (keeps : before.Keeps after) : before.Admits after := by
  refine ⟨.of_same keeps.sessions fun keyId waiting => ?_, keeps.jobs⟩
  rw [keeps.plane] at waiting
  exact waiting

end Admits

theorem forwardSealed_admits {worker : Worker} (wellformed : worker.Wellformed) (source : Endpoint)
    (datagram : Bytes) (recovered : Bool) (env : Env) :
    worker.Admits (worker.forwardSealed crypto heap source datagram recovered env).2 := by
  unfold forwardSealed
  split
  · exact .refl worker
  · rename_i view _
    split
    · split
      · rename_i failed
        exact ⟨Node.tryPromoteProvisional_admits wellformed.orderly.keyed failed, rfl⟩
      · rename_i plaintext node promoted
        have admits : worker.Admits { worker with node } :=
          ⟨Node.tryPromoteProvisional_admits wellformed.orderly.keyed promoted, rfl⟩
        split
        · exact admits
        · split
          · exact admits
          · exact admits.trans (.of_keeps (Keeps.deliverOpened _ _ _ _ _ _ _))
    · split
      · exact .refl worker
      · split
        · exact .of_keeps (Keeps.updateSession worker _ _)
        · exact .of_keeps ((Keeps.updateSession worker _ _).trans (Keeps.deliverOpened _ _ _ _ _ _ _))

theorem Wellformed.forwardSealed {worker : Worker} (wellformed : worker.Wellformed) (source : Endpoint)
    (datagram : Bytes) (recovered : Bool) (env : Env) :
    (worker.forwardSealed crypto heap source datagram recovered env).2.Wellformed :=
  wellformed.moves (forwardSealed_moves rfl)

theorem forwardRecovered_admits {worker : Worker} (wellformed : worker.Wellformed) (source : Endpoint)
    (env : Env) (packets : List Bytes) :
    worker.Admits (forwardRecovered crypto heap source env packets worker).2 := by
  induction packets generalizing worker with
  | nil => exact .refl worker
  | cons packet packets ih =>
    exact (forwardSealed_admits wellformed source packet true env).trans
      (ih (wellformed.forwardSealed source packet true env))

/-- No session opens the datagram, and none will. -/
def Stray (worker : Worker) (datagram : Bytes) : Prop :=
  ∀ view, parsePacket datagram = .ok view → ¬ worker.node.Reaches view.header.keyId

variable {after : Worker} {datagram : Bytes} {inbound : InboundDatagram}

theorem Stray.admits {worker : Worker} (stray : worker.Stray datagram) (admits : worker.Admits after) :
    after.Stray datagram :=
  fun view parsed reached => stray view parsed (admits.node _ reached)

theorem Stray.forwardSealed {worker : Worker} (stray : worker.Stray datagram) (source : Endpoint) (recovered : Bool)
    (env : Env) : (worker.forwardSealed crypto heap source datagram recovered env).2 = worker := by
  cases parsed : parsePacket datagram with
  | error => simp only [Worker.forwardSealed, parsed]
  | ok view =>
    have unreached : ¬ worker.node.Reaches view.header.keyId := stray view parsed
    have unknown : worker.node.table.findByKeyId view.header.keyId = none :=
      AList.lookup_eq_none.mpr fun known => unreached (.inl known)
    have unheld : worker.node.plane.provisional.lookup view.header.keyId = none :=
      AList.lookup_eq_none.mpr fun waiting => unreached (.inr waiting)
    simp only [Worker.forwardSealed, parsed, unknown, Node.tryPromoteProvisional, unheld]

/-- The decoders do not see what is staged. -/
theorem receiveSymbol_settled (worker : Worker) (source : Endpoint) (header : FecSymbolHeader) (body : Bytes)
    (now : Instant) :
    (worker.settled crypto).receiveSymbol source header body now =
      ((worker.receiveSymbol source header body now).1,
        (worker.receiveSymbol source header body now).2.settled crypto) := by
  have renewed (sources : List FecSource) : { worker.settled crypto with fecSources := sources } =
      { worker with fecSources := sources }.settled crypto := by
    have idle : (worker.settled crypto).receiveJobs = [] := settled_receiveJobs worker
    rw [show { worker with fecSources := sources } = worker.rebase sources worker.receiveJobs from rfl,
      settled_rebase, ← idle]
    rfl
  unfold receiveSymbol
  rw [settled_fecSources]
  split
  · exact congrArg (Prod.mk _) (renewed _)
  · exact congrArg (Prod.mk _) (renewed _)

theorem stageReceive_wellformed {worker : Worker} {source : Endpoint} {env : Env} {staged : Bool}
    (wellformed : worker.Wellformed) (ran : worker.stageReceive crypto source datagram env = (staged, after)) :
    after.Wellformed := by
  have moves : Moves crypto worker.view _ := stageReceive_moves worker source datagram env
  rw [ran] at moves
  exact wellformed.moves moves

/-- The symbol recovers packets, and its own body has to wait for the sequential way, where it would
open a session: the packets recovered overtake it. -/
def Overtaken (worker : Worker) (inbound : InboundDatagram) : Prop :=
  ∃ header ∈ parseFecHeader inbound.payload, looksLikeFecSymbol inbound.payload ∧ header.parity = false ∧
    (worker.receiveSymbol inbound.source header (inbound.payload.drop kFecHeaderSize)
      inbound.env.now).1 ≠ [] ∧
    ∃ view ∈ (parsePacket (inbound.payload.drop kFecHeaderSize)).toOption,
      worker.node.table.findByKeyId view.header.keyId = none ∧
        view.header.keyId ∈ worker.node.plane.provisional

instance (worker : Worker) (inbound : InboundDatagram) : Decidable (worker.Overtaken inbound) :=
  inferInstanceAs (Decidable (∃ header ∈ parseFecHeader inbound.payload, _))

theorem stray_of_unstaged {worker : Worker} {header : FecSymbolHeader} (shaped : looksLikeFecSymbol inbound.payload)
    (parsed : parseFecHeader inbound.payload = some header) (data : header.parity = false)
    (calm : ¬ worker.Overtaken inbound)
    (recovers : (worker.receiveSymbol inbound.source header (inbound.payload.drop kFecHeaderSize)
      inbound.env.now).1 ≠ [])
    (unstaged : worker.Unstaged (inbound.payload.drop kFecHeaderSize)) :
    worker.Stray (inbound.payload.drop kFecHeaderSize) := by
  intro view read reached
  have unknown : worker.node.table.findByKeyId view.header.keyId = none := unstaged view read
  rcases reached with known | waiting
  · exact AList.lookup_eq_none.mp unknown known
  · refine calm ⟨header, parsed, shaped, data, recovers, view, ?_, unknown, waiting⟩
    rw [read]
    rfl

theorem receiveSymbol_node (worker : Worker) (source : Endpoint) (header : FecSymbolHeader) (body : Bytes)
    (now : Instant) : (worker.receiveSymbol source header body now).2.node = worker.node := by
  unfold receiveSymbol
  split <;> rfl

theorem settled_reaches (worker : Worker) (keyId : UInt16) :
    (worker.settled crypto).node.Reaches keyId ↔ worker.node.Reaches keyId := by
  rw [Node.Reaches, Node.Reaches, (settled_keeps worker).sessions, (settled_keeps worker).plane]

/-- `after` is the worker with what it has staged, `expected` what the sequential way leaves. -/
structure Follows (crypto : Crypto) (after expected : Worker) : Prop where
  settles : after.settled crypto = expected
  wellformed : after.Wellformed

theorem Follows.idle {worker : Worker} (wellformed : after.Wellformed)
    (admits : (worker.settled crypto).Admits after) : Follows crypto after after :=
  ⟨settled_idle (admits.jobs.trans (settled_receiveJobs worker)), wellformed⟩

/-- What follows the body of a symbol that was staged, or that is parity. -/
theorem recovered_follows {forwarded : Worker} (follows : Follows crypto after forwarded) (source : Endpoint)
    (env : Env) (recovered : List Bytes) :
    Follows crypto (forwardRecovered crypto heap source env recovered
        (if recovered = [] then (0, after) else after.settleReceive crypto).2).2
      (forwardRecovered crypto heap source env recovered forwarded).2 := by
  obtain ⟨rfl, wellformed⟩ := follows
  split_ifs with none
  · subst none
    exact ⟨rfl, wellformed⟩
  · exact .idle (wellformed.settled.moves (forwardRecovered_moves source env recovered _))
      (forwardRecovered_admits wellformed.settled source env recovered)

/-- A body that was not staged is forwarded after the packets recovered, and not before them: where
there are any, no session opens it. -/
theorem deferred_follows {worker : Worker} (wellformed : worker.Wellformed) (source : Endpoint) (env : Env)
    (recovered : List Bytes) (body : Bytes) (stray : recovered ≠ [] → (worker.settled crypto).Stray body) :
    Follows crypto
      ((((forwardRecovered crypto heap source env recovered
        (if recovered = [] then (0, worker) else worker.settleReceive crypto).2).2.settled
          crypto).forwardSealed crypto heap source body false env).2)
      (forwardRecovered crypto heap source env recovered
        ((worker.settled crypto).forwardSealed crypto heap source body false env).2).2 := by
  rw [(recovered_follows ⟨rfl, wellformed⟩ source env recovered).settles]
  have settled : (worker.settled crypto).Wellformed := wellformed.settled
  by_cases none : recovered = []
  · subst none
    exact .idle (settled.forwardSealed source body false env)
      (forwardSealed_admits settled source body false env)
  · have admits : (worker.settled crypto).Admits
        (forwardRecovered crypto heap source env recovered (worker.settled crypto)).2 :=
      forwardRecovered_admits settled source env recovered
    rw [(stray none).forwardSealed, ((stray none).admits admits).forwardSealed]
    exact .idle (settled.moves (forwardRecovered_moves source env recovered _)) admits

theorem pumpSymbol_follows {worker : Worker} (wellformed : worker.Wellformed) {header : FecSymbolHeader}
    (shaped : looksLikeFecSymbol inbound.payload) (parsed : parseFecHeader inbound.payload = some header)
    (calm : ¬ (worker.settled crypto).Overtaken inbound) :
    Follows crypto (worker.pumpSymbol crypto heap inbound header).2
      ((worker.settled crypto).forwardFromTransport crypto heap inbound.source inbound.payload
        inbound.env).2 := by
  cases received : worker.receiveSymbol inbound.source header (inbound.payload.drop kFecHeaderSize)
    inbound.env.now with
  | mk recovered decoded =>
    have node : decoded.node = worker.node := by
      rw [← receiveSymbol_node worker, received]
    have sound : decoded.Wellformed := by
      have moves : Moves crypto worker.view decoded.view := by
        rw [receiveSymbol_view received]
        exact .refl _
      exact wellformed.moves moves
    simp only [pumpSymbol, forwardFromTransport, shaped, parsed, if_true, receiveSymbol_settled, received]
    cases kind : header.parity with
    | true => exact recovered_follows ⟨rfl, sound⟩ inbound.source inbound.env recovered
    | false =>
      cases staging : decoded.stageReceive crypto inbound.source (inbound.payload.drop kFecHeaderSize)
        inbound.env with
      | mk staged after =>
        cases staged with
        | true =>
          exact recovered_follows ⟨stageReceive_true sound staging,
            stageReceive_wellformed sound staging⟩ inbound.source inbound.env recovered
        | false =>
          obtain ⟨rfl, unstaged⟩ := stageReceive_false sound staging
          apply deferred_follows sound inbound.source inbound.env recovered
          intro recovers
          have stray : (worker.settled crypto).Stray (inbound.payload.drop kFecHeaderSize) := by
            refine stray_of_unstaged shaped parsed kind calm ?_ fun view read => ?_
            · rw [receiveSymbol_settled, received]
              exact recovers
            · rw [settled_found, ← node]
              exact unstaged view read
          intro view read reached
          rw [settled_reaches, node, ← settled_reaches] at reached
          exact stray view read reached

theorem pumpForward_follows {worker : Worker} (wellformed : worker.Wellformed) (inbound : InboundDatagram)
    (plain : looksLikeFecSymbol inbound.payload = true → parseFecHeader inbound.payload = none) :
    Follows crypto (worker.pumpForward crypto heap inbound).2
      ((worker.settled crypto).forwardFromTransport crypto heap inbound.source inbound.payload
        inbound.env).2 := by
  have settled : (worker.settled crypto).Wellformed := wellformed.settled
  rw [show (worker.pumpForward crypto heap inbound).2 = ((worker.settled crypto).forwardFromTransport crypto
    heap inbound.source inbound.payload inbound.env).2 from rfl]
  unfold forwardFromTransport
  split_ifs with shaped
  · rw [plain shaped]
    exact .idle settled (.refl _)
  · exact .idle (settled.forwardSealed _ _ _ _) (forwardSealed_admits settled _ _ _ _)

theorem pumpDatagram_follows {worker : Worker} (wellformed : worker.Wellformed)
    (data : looksLikeHandshake inbound.payload = false) (calm : ¬ (worker.settled crypto).Overtaken inbound) :
    Follows crypto (worker.pumpDatagram crypto heap inbound).2
      ((worker.settled crypto).forwardFromTransport crypto heap inbound.source inbound.payload
        inbound.env).2 := by
  simp only [pumpDatagram, dispatchControl, data, if_true]
  split_ifs with shaped
  · split
    · rename_i header parsed
      exact pumpSymbol_follows wellformed shaped parsed calm
    · rename_i malformed
      exact pumpForward_follows wellformed inbound fun _ => malformed
  · cases staging : worker.stageReceive crypto inbound.source inbound.payload inbound.env with
    | mk staged after =>
      cases staged with
      | true =>
        refine ⟨?_, stageReceive_wellformed wellformed staging⟩
        rw [forwardFromTransport, if_neg shaped]
        exact stageReceive_true wellformed staging
      | false =>
        obtain ⟨rfl, -⟩ := stageReceive_false wellformed staging
        exact pumpForward_follows wellformed inbound fun fec => absurd fec shaped

variable (crypto heap)

/-- The datagrams one by one. -/
def forwardAll (worker : Worker) (datagrams : List InboundDatagram) : Worker :=
  datagrams.foldl (fun worker inbound =>
    (worker.forwardFromTransport crypto heap inbound.source inbound.payload inbound.env).2) worker

/-- No datagram of the sequential run is overtaken. -/
def Calm : Worker → List InboundDatagram → Prop
  | _, [] => True
  | worker, inbound :: rest =>
    ¬ worker.Overtaken inbound ∧ Calm
      (worker.forwardFromTransport crypto heap inbound.source inbound.payload inbound.env).2 rest

instance decidableCalm : (worker : Worker) → (datagrams : List InboundDatagram) →
    Decidable (Calm crypto heap worker datagrams)
  | _, [] => .isTrue trivial
  | worker, inbound :: rest =>
    haveI := decidableCalm
      (worker.forwardFromTransport crypto heap inbound.source inbound.payload inbound.env).2 rest
    inferInstanceAs (Decidable (_ ∧ _))

variable {crypto heap}

theorem calm_append {worker : Worker} {first second : List InboundDatagram} :
    Calm crypto heap worker (first ++ second) ↔
      Calm crypto heap worker first ∧ Calm crypto heap (worker.forwardAll crypto heap first) second := by
  induction first generalizing worker with
  | nil => simp [Calm, forwardAll]
  | cons inbound first ih =>
    rw [List.cons_append, Calm, Calm, ih, and_assoc]
    rfl

theorem pumpDatagrams_follow {worker : Worker} (wellformed : worker.Wellformed) (batch : List InboundDatagram)
    (delivered : ℕ) (data : ∀ inbound ∈ batch, looksLikeHandshake inbound.payload = false)
    (calm : Calm crypto heap (worker.settled crypto) batch) :
    Follows crypto (batch.foldl (fun (state : ℕ × Worker) inbound =>
        let (delivered, worker) := state.2.pumpDatagram crypto heap inbound
        (state.1 + delivered, worker)) (delivered, worker)).2
      ((worker.settled crypto).forwardAll crypto heap batch) := by
  induction batch generalizing worker delivered with
  | nil => exact ⟨rfl, wellformed⟩
  | cons inbound batch ih =>
    have follows : Follows crypto (worker.pumpDatagram crypto heap inbound).2 _ :=
      pumpDatagram_follows wellformed (data inbound List.mem_cons_self) calm.1
    have rest := calm.2
    rw [← follows.settles] at rest
    have later := ih follows.wellformed (delivered + (worker.pumpDatagram crypto heap inbound).1)
      (fun other member => data other (List.mem_cons_of_mem _ member)) rest
    rw [follows.settles] at later
    exact later

theorem pumpBatches_follow {worker : Worker} (wellformed : worker.Wellformed)
    (idle : worker.receiveJobs = []) (batches : List (List InboundDatagram)) (delivered : ℕ)
    (data : ∀ inbound ∈ batches.flatten, looksLikeHandshake inbound.payload = false)
    (calm : Calm crypto heap worker batches.flatten) :
    (batches.foldl (pumpBatch crypto heap) (delivered, worker)).2 =
      worker.forwardAll crypto heap batches.flatten := by
  induction batches generalizing worker delivered with
  | nil => rfl
  | cons batch batches ih =>
    rw [List.flatten_cons, calm_append] at calm
    rw [List.flatten_cons, List.forall_mem_append] at data
    have start : worker.settled crypto = worker := settled_idle idle
    have follows := pumpDatagrams_follow wellformed batch delivered data.1 (by rw [start]; exact calm.1)
    rw [start] at follows
    have batch_eq : (pumpBatch crypto heap (delivered, worker) batch).2 =
        worker.forwardAll crypto heap batch := follows.settles
    have sound : (pumpBatch crypto heap (delivered, worker) batch).2.Wellformed :=
      follows.wellformed.settled
    have later : (batches.foldl (pumpBatch crypto heap) (pumpBatch crypto heap (delivered, worker) batch)).2 =
        (pumpBatch crypto heap (delivered, worker) batch).2.forwardAll crypto heap batches.flatten :=
      ih sound (settled_receiveJobs _) (pumpBatch crypto heap (delivered, worker) batch).1 data.2
        (by rw [batch_eq]; exact calm.2)
    rw [List.foldl_cons, later, batch_eq, List.flatten_cons, forwardAll, forwardAll, forwardAll,
      List.foldl_append]

/-- Where no body is overtaken, receiving in batches is receiving the datagrams one by one: the same
packets are delivered in the same order, and the sessions, the decoders and the provisional entries are
the same. -/
theorem batched_receive_is_sequential {worker : Worker} (wellformed : worker.Wellformed)
    (idle : worker.receiveJobs = []) (batches : List (List InboundDatagram))
    (data : ∀ inbound ∈ batches.flatten, looksLikeHandshake inbound.payload = false)
    (calm : Calm crypto heap worker batches.flatten) :
    (worker.pumpUdpToTun crypto heap batches).2 = worker.forwardAll crypto heap batches.flatten :=
  pumpBatches_follow wellformed idle batches 0 data calm

theorem Reachable.wellformed {worker : Worker} (reachable : Reachable crypto heap worker) : worker.Wellformed := by
  obtain ⟨localStatic, calls, rfl⟩ := reachable
  have created : (create crypto localStatic).Wellformed :=
    ⟨⟨fun ref session found => by simp [create, Node.create, ledger] at found,
      fun keyId entry found => by simp [create, Node.create, ledger] at found⟩,
      fun keyId ref found => by cases found⟩
  exact created.moves (run_moves _ calls)

/-! Node 2 has answered, and waits for the first packet of node 1 on key id 1. -/

def sealedPacket (counter : UInt64) : Bytes :=
  headerBytes { version := kProtocolVersion, type := .data, flags := 0, keyId := 1, counter, payloadLength := 36 }
    36 ++ sampleFrame ++ List.replicate 16 0

/-- The symbols of a block of two packets. -/
def pairSymbols (first second : Bytes) : List Bytes :=
  let encoder := FecEncoder.configure {} { data := 2, parity := 1 }
  let (filling, _) := encoder.add first
  [serializeFecHeader (encoder.nextHeader first.length) ++ first,
    serializeFecHeader (filling.nextHeader second.length) ++ second] ++ (filling.add second).2

def inboundAll (payloads : List Bytes) : List InboundDatagram :=
  payloads.map fun payload => ⟨{}, payload, plainEnv⟩

/-- The first packet promotes the session, its copy is refused, and a symbol is staged. -/
def firstPackets : List (List InboundDatagram) :=
  [inboundAll [sealedPacket 0, sealedPacket 1, sealedPacket 1],
    inboundAll ((pairSymbols (sealedPacket 2) (sealedPacket 3)).take 1)]

theorem batched_receive_is_sequential_promoting :
    ((sample 2 answerCalls).forwardAll Crypto.plain sortingHeap firstPackets.flatten).deliveries.map
        Delivery.counter = [0, 1, 2] ∧
      ((sample 2 answerCalls).pumpUdpToTun Crypto.plain sortingHeap firstPackets).2 =
        (sample 2 answerCalls).forwardAll Crypto.plain sortingHeap firstPackets.flatten :=
  ⟨by decide +kernel, batched_receive_is_sequential (sample_reachable 2 answerCalls).wellformed (by decide +kernel)
    firstPackets (by decide +kernel) (by decide +kernel)⟩

/-- The parity of a block, then the second of its packets. -/
def lateFirst : List InboundDatagram :=
  inboundAll ((pairSymbols (sealedPacket 0) (sealedPacket 9000)).drop 1).reverse

/-- The first packet is recovered behind the second, whose counter has left it out of the window: one by
one only the second is delivered, but the batch forwards the packet recovered first and delivers both. -/
theorem overtaken_body_delivers_more : Reachable Crypto.plain sortingHeap (sample 2 answerCalls) ∧
    (∀ inbound ∈ lateFirst, looksLikeHandshake inbound.payload = false) ∧
    ((sample 2 answerCalls).pumpUdpToTun Crypto.plain sortingHeap [lateFirst]).2.deliveries.map
      (fun delivery => (delivery.peer, delivery.type, delivery.plaintext)) =
        [(9, .data, sampleFrame), (9, .data, sampleFrame)] ∧
    ((sample 2 answerCalls).forwardAll Crypto.plain sortingHeap lateFirst).deliveries.map
      (fun delivery => (delivery.peer, delivery.type, delivery.plaintext)) = [(9, .data, sampleFrame)] :=
  ⟨sample_reachable 2 answerCalls, by decide +kernel⟩

end Worker

end Norr
