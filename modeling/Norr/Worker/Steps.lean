import Norr.Worker.Outgoing

/-! Every operation of the Worker is a sequence of ledger steps, keeps the FEC streams sound and sends only
what the program emits. -/

namespace Norr

open Fec

theorem reserveCounter_error {session after : Session} {error : SessionError}
    (reserved : session.reserveCounter = (.error error, after)) : after = session := by
  unfold Session.reserveCounter at reserved
  split_ifs at reserved
  · cases reserved
    rfl
  · split at reserved
    · rename_i stopped
      cases reserved
      unfold PacketCounter.next at stopped
      split_ifs at stopped <;> cases stopped
      rfl
    · cases reserved

namespace Worker

variable {crypto : Crypto} {heap : HeapAlgorithms} {worker : Worker} {ref : SessionRef}

theorem accounts_moves {node : Node} (accounts : Account.Steps worker.node.account node.account)
    (wired : worker.node.table.Wired → node.table.Wired) : Moves crypto worker.view { worker with node }.view :=
  ⟨fun _ => accounts.ledger worker.ledger, fun _ kept => kept, fun kept => ⟨kept.sent, kept.queued⟩, wired⟩

theorem ran_moves {node : Node} {now : Instant} {answering : Prop} {sends : Bytes → Prop}
    {outgoing : List OutgoingHandshake} (ran : Node.Ran heap now answering sends worker.node outgoing node) :
    Moves crypto worker.view { worker with node }.view := accounts_moves ran.accounts ran.steps.wired

theorem sendAll_moves (worker : Worker) (carrier : Carrier) {batch : List OutboundDatagram}
    (emitted : ∀ datagram ∈ batch, Emitted crypto datagram.payload) :
    Moves crypto worker.view (worker.sendAll carrier batch).2.view :=
  .of_sent fun datagram member => emitted datagram (List.mem_of_mem_take member)

theorem outbound_emitted {destination : Endpoint} {payloads : List Bytes}
    (symbols : ∀ payload ∈ payloads, IsSymbol payload) :
    ∀ datagram ∈ outbound destination payloads, Emitted crypto datagram.payload := by
  intro datagram member
  obtain ⟨payload, inside, rfl⟩ := List.mem_map.mp member
  exact .symbol (symbols payload inside)

theorem single_emitted {destination : Endpoint} {payload : Bytes} (emitted : Emitted crypto payload) :
    ∀ datagram ∈ [OutboundDatagram.mk destination payload], Emitted crypto datagram.payload := by
  intro datagram member
  rwa [List.mem_singleton.mp member]

theorem updateSession_same {session : Session} (present : worker.node.table.get ref = some session) :
    (worker.updateSession ref fun _ => session) = worker := by
  obtain ⟨inside, rfl⟩ := List.getElem?_eq_some_iff.mp (present : worker.node.table.heap[ref]? = some session)
  rw [updateSession, SessionTable.update, ← List.set_eq_modify, List.set_getElem_self]

theorem update_same {session : Session} (present : worker.node.table.get ref = some session) :
    Moves crypto worker.view (worker.updateSession ref fun _ => session).view := by
  rw [updateSession_same present]
  exact .refl _

/-- A counter that is reserved and used at once. -/
theorem seal_moves {session after : Session} {counter : UInt64} (present : worker.node.table.get ref = some session)
    (reserved : session.reserveCounter = (.ok counter, after)) :
    Moves crypto worker.view ((worker.updateSession ref fun _ => after).noteSeal ref session counter).view := by
  have first : Ledger.Step crypto _ _ := .reserve worker.ledger ref session after counter present reserved
  have present : (worker.ledger.sessions.modify ref fun _ => after)[ref]? = some after := by
    rw [List.getElem?_modify, show worker.ledger.sessions[ref]? = some session from present]
    simp
  have second : Ledger.Step crypto _ _ := .spend { worker.ledger with
      sessions := worker.ledger.sessions.modify ref fun _ => after
      reserved := worker.ledger.reserved ++ [(ref, counter)] } ref after counter worker.ledger.reserved
    (List.perm_append_singleton _ _) present
  rw [show after.sendKey = session.sendKey from
    congrArg Prod.fst (Ledger.reserveCounter_alike reserved).1] at second
  exact .of_ledger (.tail (.single first) second)

section Sealing

variable {worker after : Worker} {ref : SessionRef} {session : Session} {type : FrameType} {plaintext wire : Bytes}
  {room : ℕ} {outcome : Except SessionError Bytes}

theorem sealWith_moves (present : worker.node.table.get ref = some session)
    (ran : worker.sealWith crypto ref session type plaintext room = (outcome, after)) :
    Moves crypto worker.view after.view := by
  unfold sealWith Session.seal Session.sealCounter at ran
  by_cases short : room < kPacketHeaderSize + plaintext.length + kAeadTagSize
  · simp only [if_pos short] at ran
    cases ran
    exact update_same present
  · simp only [if_neg short] at ran
    cases reserved : session.reserveCounter with
    | mk verdict changed =>
      rw [reserved] at ran
      cases verdict with
      | error error =>
        cases ran
        rw [reserveCounter_error reserved]
        exact update_same present
      | ok counter =>
        cases ran
        exact seal_moves present reserved

theorem sealWith_fecPeers (ran : worker.sealWith crypto ref session type plaintext room = (outcome, after)) :
    after.fecPeers = worker.fecPeers := by
  simp only [sealWith] at ran
  split at ran <;> cases ran <;> rfl

theorem sealWith_ok (ran : worker.sealWith crypto ref session type plaintext room = (.ok wire, after)) :
    ∃ changed counter, Session.sealReserved crypto changed type counter plaintext room = .ok wire := by
  have sealed : (session.seal crypto type plaintext room).1 = .ok wire := by
    simp only [sealWith] at ran
    split at ran
    · exact congrArg Prod.fst ran
    · exact congrArg Prod.fst ran
  exact ⟨_, Session.seal_ok (Prod.ext sealed rfl)⟩

theorem sealWith_emitted (own : type = .data ∨ type = .control)
    (ran : worker.sealWith crypto ref session type plaintext room = (.ok wire, after)) : Emitted crypto wire := by
  obtain ⟨changed, counter, sealed⟩ := sealWith_ok ran
  exact .packet changed type counter plaintext room own sealed

end Sealing

theorem sendControlCopies_moves (carrier : Carrier) (ref : SessionRef) (payload : Bytes) (copies : ℕ)
    (worker : Worker) :
    Moves crypto worker.view (sendControlCopies crypto carrier ref payload copies worker).view := by
  induction copies generalizing worker with
  | zero => exact .refl _
  | succ copies ih =>
    simp only [sendControlCopies]
    split
    · exact .refl _
    · rename_i session present
      split
      · exact .refl _
      · split
        · rename_i failed
          exact sealWith_moves present failed
        · rename_i done
          refine ((sealWith_moves present done).trans ?_).trans (ih _)
          exact sendAll_moves _ carrier (single_emitted (sealWith_emitted (.inr rfl) done))

theorem sendControl_moves (worker : Worker) (peer : PeerId) (payload : Bytes) (copies : ℕ)
    (carrier : Carrier) : Moves crypto worker.view (worker.sendControl crypto peer payload copies carrier).view := by
  unfold sendControl
  split
  · exact .refl _
  · exact sendControlCopies_moves carrier _ payload copies worker

theorem sendKeepalives_moves (env : Env) (worker : Worker) (peers : List PeerId) :
    Moves crypto worker.view (sendKeepalives crypto env worker peers).view :=
  .foldl view _ (fun _ _ => sendControl_moves _ _ _ _ _) peers worker

theorem answerEcho_moves (worker : Worker) (peer : PeerId) (token : Bytes) (env : Env) :
    Moves crypto worker.view (worker.answerEcho crypto peer token env).view := by
  unfold answerEcho
  split_ifs
  · exact .refl _
  · exact sendControl_moves _ _ _ _ _

theorem requestSession_moves (worker : Worker) (peer : PeerId) (env : Env) :
    Moves crypto worker.view (worker.requestSession crypto heap peer env).view := by
  unfold requestSession
  split_ifs
  · exact .refl _
  · exact .refl _
  · split
    · rename_i started
      have ran : Node.Ran heap env.now False _ _ _ _ := Node.startHandshake_ran started
      exact ran_moves ran
    · rename_i outgoing node started
      have ran : Node.Ran heap env.now False _ _ _ _ := Node.startHandshake_ran started
      refine (ran_moves ran).trans (sendAll_moves { worker with node } _ (single_emitted ?_))
      exact .handshake ⟨_, ran.frames outgoing List.mem_cons_self⟩

theorem fecIndex_moves (worker : Worker) (peer : PeerId) (destination : Endpoint) :
    Moves crypto worker.view (worker.fecIndex peer destination).2.view := by
  unfold fecIndex
  split
  · exact .refl _
  · rename_i absent
    refine .of_streams fun _ streams => ⟨?_, ?_⟩
    · intro entry member
      rcases List.mem_append.mp member with old | new
      · exact streams.sound entry old
      · rw [List.mem_singleton.mp new]
        exact Stream.sound_start _
    · rw [List.map_append, List.map_singleton, List.nodup_append]
      refine ⟨streams.single, List.nodup_singleton _, ?_⟩
      intro other member last equal same
      obtain ⟨entry, present, rfl⟩ := List.mem_map.mp member
      rw [List.mem_singleton.mp equal] at same
      simpa [same] using List.findIdx?_eq_none_iff.mp absent entry present

theorem fecFor_moves (worker : Worker) (peer : PeerId) (destination : Endpoint) :
    Moves crypto worker.view (worker.fecFor peer destination).2.view := by
  simp only [fecFor]
  split_ifs
  · exact .refl _
  · exact fecIndex_moves worker peer destination
  · exact fecIndex_moves worker peer destination

theorem fecFor_node (worker : Worker) (peer : PeerId) (destination : Endpoint) :
    (worker.fecFor peer destination).2.node = worker.node := by
  simp only [fecFor, fecIndex]
  split_ifs
  · rfl
  all_goals split <;> rfl

variable {destination : Endpoint} {after : Worker} {env : Env} {reason : DropReason} {session : Session}
  {packet plaintext : Bytes} {view : PacketView} {room : ℕ} {now : Instant}

theorem fecFor_active {worker : Worker} {peer : PeerId} {index : ℕ} {entry : FecPeer}
    (chosen : (worker.fecFor peer destination).1 = some index)
    (found : (worker.fecFor peer destination).2.fecPeers[index]? = some entry) :
    entry.encoder.plan.active = true := by
  simp only [fecFor] at chosen found
  split_ifs at chosen found with off active
  cases chosen
  rw [found] at active
  simpa using active

/-- The first of the reserved counters is used, and what is sealed joins the batch. -/
theorem flushJob_moves (now : Instant) {batch : List OutboundDatagram} (worker : Worker) (job : TransmitJob)
    (rest : List TransmitJob) (emitted : ∀ datagram ∈ batch, Emitted crypto datagram.payload) :
    Moves crypto { worker with transmitJobs := job :: rest }.view
        { (flushJob crypto now (batch, worker) job).2 with transmitJobs := rest }.view ∧
      ∀ datagram ∈ (flushJob crypto now (batch, worker) job).1, Emitted crypto datagram.payload := by
  simp only [flushJob]
  split
  · exact ⟨.of_ledger (.single (.burn _ _ _ (.refl _))), emitted⟩
  · rename_i session present
    have spent : Moves crypto { worker with transmitJobs := job :: rest }.view
        { worker.noteSeal job.session session job.counter with transmitJobs := rest }.view :=
      .of_ledger (.single (.spend _ job.session session job.counter _ (.refl _) present))
    split
    · exact ⟨spent, emitted⟩
    · rename_i sealed done
      have alone : ∀ datagram ∈ batch ++ outbound job.destination [sealed], Emitted crypto datagram.payload :=
        List.forall_mem_append.mpr ⟨emitted, single_emitted (.packet session _ _ _ _ (.inl rfl) done)⟩
      split
      · exact ⟨spent, alone⟩
      · split
        · exact ⟨spent, alone⟩
        · rename_i entry found
          split_ifs with inactive
          · exact ⟨spent, alone⟩
          · refine ⟨spent.trans (.of_streams fun sized streams => ?_), List.forall_mem_append.mpr ⟨emitted, ?_⟩⟩
            · refine streams.set found rfl fun sound => ?_
              exact FecPeer.frame_sound sound (by simpa using inactive)
                (Session.sealReserved_sendable sized done) _ _
            · exact outbound_emitted (FecPeer.frame_symbols entry sealed _ _)

theorem flushJobs_moves (now : Instant) (jobs : List TransmitJob) {batch : List OutboundDatagram} (worker : Worker)
    (emitted : ∀ datagram ∈ batch, Emitted crypto datagram.payload) :
    Moves crypto { worker with transmitJobs := jobs }.view
        { (jobs.foldl (flushJob crypto now) (batch, worker)).2 with transmitJobs := [] }.view ∧
      ∀ datagram ∈ (jobs.foldl (flushJob crypto now) (batch, worker)).1, Emitted crypto datagram.payload := by
  induction jobs generalizing batch worker with
  | nil => exact ⟨.refl _, emitted⟩
  | cons job jobs ih =>
    obtain ⟨first, further⟩ := flushJob_moves now worker job jobs emitted
    obtain ⟨moves, all⟩ := ih (flushJob crypto now (batch, worker) job).2 further
    exact ⟨first.trans moves, all⟩

theorem flushTransmit_moves (worker : Worker) (env : Env) :
    Moves crypto worker.view (worker.flushTransmit crypto env).2.view := by
  obtain ⟨flushed, emitted⟩ := @flushJobs_moves crypto env.now worker.transmitJobs [] worker nofun
  have sent := flushed.trans (sendAll_moves _ env.carrier emitted)
  simp only [flushTransmit]
  split_ifs
  · exact sent
  · exact sent

theorem stageTransmit_moves {worker : Worker} {ref : SessionRef} {plain : Bytes} {fec : Option ℕ}
    (ran : worker.stageTransmit crypto ref destination plain fec env = (reason, after)) :
    Moves crypto worker.view after.view := by
  have flushed : Moves crypto worker.view
      (if kDefaultBatchSize ≤ worker.transmitJobs.length then (worker.flushTransmit crypto env).2
        else worker).view := by
    split_ifs
    · exact flushTransmit_moves worker env
    · exact .refl _
  simp only [stageTransmit] at ran
  refine flushed.trans ?_
  generalize (if kDefaultBatchSize ≤ worker.transmitJobs.length then (worker.flushTransmit crypto env).2
    else worker) = current at ran ⊢
  split at ran
  · cases ran
    exact .refl _
  · rename_i session present
    split at ran
    · rename_i failed
      cases ran
      rw [reserveCounter_error failed]
      exact update_same present
    · rename_i counter changed reserved
      cases ran
      have step : Ledger.Step crypto _ _ :=
        .reserve current.ledger ref session changed counter present reserved
      refine .of_ledger (.single ?_)
      simp only [ledger, updateSession, List.map_append, List.map_singleton] at step ⊢
      exact step

/-- Draining hands over packets of the queues. -/
theorem drainLoop_moves (carrier : Carrier) (now : Instant) (fuel : ℕ) (worker : Worker) :
    Moves crypto worker.view (drainLoop carrier now fuel worker).2.view := by
  induction fuel generalizing worker with
  | zero => exact .refl _
  | succ fuel ih =>
    rw [drainLoop]
    split
    · exact .refl _
    · rcases worker.scheduler.dequeue_cases now with
        ⟨nothing, -⟩ | ⟨trafficClass, packet, rest, normal, bulk, front, taken⟩
      · rw [nothing]
        exact .refl _
      · rw [taken]
        dsimp only
        have behind {queues : TrafficClass → List QueuedPacket}
            (kept : ∀ other, ∀ each ∈ worker.scheduler.queues other, Emitted crypto each.bytes)
            (same : queues = Function.update worker.scheduler.queues trafficClass rest) :
            Emitted crypto packet.bytes ∧ ∀ other, ∀ each ∈ queues other, Emitted crypto each.bytes := by
          have whole := front ▸ kept trafficClass
          refine ⟨whole packet List.mem_cons_self, fun other each member => ?_⟩
          rw [same, Function.update_apply] at member
          split_ifs at member
          · exact whole each (List.mem_cons_of_mem _ member)
          · exact kept other each member
        split
        · refine .of_queues fun kept other each member => ?_
          obtain ⟨own, others⟩ := behind kept rfl
          simp only [Scheduler.restore, Scheduler.taken] at member
          rw [Function.update_apply] at member
          split_ifs at member
          · exact (List.mem_cons.mp member).elim (fun same => same ▸ own) (others _ each)
          · exact others other each member
        · have handed : Moves crypto worker.view ⟨worker.ledger, worker.node.table.sessions, worker.fecPeers,
              worker.outbox ++ List.take (carrier.takes [⟨packet.destination, packet.bytes⟩])
                [⟨packet.destination, packet.bytes⟩],
              Function.update worker.scheduler.queues trafficClass rest⟩ := by
            refine ⟨fun _ => .refl, fun _ kept => kept, fun kept => ?_, fun wired => wired⟩
            obtain ⟨own, others⟩ := behind kept.queued rfl
            exact ⟨List.forall_mem_append.mpr ⟨kept.sent, fun datagram member =>
              single_emitted own datagram (List.mem_of_mem_take member)⟩, others⟩
          split
          · rename_i after sent
            have same : after.view = _ := congrArg (·.2.view) sent.symm
            rw [same]
            exact handed
          · rename_i after sent
            have same : after.view = _ := congrArg (·.2.view) sent.symm
            have further := ih after
            rw [same] at further
            exact handed.trans further

theorem drainQueue_moves (worker : Worker) (carrier : Carrier) (now : Instant) :
    Moves crypto worker.view (worker.drainQueue carrier now).2.view := by
  unfold drainQueue
  split
  · exact .refl _
  · exact drainLoop_moves carrier now _ worker

theorem sendWire_moves {worker : Worker} {wire : Bytes} {trafficClass : TrafficClass}
    (emitted : Emitted crypto wire) (ran : worker.sendWire destination wire trafficClass env = (reason, after)) :
    Moves crypto worker.view after.view := by
  unfold sendWire at ran
  split at ran
  · have queued (scheduler : Scheduler) (accepted : Bool)
        (ran : worker.scheduler.enqueue wire trafficClass env.now destination = (accepted, scheduler)) :
        Moves crypto worker.view { worker with scheduler }.view := by
      refine .of_queues fun kept other each member => ?_
      have joined := worker.scheduler.enqueue_sublist ⟨wire, trafficClass, env.now, destination⟩ other
      rw [ran] at joined
      rcases List.mem_append.mp (joined.subset member) with old | new
      · exact kept other each old
      · rwa [List.mem_singleton.mp (List.mem_of_mem_filter new)]
    split at ran
    · rename_i refused
      cases ran
      exact queued _ _ refused
    · rename_i accepted
      cases ran
      exact (queued _ _ accepted).trans (drainQueue_moves _ env.carrier env.now)
  · have sent : Moves crypto worker.view _ := sendAll_moves
      (worker.note [.handed ⟨wire, trafficClass, env.now, destination⟩]) env.carrier
      (@single_emitted crypto destination wire emitted)
    split at ran <;> rename_i result <;> cases ran <;> rw [result] at sent <;> exact sent

theorem sendNow_moves {worker : Worker} {ref : SessionRef} {plain : Bytes} {fec : Option ℕ}
    {trafficClass : TrafficClass} (present : worker.node.table.get ref = some session)
    (active : ∀ index entry, fec = some index → worker.fecPeers[index]? = some entry →
      entry.encoder.plan.active = true)
    (ran : worker.sendNow crypto ref session destination plain fec trafficClass env = (reason, after)) :
    Moves crypto worker.view after.view := by
  simp only [sendNow] at ran
  split at ran
  · rename_i failed
    cases ran
    exact sealWith_moves present failed
  · rename_i failed
    cases ran
    exact sealWith_moves present failed
  · rename_i wire sealed done
    have sealing : Moves crypto worker.view sealed.view := sealWith_moves present done
    split at ran
    · have sent := sendWire_moves (sealWith_emitted (.inl rfl) done) ran
      exact sealing.trans sent
    · rename_i index entry chosen
      simp only [Option.bind_eq_some_iff, Option.map_eq_some_iff, Prod.mk.injEq] at chosen
      obtain ⟨index, own, entry, found, rfl, rfl⟩ := chosen
      have symbols := FecPeer.frame_symbols entry wire destination env.now
      have framing : Moves crypto worker.view
          { sealed with
            fecPeers := sealed.fecPeers.set index (FecPeer.frame entry wire destination env.now).2 }.view := by
        refine sealing.trans (.of_streams fun sized streams => streams.set found rfl fun sound => ?_)
        obtain ⟨changed, counter, sealedAs⟩ := sealWith_ok done
        exact FecPeer.frame_sound sound (active index entry own (sealWith_fecPeers done ▸ found))
          (Session.sealReserved_sendable sized sealedAs) destination env.now
      split at ran
      · rename_i framed alone
        have emitted : Emitted crypto framed := .symbol (symbols framed (alone ▸ List.mem_cons_self))
        have sent := sendWire_moves emitted ran
        exact framing.trans sent
      · have sent := sendAll_moves { sealed with
            fecPeers := sealed.fecPeers.set index (FecPeer.frame entry wire destination env.now).2 } env.carrier
          (@outbound_emitted crypto destination _ symbols)
        split at ran <;> rename_i result <;> cases ran <;> have same := congrArg (·.2.view) result <;>
          exact framing.trans (same ▸ sent)

theorem transmit_moves {worker : Worker} {ref : SessionRef} {parsed : IpPacketView} {frame : Bytes} {batch : Bool}
    (present : worker.node.table.get ref = some session)
    (ran : worker.transmit crypto ref session parsed frame batch env = (reason, after)) :
    Moves crypto worker.view after.view := by
  simp only [transmit] at ran
  split at ran
  · cases ran
    exact .refl _
  · rename_i destination _
    have chosen : Moves crypto worker.view _ := fecFor_moves worker session.peer destination
    split_ifs at ran
    · cases ran
      exact .refl _
    · exact chosen.trans (stageTransmit_moves ran)
    · refine chosen.trans (sendNow_moves ?_ (fun _ _ => fecFor_active) ran)
      rw [fecFor_node]
      exact present

theorem routeFromTun_moves (worker : Worker) (frame : Bytes) (batch : Bool) (env : Env) :
    Moves crypto worker.view (worker.routeFromTun crypto heap frame batch env).2.view := by
  simp only [routeFromTun]
  split
  · exact .refl _
  · split_ifs
    · exact .refl _
    · exact .refl _
    · split
      · exact requestSession_moves worker _ env
      · split
        · exact requestSession_moves worker _ env
        · rename_i present
          split_ifs
          · exact requestSession_moves worker _ env
          · exact transmit_moves present rfl

theorem forwardFromTun_moves (worker : Worker) (frame : Bytes) (env : Env) :
    Moves crypto worker.view (worker.forwardFromTun crypto heap frame env).2.view :=
  (routeFromTun_moves worker frame true env).trans (flushTransmit_moves _ env)

theorem pumpTunToUdp_moves (worker : Worker) (frames : List (Bytes × Env)) (env : Env) :
    Moves crypto worker.view (worker.pumpTunToUdp crypto heap frames env).2.view := by
  refine Moves.trans (Moves.foldl (fun state : ℕ × Worker => state.2.view) _ ?_ frames (0, worker))
    (flushTransmit_moves _ env)
  intro state frame
  have step : Moves crypto state.2.view (state.2.routeFromTun crypto heap frame.1 true frame.2).2.view :=
    routeFromTun_moves _ _ _ _
  split <;> rename_i ran <;> rw [ran] at step <;> exact step

theorem chaffSession_moves (length : ℕ) (env : Env) (state : ℕ × Worker) (ref : SessionRef) :
    Moves crypto state.2.view (chaffSession crypto length env state ref).2.view := by
  unfold chaffSession
  split
  · exact .refl _
  · rename_i present
    split
    · exact .refl _
    · split_ifs
      · exact .refl _
      · split
        · rename_i failed
          exact sealWith_moves present failed
        · rename_i done
          exact (sealWith_moves present done).trans
            (sendAll_moves _ env.carrier (single_emitted (sealWith_emitted (.inr rfl) done)))

theorem sendChaff_moves (worker : Worker) (env : Env) :
    Moves crypto worker.view (worker.sendChaff crypto env).2.view := by
  simp only [sendChaff]
  split_ifs
  · exact .refl _
  · split
    · exact .refl _
    · have chaffed (length : ℕ) : Moves crypto worker.view _ :=
        .foldl (fun state : ℕ × Worker => state.2.view) (chaffSession crypto length env)
          (chaffSession_moves length env) (worker.node.table.sessions.entries.map (·.2)) (0, worker)
      split_ifs
      · exact chaffed _
      · exact chaffed _

/-- Parity is sent, and then the stream of its peer is replaced by another. -/
theorem parity_moves (worker : Worker) {entry after : FecPeer} {index : ℕ} {parity : List Bytes} (carrier : Carrier)
    (found : worker.fecPeers[index]? = some entry) (symbols : ∀ symbol ∈ parity, IsSymbol symbol)
    (peer : after.peer = entry.peer) (sound : entry.toStream.Sound → after.toStream.Sound) :
    Moves crypto worker.view
      { worker.sendParity entry parity carrier with fecPeers := worker.fecPeers.set index after }.view :=
  (sendAll_moves worker carrier (outbound_emitted symbols)).trans
    (.of_streams fun _ streams => streams.set found peer sound)

theorem notePeerLoss_moves (worker : Worker) (peer : PeerId) (env : Env) :
    Moves crypto worker.view (worker.notePeerLoss peer env).view := by
  simp only [notePeerLoss]
  split_ifs
  · exact .refl _
  · split
    · rename_i index plan here decided
      split
      · exact .refl _
      · rename_i entry found
        refine parity_moves worker env.carrier found entry.encoder.flush_symbols rfl fun sound => ?_
        have replaced := sound.replace plan
        rwa [← entry.toStream.replace_encoder plan]
    · exact .refl _

theorem flushFecPeer_moves (env : Env) (worker : Worker) (index : ℕ) :
    Moves crypto worker.view (flushFecPeer env worker index).view := by
  simp only [flushFecPeer]
  split
  · exact .refl _
  · rename_i entry found
    split_ifs
    · exact .refl _
    · exact .refl _
    · refine parity_moves worker env.carrier found entry.encoder.flush_symbols rfl fun sound => ?_
      have coded : (entry.code .flush).Sound := sound.code (show FecStep.flush.Fits entry.encoder from trivial)
      have encoder : (entry.code .flush).encoder = entry.encoder.flush.1 := Stream.code_encoder entry.toStream .flush
      rwa [← encoder]

theorem flushFec_moves (worker : Worker) (env : Env) : Moves crypto worker.view (worker.flushFec env).view := by
  simp only [flushFec]
  split_ifs
  · exact .refl _
  · have flushed (indices : List ℕ) (fecSources : List FecSource) : Moves crypto worker.view _ :=
      .foldl view (flushFecPeer env) (flushFecPeer_moves env) indices { worker with fecSources }
    exact flushed _ _

theorem handleControl_moves (worker : Worker) (peer : PeerId) (payload : Bytes) (env : Env) :
    Moves crypto worker.view (worker.handleControl crypto peer payload env).view := by
  unfold handleControl
  split
  · exact .refl _
  · split_ifs
    · exact .refl _
    · exact answerEcho_moves _ _ _ _
    · exact notePeerLoss_moves _ _ _
    · exact .refl _

def deliveryOf (routes : RoutingTable) (ref : SessionRef) (session : Session) (packet : Bytes)
    (header : PacketHeader) (plaintext : Bytes) : Delivery :=
  ⟨ref, session.receiveKey, packet, header.counter, session.peer, header.type, plaintext, routes,
    if header.type = .control then none else (innerPacket routes session.peer plaintext).toOption⟩

theorem deliveryOf_genuine {routes : RoutingTable} {ref : SessionRef} (parsed : parsePacket packet = .ok view)
    (opened : crypto.open session.receiveKey view.header.counter (packet.take kPacketHeaderSize) view.payload room =
      .ok plaintext) :
    (deliveryOf routes ref session packet view.header plaintext).Genuine crypto :=
  ⟨⟨view, room, parsed, rfl, rfl, opened⟩, rfl⟩

theorem deliverOpened_moves (worker : Worker) (ref : SessionRef) (session : Session) (packet : Bytes)
    (header : PacketHeader) (plaintext : Bytes) (env : Env) :
    Moves crypto
      { worker with
        deliveries := worker.deliveries ++ [deliveryOf worker.routes ref session packet header plaintext] }.view
      (worker.deliverOpened crypto ref session packet header plaintext env).2.view := by
  simp only [deliverOpened, deliveryOf]
  by_cases control : header.type = .control
  · rw [if_pos control, if_pos control]
    exact handleControl_moves { worker with deliveries := worker.deliveries ++ [⟨ref, session.receiveKey,
      packet, header.counter, session.peer, header.type, plaintext, worker.routes, none⟩] } _ _ _
  · rw [if_neg control, if_neg control]
    cases innerPacket worker.routes session.peer plaintext with
    | error reason => exact .refl _
    | ok inner =>
      dsimp only
      split_ifs
      · exact .refl _
      · exact .refl _

theorem accept_moves {worker : Worker} {ref : SessionRef} {committed noted : Session} (env : Env)
    (present : worker.node.table.get ref = some session) (parsed : parsePacket packet = .ok view)
    (decrypted : session.decrypt crypto view packet room = .ok plaintext)
    (commits : session.commit view.header.counter now = (.ok (), committed)) (alike : noted.Alike committed)
    (metered : session.Metered → noted.Metered) :
    Moves crypto worker.view ((worker.updateSession ref fun _ => noted).deliverOpened crypto ref
      noted packet view.header plaintext env).2.view := by
  obtain ⟨keys, peer, -⟩ := Ledger.commit_alike commits
  have key : noted.receiveKey = session.receiveKey := congrArg Prod.snd (alike.keys.trans keys)
  have step : Ledger.Step crypto _ _ := .accept worker.ledger session committed noted now
    (deliveryOf worker.routes ref noted packet view.header plaintext) present commits alike metered key
    (alike.peer.trans peer) (deliveryOf_genuine parsed (by rw [key]; exact Session.decrypt_ok decrypted))
  exact (Moves.of_ledger (.single step)).trans
    (deliverOpened_moves (worker.updateSession ref fun _ => noted) ref noted packet view.header plaintext env)

theorem refuse_moves {worker : Worker} {ref : SessionRef} {after : Session} {counter : UInt64}
    {error : SessionError} (present : worker.node.table.get ref = some session)
    (refused : session.commit counter now = (.error error, after)) :
    Moves crypto worker.view (worker.updateSession ref fun _ => after).view :=
  .of_ledger (.single (.refuse worker.ledger ref session after counter now error present refused))

theorem Promoted.moves {worker : Worker} {node : Node} {entry : Provisional} (env : Env)
    (promoted : Node.Promoted crypto worker.node node view packet plaintext room entry session)
    (parsed : parsePacket packet = .ok view) :
    Moves crypto worker.view ({ worker with node }.deliverOpened crypto
      worker.node.table.heap.length session packet view.header plaintext env).2.view := by
  have step : Ledger.Step crypto _ _ := .promote worker.ledger view.header.keyId entry session
    (deliveryOf worker.routes worker.node.table.heap.length session packet view.header plaintext)
    promoted.held promoted.made promoted.recorded rfl rfl rfl
    (deliveryOf_genuine parsed promoted.opened)
  refine Moves.trans ?_ (deliverOpened_moves { worker with node } worker.node.table.heap.length session packet
    view.header plaintext env)
  refine ⟨fun _ => .single ?_, fun _ kept => kept, fun kept => ⟨kept.sent, kept.queued⟩, promoted.wired⟩
  simp only [Worker.view, ledger, promoted.released, promoted.completed, promoted.installed] at step ⊢
  exact step

theorem forwardSealed_moves {worker : Worker} {source : Endpoint} {datagram : Bytes} {recovered : Bool}
    (ran : worker.forwardSealed crypto heap source datagram recovered env = (reason, after)) :
    Moves crypto worker.view after.view := by
  simp only [forwardSealed] at ran
  split at ran
  · cases ran
    exact .refl _
  · rename_i view parsed
    split at ran
    · split at ran
      · rename_i failed
        cases ran
        exact accounts_moves (Node.tryPromoteProvisional_error failed) 
          (Node.tryPromoteProvisional_wired failed)
      · rename_i plaintext node opens
        obtain ⟨entry, session, promoted⟩ := Node.tryPromoteProvisional_ok opens
        -- the table finds the session that was just installed, if the entry has the key id it is kept under
        have whole (keyed : worker.ledger.Keyed) : Moves crypto worker.view after.view := by
          have reachable := promoted.reachable
          rw [keyed _ entry promoted.held] at reachable
          have present : node.table.get worker.node.table.heap.length = some session := by
            rw [SessionTable.get, promoted.installed]
            simp
          rw [reachable] at ran
          simp only [present] at ran
          have moves := Promoted.moves env promoted parsed
          rwa [ran] at moves
        have other : ∃ deliveries, Moves crypto { worker with node, deliveries }.view after.view := by
          split at ran
          · cases ran
            exact ⟨_, .refl _⟩
          · rename_i ref _
            split at ran
            · cases ran
              exact ⟨_, .refl _⟩
            · rename_i found _
              have moves :=
                @deliverOpened_moves crypto { worker with node } ref found datagram view.header plaintext env
              rw [ran] at moves
              exact ⟨_, moves⟩
        obtain ⟨deliveries, moves⟩ := other
        exact ⟨fun keyed => (whole keyed).ledger keyed, moves.streams,
          fun kept => moves.emits ⟨kept.sent, kept.queued⟩, fun wired => moves.wired (promoted.wired wired)⟩
    · split at ran
      · cases ran
        exact .refl _
      · rename_i session present
        split at ran
        · rename_i error changed opened
          cases ran
          rcases Session.open_error opened with same | refused
          · rw [same]
            exact update_same present
          · exact refuse_moves present refused
        · rename_i plaintext changed opened
          obtain ⟨decrypted, commits⟩ := Session.open_ok opened
          have alike : (if recovered = true then changed.noteRecovered
              else changed.noteAuthenticatedEndpoint source).Alike changed := by
            split_ifs <;> exact ⟨rfl, rfl, rfl, rfl, rfl⟩
          have metered (before : session.Metered) : (if recovered = true then changed.noteRecovered
              else changed.noteAuthenticatedEndpoint source).Metered := by
            split_ifs
            · exact (before.commit commits).2 rfl
            · exact (before.commit commits).1.of_meter rfl
          have moves := accept_moves env present parsed decrypted commits alike metered
          rwa [ran] at moves

theorem receiveSymbol_view {worker : Worker} {source : Endpoint} {header : FecSymbolHeader} {body : Bytes}
    {recovered : List Bytes} (ran : worker.receiveSymbol source header body now = (recovered, after)) :
    after.view = worker.view := by
  simp only [receiveSymbol] at ran
  split at ran <;> cases ran <;> rfl

theorem forwardRecovered_moves (source : Endpoint) (env : Env) (packets : List Bytes) (worker : Worker) :
    Moves crypto worker.view (forwardRecovered crypto heap source env packets worker).2.view := by
  induction packets generalizing worker with
  | nil => exact .refl _
  | cons packet packets ih => exact (forwardSealed_moves rfl).trans (ih _)

theorem forwardFromTransport_moves (worker : Worker) (source : Endpoint) (datagram : Bytes) (env : Env) :
    Moves crypto worker.view (worker.forwardFromTransport crypto heap source datagram env).2.view := by
  unfold forwardFromTransport
  split_ifs
  · split
    · exact .refl _
    · rename_i header _
      dsimp only
      cases decoded : worker.receiveSymbol source header (datagram.drop kFecHeaderSize) env.now with
      | mk recovered decoder =>
        rw [← receiveSymbol_view decoded]
        refine Moves.trans ?_ (forwardRecovered_moves source env recovered _)
        split_ifs
        · exact .refl _
        · exact forwardSealed_moves rfl
  · exact forwardSealed_moves rfl

theorem settleJob_moves (state : ℕ × Worker) (job : ReceiveJob) :
    Moves crypto state.2.view (settleJob crypto state job).2.view := by
  simp only [settleJob]
  split
  · exact .refl _
  · rename_i session present
    split
    · exact .refl _
    · rename_i plaintext decrypted
      split
      · rename_i refused
        exact refuse_moves present refused
      · rename_i committed commits
        exact accept_moves job.env present job.parsed decrypted commits ⟨rfl, rfl, rfl, rfl, rfl⟩
          fun metered => (metered.commit commits).1.of_meter rfl

theorem settleReceive_moves (worker : Worker) :
    Moves crypto worker.view (worker.settleReceive crypto).2.view :=
  .foldl (fun state : ℕ × Worker => state.2.view) (settleJob crypto) settleJob_moves worker.receiveJobs (0, worker)

theorem stageReceive_moves (worker : Worker) (source : Endpoint) (datagram : Bytes) (env : Env) :
    Moves crypto worker.view (worker.stageReceive crypto source datagram env).2.view := by
  have settled : Moves crypto worker.view
      (if kDefaultBatchSize ≤ worker.receiveJobs.length then (worker.settleReceive crypto).2
        else worker).view := by
    split_ifs
    · exact settleReceive_moves worker
    · exact .refl _
  unfold stageReceive
  split
  · exact .refl _
  · split
    · exact .refl _
    · dsimp only
      split
      · exact settled
      · split
        · exact settled
        · exact settled

theorem dispatchControl_moves (worker : Worker) (inbound : InboundDatagram) :
    Moves crypto worker.view (worker.dispatchControl crypto heap inbound).2.view := by
  simp only [dispatchControl]
  split_ifs
  · exact .refl _
  · rcases handled : worker.node.handleDatagram crypto heap inbound.source inbound.payload inbound.env.draws
      inbound.env.now with ⟨outcome, node⟩
    have ran := Node.handleDatagram_ran handled
    have moved : Moves crypto worker.view { worker with node := node.takeExpiredKeepalives.2 }.view :=
      (ran_moves ran : Moves crypto worker.view { worker with node }.view)
    refine Moves.trans ?_ (sendKeepalives_moves _ _ _)
    match outcome with
    | .error _ => exact moved
    | .ok none => exact moved
    | .ok (some reply) =>
      exact moved.trans (sendAll_moves _ inbound.env.carrier
        (single_emitted (.handshake (ran.frames reply List.mem_cons_self))))

theorem pumpSymbol_moves (worker : Worker) (inbound : InboundDatagram) (header : FecSymbolHeader) :
    Moves crypto worker.view (worker.pumpSymbol crypto heap inbound header).2.view := by
  simp only [pumpSymbol]
  cases decoded : worker.receiveSymbol inbound.source header (inbound.payload.drop kFecHeaderSize)
      inbound.env.now with
  | mk recovered decoder =>
    rw [← receiveSymbol_view decoded]
    have staging : Moves crypto decoder.view (if header.parity then (false, decoder)
        else decoder.stageReceive crypto inbound.source (inbound.payload.drop kFecHeaderSize)
          inbound.env).2.view := by
      split_ifs
      · exact .refl _
      · exact stageReceive_moves _ _ _ _
    generalize (if header.parity then (false, decoder)
      else decoder.stageReceive crypto inbound.source (inbound.payload.drop kFecHeaderSize)
        inbound.env) = staged at staging ⊢
    have settling : Moves crypto staged.2.view
        (if recovered = [] then (0, staged.2) else staged.2.settleReceive crypto).2.view := by
      split_ifs
      · exact .refl _
      · exact settleReceive_moves _
    generalize (if recovered = [] then (0, staged.2) else staged.2.settleReceive crypto) = settled at settling ⊢
    have forwarded := (staging.trans settling).trans
      (@forwardRecovered_moves crypto heap inbound.source inbound.env recovered _)
    split_ifs
    · exact forwarded
    · exact (forwarded.trans (settleReceive_moves _)).trans (forwardSealed_moves rfl)

theorem pumpForward_moves (worker : Worker) (inbound : InboundDatagram) :
    Moves crypto worker.view (worker.pumpForward crypto heap inbound).2.view :=
  (settleReceive_moves worker).trans (forwardFromTransport_moves _ _ _ _)

theorem pumpDatagram_moves (worker : Worker) (inbound : InboundDatagram) :
    Moves crypto worker.view (worker.pumpDatagram crypto heap inbound).2.view := by
  have dispatched : Moves crypto worker.view
      (worker.dispatchControl crypto heap inbound).2.view := dispatchControl_moves worker inbound
  unfold pumpDatagram
  split
  · rename_i filtered
    rwa [filtered] at dispatched
  · rename_i current passed
    rw [passed] at dispatched
    refine dispatched.trans ?_
    split_ifs
    · split
      · exact pumpSymbol_moves _ _ _
      · exact pumpForward_moves current inbound
    · have staged : Moves crypto current.view
          (current.stageReceive crypto inbound.source inbound.payload inbound.env).2.view :=
        stageReceive_moves _ _ _ _
      split
      · rename_i taken
        rwa [taken] at staged
      · rename_i left
        rw [left] at staged
        exact staged.trans (pumpForward_moves _ inbound)

theorem pumpUdpToTun_moves (worker : Worker) (batches : List (List InboundDatagram)) :
    Moves crypto worker.view (worker.pumpUdpToTun crypto heap batches).2.view := by
  refine Moves.foldl (fun state : ℕ × Worker => state.2.view) (pumpBatch crypto heap) ?_ batches (0, worker)
  intro state batch
  refine Moves.trans (Moves.foldl (fun state : ℕ × Worker => state.2.view) _ ?_ batch state) (settleReceive_moves _)
  exact fun state inbound => pumpDatagram_moves state.2 inbound

end Worker

end Norr
