import Norr.Worker.Guarantees

/-! Sending with queueing enabled: what Worker::route_from_tun and Worker::drain_queue hand to the carrier,
with the pacer's permission and in which order. -/

namespace Norr

open Fec Function
open Runs (Throughout)

namespace PacingEvent

def routedPacket : PacingEvent → Option QueuedPacket
  | .routed packet => some packet
  | _ => none

def handedPacket : PacingEvent → Option QueuedPacket
  | .handed packet => some packet
  | _ => none

end PacingEvent

/-- Every packet handed to the carrier directly follows its permission by the pacer. -/
def Paced (trace : List PacingEvent) : Prop :=
  ∀ before packet after, trace = before ++ .handed packet :: after → before.getLast? = some (.allowed packet)

def routedOf (trafficClass : TrafficClass) (trace : List PacingEvent) : List QueuedPacket :=
  Desk.ofClass trafficClass (trace.filterMap PacingEvent.routedPacket)

def handedOf (trafficClass : TrafficClass) (trace : List PacingEvent) : List QueuedPacket :=
  Desk.ofClass trafficClass (trace.filterMap PacingEvent.handedPacket)

theorem Paced.nil : Paced [] := by
  intro before packet after split
  simp at split

theorem Paced.concat {trace : List PacingEvent} (paced : Paced trace) {event : PacingEvent}
    (follows : ∀ packet, event = .handed packet → trace.getLast? = some (.allowed packet)) :
    Paced (trace ++ [event]) := by
  intro before packet after split
  rcases List.eq_nil_or_concat after with rfl | ⟨earlier, last, rfl⟩
  · obtain ⟨rfl, last⟩ := List.append_inj' split rfl
    exact follows packet (List.singleton_inj.mp last)
  · rw [List.concat_eq_append, ← List.cons_append, ← List.append_assoc] at split
    obtain ⟨rfl, -⟩ := List.append_inj' split rfl
    exact paced before packet earlier rfl

theorem handedOf_append (trafficClass : TrafficClass) (first second : List PacingEvent) :
    handedOf trafficClass (first ++ second) = handedOf trafficClass first ++ handedOf trafficClass second := by
  simp [handedOf, Desk.ofClass]

theorem routedOf_append (trafficClass : TrafficClass) (first second : List PacingEvent) :
    routedOf trafficClass (first ++ second) = routedOf trafficClass first ++ routedOf trafficClass second := by
  simp [routedOf, Desk.ofClass]

theorem Scheduler.totalDepth_taken (scheduler : Scheduler) {trafficClass : TrafficClass} {packet : QueuedPacket}
    {rest : List QueuedPacket} (front : scheduler.queues trafficClass = packet :: rest) (now : Instant) :
    (scheduler.taken trafficClass packet rest now).totalDepth + 1 = scheduler.totalDepth := by
  cases trafficClass <;> simp [totalDepth, depth, taken, front] <;> omega

namespace Fec.FecEncoder

/-- The next packet completes the block of its lane. -/
def closes (encoder : FecEncoder) : Bool :=
  encoder.plan.active && encoder.plan.data ≤ (encoder.lanes encoder.cursor).index + 1

theorem add_of_closes {encoder : FecEncoder} (unfilled : encoder.closes = false) (packet : Bytes) :
    (encoder.add packet).2 = [] := by
  simp only [add]
  split_ifs with skipped filled
  · rfl
  · have active : encoder.plan.active = true := by
      rw [not_or] at skipped
      simpa using skipped.1
    have room : (encoder.lanes encoder.cursor).index + 1 < encoder.plan.data := by
      simpa [closes, active] using unfilled
    exact absurd filled (not_le.mpr room)
  · rfl

/-- No mode has blocks of one packet. -/
theorem configure_closes (mode : FecMode) : (configure {} (planForMode mode)).closes = false := by
  cases mode <;> rfl

end Fec.FecEncoder

namespace Worker

variable {crypto : Crypto} {heap : HeapAlgorithms} {worker : Worker}

/-- With queueing enabled: what was handed out and what is queued, one after the other, are among the
packets routed, in their order. -/
structure Orderly (worker : Worker) : Prop where
  queueing : worker.queueingEnabled = true
  tagged : ∀ trafficClass, ∀ packet ∈ worker.scheduler.queues trafficClass, packet.trafficClass = trafficClass
  paced : Paced worker.trace
  order : ∀ trafficClass, (handedOf trafficClass worker.trace ++ worker.scheduler.queues trafficClass).Sublist
    (routedOf trafficClass worker.trace)

/-- The part of the state these results are about. -/
def sending (worker : Worker) : Bool × (TrafficClass → List QueuedPacket) × List PacingEvent :=
  (worker.queueingEnabled, worker.scheduler.queues, worker.trace)

theorem Orderly.of_sending (orderly : Orderly worker) {after : Worker} (same : after.sending = worker.sending) :
    Orderly after := by
  simp only [sending, Prod.mk.injEq] at same
  obtain ⟨queueing, queues, trace⟩ := same
  refine ⟨queueing.trans orderly.queueing, ?_, trace ▸ orderly.paced, ?_⟩
  · rw [queues]
    exact orderly.tagged
  · rw [queues, trace]
    exact orderly.order

/-- A packet is routed: the queues keep what they had, and at most the packet comes behind its own class. -/
theorem Orderly.route (orderly : Orderly worker) {after : Worker} (packet : QueuedPacket)
    (queueing : after.queueingEnabled = worker.queueingEnabled)
    (queues : ∀ trafficClass, (after.scheduler.queues trafficClass).Sublist
      (worker.scheduler.queues trafficClass ++ Desk.ofClass trafficClass [packet]))
    (trace : after.trace = worker.trace ++ [.routed packet]) : Orderly after := by
  refine ⟨queueing.trans orderly.queueing, ?_, ?_, ?_⟩
  · intro trafficClass each member
    rcases List.mem_append.mp ((queues trafficClass).subset member) with old | new
    · exact orderly.tagged trafficClass each old
    · simpa using List.of_mem_filter new
  · rw [trace]
    exact orderly.paced.concat (by simp)
  · intro trafficClass
    have handed : handedOf trafficClass after.trace = handedOf trafficClass worker.trace := by
      rw [trace, handedOf_append]
      exact List.append_nil _
    have routed : routedOf trafficClass after.trace =
        routedOf trafficClass worker.trace ++ Desk.ofClass trafficClass [packet] := by
      rw [trace, routedOf_append]
      rfl
    rw [handed, routed]
    refine ((queues trafficClass).append_left _).trans ?_
    rw [← List.append_assoc]
    exact (orderly.order trafficClass).append_right _

/-- The front packet of a class is handed out with the pacer's permission. -/
theorem Orderly.hand (orderly : Orderly worker) {after : Worker} {trafficClass : TrafficClass}
    {packet : QueuedPacket} {rest : List QueuedPacket}
    (front : worker.scheduler.queues trafficClass = packet :: rest)
    (queueing : after.queueingEnabled = worker.queueingEnabled)
    (queues : after.scheduler.queues = update worker.scheduler.queues trafficClass rest)
    (trace : after.trace = worker.trace ++ [.allowed packet, .handed packet]) : Orderly after := by
  have tagged : ∀ each ∈ packet :: rest, each.trafficClass = trafficClass := front ▸ orderly.tagged trafficClass
  have own : packet.trafficClass = trafficClass := tagged packet List.mem_cons_self
  refine ⟨queueing.trans orderly.queueing, ?_, ?_, ?_⟩
  · rw [queues]
    exact Desk.tagged_update orderly.tagged fun each member => tagged each (List.mem_cons_of_mem _ member)
  · have asked : Paced (worker.trace ++ [.allowed packet]) := orderly.paced.concat (by simp)
    have given : Paced (worker.trace ++ [.allowed packet] ++ [.handed packet]) := asked.concat (by simp)
    rw [trace]
    rwa [List.append_assoc] at given
  · intro other
    have handed : handedOf other after.trace = handedOf other worker.trace ++ Desk.ofClass other [packet] := by
      rw [trace, handedOf_append]
      rfl
    have routed : routedOf other after.trace = routedOf other worker.trace := by
      rw [trace, routedOf_append]
      exact List.append_nil _
    rw [handed, routed, queues]
    have order := orderly.order other
    by_cases same : other = trafficClass
    · subst same
      simpa [Desk.ofClass, own, front] using order
    · simpa [Desk.ofClass, own, same, Ne.symm same] using order

/-- The depth of the queues is fuel enough: more of it changes nothing. -/
theorem drainLoop_fuel (carrier : Carrier) (now : Instant) (fuel : ℕ)
    (enough : worker.scheduler.totalDepth ≤ fuel) :
    Worker.drainLoop carrier now (fuel + 1) worker = Worker.drainLoop carrier now fuel worker := by
  induction fuel generalizing worker with
  | zero =>
    have empty : worker.scheduler.empty = true := by simpa [Scheduler.empty] using enough
    simp only [drainLoop, empty, if_true]
  | succ fuel ih =>
    unfold drainLoop
    rcases worker.scheduler.dequeue_cases now with
      ⟨nothing, -⟩ | ⟨trafficClass, packet, rest, normal, bulk, front, taken⟩
    · rw [nothing]
    · rw [taken]
      let served := { worker.scheduler with normalDeficit := normal, bulkDeficit := bulk }
      have fewer : (served.taken trafficClass packet rest now).totalDepth + 1 = worker.scheduler.totalDepth :=
        served.totalDepth_taken front now
      have further (after : Worker) (same : after.scheduler = served.taken trafficClass packet rest now) :
          drainLoop carrier now (fuel + 1) after = drainLoop carrier now fuel after := by
        refine ih ?_
        rw [same]
        omega
      split
      next => rfl
      next =>
        dsimp only
        split
        next => rfl
        next =>
          split
          next => rfl
          next after sent => rw [further after (congrArg (·.2.scheduler) sent).symm]

theorem Orderly.drainLoop (orderly : Orderly worker) (carrier : Carrier) (now : Instant) (fuel : ℕ) :
    Orderly (Worker.drainLoop carrier now fuel worker).2 := by
  induction fuel generalizing worker with
  | zero => exact orderly
  | succ fuel ih =>
    rw [Worker.drainLoop]
    split
    next => exact orderly
    next =>
      rcases worker.scheduler.dequeue_cases now with
        ⟨nothing, -⟩ | ⟨trafficClass, packet, rest, normal, bulk, front, taken⟩
      · rw [nothing]
        exact orderly
      · rw [taken]
        dsimp only
        split
        next pacer _ =>
          -- the pacer says no: the packet goes back to where it was
          have own : packet.trafficClass = trafficClass :=
            orderly.tagged trafficClass packet (by rw [front]; exact List.mem_cons_self)
          refine orderly.of_sending ?_
          simp [sending, Scheduler.restore, Scheduler.taken, own, ← front]
        next pacer _ =>
          have handed : Orderly ({ worker with
              scheduler := { worker.scheduler with normalDeficit := normal, bulkDeficit := bulk }.taken
                trafficClass packet rest now
              pacer }.note [.allowed packet, .handed packet]) := orderly.hand front rfl rfl rfl
          split
          next after failed => exact handed.of_sending (congrArg (·.2.sending) failed).symm
          next after sent => exact ih (handed.of_sending (congrArg (·.2.sending) sent).symm)

theorem Orderly.drainQueue (orderly : Orderly worker) (carrier : Carrier) (now : Instant) :
    Orderly (worker.drainQueue carrier now).2 := by
  rw [Worker.drainQueue, if_neg (by simp [orderly.queueing])]
  exact orderly.drainLoop carrier now _

/-- A packet that does not close a FEC block takes the way through the queue. -/
theorem Orderly.sendWire (orderly : Orderly worker) (destination : Endpoint) (wire : Bytes)
    (trafficClass : TrafficClass) (env : Env) :
    Orderly ((worker.note [.routed ⟨wire, trafficClass, env.now, destination⟩]).sendWire destination wire
      trafficClass env).2 := by
  have queues := worker.scheduler.enqueue_sublist ⟨wire, trafficClass, env.now, destination⟩
  rw [Worker.sendWire, if_pos (show (worker.note _).queueingEnabled = true from orderly.queueing)]
  split
  next scheduler refused =>
    have result : worker.scheduler.enqueue wire trafficClass env.now destination = (false, scheduler) := refused
    rw [result] at queues
    exact orderly.route ⟨wire, trafficClass, env.now, destination⟩ rfl queues rfl
  next scheduler accepted =>
    have result : worker.scheduler.enqueue wire trafficClass env.now destination = (true, scheduler) := accepted
    rw [result] at queues
    have queued : Orderly { worker.note [.routed ⟨wire, trafficClass, env.now, destination⟩] with scheduler } :=
      orderly.route ⟨wire, trafficClass, env.now, destination⟩ rfl queues rfl
    exact (queued.drainQueue env.carrier env.now).of_sending rfl

theorem sealWith_sending (worker : Worker) (crypto : Crypto) (ref : SessionRef) (session : Session)
    (type : FrameType) (plaintext : Bytes) (room : ℕ) :
    (worker.sealWith crypto ref session type plaintext room).2.sending = worker.sending := by
  simp only [sealWith]
  split <;> rfl

theorem requestSession_sending (peer : PeerId) (env : Env) :
    (worker.requestSession crypto heap peer env).sending = worker.sending := by
  simp only [requestSession]
  split_ifs
  · rfl
  · rfl
  · split <;> rfl

theorem fecFor_sending (peer : PeerId) (destination : Endpoint) :
    (worker.fecFor peer destination).2.sending = worker.sending := by
  simp only [fecFor, fecIndex]
  split_ifs
  · rfl
  all_goals split <;> rfl

theorem fecPeer_of_fecFor {peer : PeerId} {destination : Endpoint} {index : ℕ} {entry : FecPeer}
    (chosen : (worker.fecFor peer destination).1 = some index)
    (present : (worker.fecFor peer destination).2.fecPeers[index]? = some entry) :
    worker.fecMode ≠ .off ∧ (worker.fecPeers.find? (·.peer = peer) = some entry ∨
      ∃ mode, entry.encoder = FecEncoder.configure {} (planForMode mode)) := by
  simp only [fecFor] at chosen present
  split_ifs at chosen present with off active
  refine ⟨off, ?_⟩
  have same : (worker.fecIndex peer destination).1 = index := Option.some.inj chosen
  subst same
  simp only [fecIndex] at present
  split at present
  next index found =>
    refine .inl ?_
    obtain ⟨inside, same, first⟩ := List.findIdx?_eq_some_iff_getElem.mp found
    rw [List.find?_eq_some_iff_getElem]
    rw [List.getElem?_eq_getElem inside, Option.some.injEq] at present
    subst present
    exact ⟨same, index, inside, rfl, fun earlier before => by simpa using first earlier before⟩
  next absent =>
    rw [List.getElem?_concat_length, Option.some.injEq] at present
    subst present
    exact .inr ⟨_, rfl⟩

/-- A packet routed without closing a block joins the queue. -/
theorem Orderly.sendNow (orderly : Orderly worker) (ref : SessionRef) (session : Session) (destination : Endpoint)
    (plain : Bytes) (fec : Option ℕ) (trafficClass : TrafficClass) (env : Env)
    (unfilled : ∀ index entry, fec = some index → worker.fecPeers[index]? = some entry →
      entry.encoder.closes = false) :
    Orderly (worker.sendNow crypto ref session destination plain fec trafficClass env).2 := by
  have kept (outcome : Except SessionError Bytes) (after : Worker)
      (done : worker.sealWith crypto ref session .data plain kEncryptBufferSize = (outcome, after)) :
      Orderly after ∧ after.fecPeers = worker.fecPeers := by
    have sending := sealWith_sending worker crypto ref session .data plain kEncryptBufferSize
    rw [done] at sending
    exact ⟨orderly.of_sending sending, sealWith_fecPeers done⟩
  simp only [Worker.sendNow]
  split
  next after failed => exact (kept _ after failed).1
  next after _ failed => exact (kept _ after failed).1
  next wire after done =>
    obtain ⟨orderly, peers⟩ := kept _ after done
    split
    next => exact orderly.sendWire destination wire trafficClass env
    next index entry chosen =>
      -- the block stays open, so the packet is alone
      simp only [Option.bind_eq_some_iff, Option.map_eq_some_iff, Prod.mk.injEq] at chosen
      obtain ⟨index, own, entry, present, rfl, rfl⟩ := chosen
      rw [peers] at present
      have alone : (entry.encoder.add wire).2 = [] :=
        FecEncoder.add_of_closes (unfilled index entry own present) wire
      simp only [FecPeer.frame, alone]
      have framing (fecPeers : List FecPeer) : Orderly { after with fecPeers } := orderly.of_sending rfl
      exact (framing _).sendWire destination (FecPeer.framed entry wire) trafficClass env

/-- Worker::route_from_tun gives the frame to a block that it completes. -/
def closesBlock (worker : Worker) (frame : Bytes) : Bool :=
  match parseIpPacket frame with
  | .error _ => false
  | .ok parsed =>
    match (worker.node.table.findByPeer (worker.routes.classify parsed kNoPeer).peer).bind
      worker.node.table.get with
    | none => false
    | some session =>
      worker.fecMode ≠ .off && (worker.fecPeers.find? (·.peer = session.peer)).any (·.encoder.closes)

theorem Orderly.transmit (orderly : Orderly worker) (ref : SessionRef) (session : Session) (parsed : IpPacketView)
    (frame : Bytes) (batch : Bool) (env : Env)
    (unfilled : worker.fecMode ≠ .off →
      (worker.fecPeers.find? (·.peer = session.peer)).any (·.encoder.closes) = false) :
    Orderly (worker.transmit crypto ref session parsed frame batch env).2 := by
  simp only [Worker.transmit]
  split
  next => exact orderly
  next destination _ =>
    have prepared : Orderly (worker.fecFor session.peer destination).2 :=
      orderly.of_sending (fecFor_sending _ _)
    split_ifs with oversized batched
    · exact orderly
    · simp [prepared.queueing] at batched
    · refine prepared.sendNow ref session destination _ _ _ env fun index entry chosen present => ?_
      obtain ⟨coded, found | ⟨mode, fresh⟩⟩ := fecPeer_of_fecFor chosen present
      · simpa [found] using unfilled coded
      · rw [fresh]
        exact FecEncoder.configure_closes mode

theorem Orderly.routeFromTun (orderly : Orderly worker) (frame : Bytes) (batch : Bool) (env : Env)
    (unfilled : worker.closesBlock frame = false) :
    Orderly (worker.routeFromTun crypto heap frame batch env).2 := by
  have asked (peer : PeerId) : Orderly (worker.requestSession crypto heap peer env) :=
    orderly.of_sending (requestSession_sending peer env)
  simp only [Worker.routeFromTun]
  split
  next => exact orderly
  next parsed packet =>
    split_ifs
    · exact orderly
    · exact orderly
    · split
      next => exact asked _
      next ref found =>
        split
        next => exact asked _
        next session present =>
          split_ifs
          · exact asked _
          · refine orderly.transmit ref session parsed frame batch env ?_
            simpa [closesBlock, packet, found, present] using unfilled

/-- The calls of the sending side: frames from the TUN device, and the queue drained. -/
def Call.sends : Call → Bool
  | .routeFromTun .. | .drainQueue _ => true
  | _ => false

/-- No frame is routed into a block which it completes. -/
def keepsBlocksOpen (worker : Worker) : Call → Bool
  | .routeFromTun frame _ _ => !worker.closesBlock frame
  | _ => true

theorem Orderly.call (orderly : Orderly worker) {call : Call} (sends : call.sends = true)
    (unfilled : worker.keepsBlocksOpen call = true) : Orderly (worker.call crypto heap call) := by
  cases call with
  | routeFromTun frame batch env =>
    exact orderly.routeFromTun frame batch env (by simpa [keepsBlocksOpen] using unfilled)
  | drainQueue env => exact orderly.drainQueue env.carrier env.now
  | _ => simp [Call.sends] at sends

theorem Orderly.run {calls : List Call} (orderly : Orderly worker) (sends : ∀ call ∈ calls, call.sends = true)
    (unfilled : Throughout (Worker.call crypto heap) (keepsBlocksOpen · ·) worker calls) :
    Orderly (worker.run crypto heap calls) := by
  induction calls generalizing worker with
  | nil => exact orderly
  | cons call calls ih =>
    have first : Orderly (worker.call crypto heap call) := orderly.call (sends call List.mem_cons_self) unfilled.1
    exact ih first (fun later member => sends later (List.mem_cons_of_mem _ member)) unfilled.2

/-- As long as no packet closes a FEC block, every packet handed to the carrier has the pacer's permission,
and each class is handed out in the order in which it was routed. -/
theorem sends_paced_in_order (worker : Worker) (queueing : worker.queueingEnabled = true)
    (idle : ∀ trafficClass, worker.scheduler.queues trafficClass = []) (begins : worker.trace = [])
    (calls : List Call) (sends : ∀ call ∈ calls, call.sends = true)
    (unfilled : Throughout (Worker.call crypto heap) (keepsBlocksOpen · ·) worker calls) :
    Paced (worker.run crypto heap calls).trace ∧
      ∀ trafficClass, (handedOf trafficClass (worker.run crypto heap calls).trace).Sublist
        (routedOf trafficClass (worker.run crypto heap calls).trace) := by
  have start : Orderly worker := by
    refine ⟨queueing, ?_, begins ▸ Paced.nil, ?_⟩
    · simp [idle]
    · simp [idle, begins, handedOf, Desk.ofClass]
  have final := start.run sends unfilled
  exact ⟨final.paced, fun trafficClass => (List.sublist_append_left _ _).trans (final.order trafficClass)⟩

/-! A sender with FEC in blocks of eight and a pacer that lets 1500 bytes through at once, one byte a second
after that. -/

/-- An IPv4 packet of 200 bytes. -/
def bulkyFrame : Bytes := [0x45, 0, 0, 200] ++ sampleFrame.drop 4 ++ List.replicate 180 0

def pacedSender : Worker :=
  sample 1 (sendCalls ++ [.enableFec .aggressive, .enableQueueing 1 0 plainEnv.now])

def bulkyFrames (count : ℕ) : List Call := List.replicate count (.routeFromTun bulkyFrame true plainEnv)

def lateDrain : Call :=
  .drainQueue { plainEnv with draws := { plainDraws with clock := plainDraws.clock + seconds 10000 } }

theorem seven_frames_paced :
    Paced (pacedSender.run Crypto.plain sortingHeap (bulkyFrames 7 ++ [lateDrain])).trace :=
  (sends_paced_in_order pacedSender (by decide +kernel)
    (fun trafficClass => by cases trafficClass <;> decide +kernel) (by decide +kernel)
    (bulkyFrames 7 ++ [lateDrain]) (by decide +kernel) (by decide +kernel)).1

theorem seven_frames_drain :
    drainLoop plainEnv.carrier 0 8 (pacedSender.run Crypto.plain sortingHeap (bulkyFrames 7)) =
      drainLoop plainEnv.carrier 0 7 (pacedSender.run Crypto.plain sortingHeap (bulkyFrames 7)) :=
  drainLoop_fuel _ _ 7 (by decide +kernel)

/-- The eighth packet is handed out at once, before the two in the queue. -/
theorem eighth_frame_overtakes :
    let trace := (pacedSender.run Crypto.plain sortingHeap (bulkyFrames 8 ++ [lateDrain])).trace
    ¬ Paced trace ∧ ¬ (handedOf .realtime trace).Sublist (routedOf .realtime trace) := by
  intro trace
  refine ⟨fun paced => ?_, by decide +kernel⟩
  have permitted := paced (trace.take 18) ((handedOf .realtime trace).getD 5 ⟨[], .realtime, 0, {}⟩) (trace.drop 19)
    (by decide +kernel)
  exact absurd permitted (by decide +kernel)

end Worker

end Norr
