import Norr.Control.Plane
import Norr.Fec.Streams
import Norr.Net.Routing
import Norr.Qos.Pacer
import Norr.Qos.Scheduler

/-! The Worker of `worker.cpp`: its state and the way out, from a frame of the TUN device to the
datagrams handed to the carrier, with the callbacks Runtime installs.

Statistics, flow hints and the adaptive controller's measurements are left out. `Env` is what one call
takes from its surroundings. -/

namespace Norr

open Fec

def kChaffInterval : Duration := milliseconds 250

def kFecFlushInterval : Duration := milliseconds 5

def kFrameBufferSize : ℕ := 9216

def kPadBufferSize : ℕ := kFrameBufferSize + kPaddingAlignment

def kEncryptBufferSize : ℕ := kFrameBufferSize + kPacketHeaderSize + kAeadTagSize + kPaddingAlignment

def kDefaultBatchSize : ℕ := 256

inductive DropReason
  | none
  | malformedInnerPacket
  | malformedOuterPacket
  | noRoute
  | noSession
  | sourceNotAuthorized
  | policyDenied
  | routingLoop
  | hopLimit
  | authenticationFailed
  | replayed
  | tooOld
  | counterExhausted
  | noEndpoint
  | sendFailed
  | tunWriteFailed
  | oversized
  deriving DecidableEq, Repr

structure OutboundDatagram where
  destination : Endpoint
  payload : Bytes
  deriving DecidableEq

/-- What send_batch returns, `none` for an error. -/
structure Carrier where
  sendBatch : List OutboundDatagram → Option ℕ

/-- How many datagrams of a batch the carrier takes before it stops. -/
def Carrier.takes (carrier : Carrier) (batch : List OutboundDatagram) : ℕ := (carrier.sendBatch batch).getD 0

structure Env where
  draws : Draws
  carrier : Carrier
  /-- Ready connections of a TCP carrier, one for any other. -/
  connections : ℕ := 1
  /-- What the adaptive controller decides on a loss report. -/
  decision : Option FecPlan := none
  tunWrites : Bool := true

def Env.now (env : Env) : Instant := env.draws.clock

structure TransmitJob where
  session : SessionRef
  counter : UInt64
  plain : Bytes
  destination : Endpoint
  /-- The index into `fecPeers`; kNoFec is `none`. -/
  fec : Option ℕ

structure ReceiveJob where
  session : SessionRef
  view : PacketView
  datagram : Bytes
  source : Endpoint
  /-- The surroundings the job will meet when it is settled. -/
  env : Env
  parsed : parsePacket datagram = .ok view

/-- All of the stream but the encoder in use is a history variable. -/
structure FecPeer extends Stream where
  peer : PeerId
  destination : Endpoint
  lastSymbol : Instant := 0

structure FecSource where
  source : Endpoint
  decoder : FecDecoder := {}
  lastSeen : Instant

/-- One call of seal_reserved, and so at most one call of TrafficKeys::seal. -/
structure Sealing where
  session : SessionRef
  key : TrafficKey
  counter : UInt64
  deriving DecidableEq

/-- One call of deliver_opened and what it handed to the TUN device or to its coalescer. -/
structure Delivery where
  session : SessionRef
  key : TrafficKey
  packet : Bytes
  counter : UInt64
  peer : PeerId
  type : FrameType
  plaintext : Bytes
  routes : RoutingTable
  handed : Option Bytes

/-- The way of a data packet that is sealed and sent at once: route_from_tun has it ready, Pacer::allow
returned true for it, it is handed to the carrier. -/
inductive PacingEvent
  | routed (packet : QueuedPacket)
  | allowed (packet : QueuedPacket)
  | handed (packet : QueuedPacket)
  deriving DecidableEq

/-- `outbox`, `sealed`, `deliveries` and `trace` are history variables: the datagrams the carrier took,
every call of seal_reserved, every call of deliver_opened, the packets on the sequential way. -/
structure Worker where
  node : Node
  routes : RoutingTable := {}
  mtu : ℕ := kDefaultTunnelMtu
  profile : TrafficProfile := .standard
  lastOutbound : Instant := 0
  queueingEnabled : Bool := false
  scheduler : Scheduler := {}
  pacer : Pacer := {}
  fecMode : FecMode := .off
  fecPeers : List FecPeer := []
  fecSources : List FecSource := []
  transmitJobs : List TransmitJob := []
  receiveJobs : List ReceiveJob := []
  offload : Bool := false
  outbox : List OutboundDatagram := []
  sealed : List Sealing := []
  deliveries : List Delivery := []
  trace : List PacingEvent := []

/-- The counter of the seal_reserved call inside `seal`, if it comes to one. -/
def Session.sealCounter (session : Session) (plaintext : Bytes) (room : ℕ) : Option UInt64 :=
  if room < kPacketHeaderSize + plaintext.length + kAeadTagSize then none
  else session.reserveCounter.1.toOption

namespace Worker

variable (crypto : Crypto) (heap : HeapAlgorithms)

def setMtu (worker : Worker) (mtu : ℕ) : Worker :=
  { worker with mtu := min (max mtu 576) kFrameBufferSize }

def setTrafficProfile (worker : Worker) (profile : TrafficProfile) : Worker := { worker with profile }

def enableFec (worker : Worker) (fecMode : FecMode) : Worker :=
  { worker with fecMode, fecPeers := [], fecSources := [] }

def updateSession (worker : Worker) (ref : SessionRef) (change : Session → Session) : Worker :=
  { worker with node := { worker.node with table := worker.node.table.update ref change } }

def sendAll (worker : Worker) (carrier : Carrier) (batch : List OutboundDatagram) : ℕ × Worker :=
  (min (carrier.takes batch) batch.length,
    { worker with outbox := worker.outbox ++ batch.take (carrier.takes batch) })

def noteSeal (worker : Worker) (ref : SessionRef) (session : Session) (counter : UInt64) : Worker :=
  { worker with sealed := worker.sealed ++ [⟨ref, session.sendKey, counter⟩] }

/-- Session::seal on a session of the table. -/
def sealWith (worker : Worker) (ref : SessionRef) (session : Session) (type : FrameType)
    (plaintext : Bytes) (room : ℕ) : Except SessionError Bytes × Worker :=
  let (outcome, after) := session.seal crypto type plaintext room
  let updated := worker.updateSession ref fun _ => after
  match session.sealCounter plaintext room with
  | none => (outcome, updated)
  | some counter => (outcome, updated.noteSeal ref session counter)

def sendControlCopies (carrier : Carrier) (ref : SessionRef) (payload : Bytes) : ℕ → Worker → Worker
  | 0, worker => worker
  | copies + 1, worker =>
    match worker.node.table.get ref with
    | none => worker
    | some session =>
      match session.endpoint with
      | none => worker
      | some destination =>
        match worker.sealWith crypto ref session .control payload
          (kPacketHeaderSize + 1 + kEchoTokenSize + kAeadTagSize) with
        | (.error _, worker) => worker
        | (.ok wire, worker) =>
          sendControlCopies carrier ref payload copies
            (worker.sendAll carrier [⟨destination, wire⟩]).2

/-- Runtime::send_control. -/
def sendControl (worker : Worker) (peer : PeerId) (payload : Bytes) (copies : ℕ) (carrier : Carrier) :
    Worker :=
  match worker.node.table.findByPeer peer with
  | none => worker
  | some ref => sendControlCopies crypto carrier ref payload copies worker

/-- Runtime::send_keepalive; `clock` becomes the token in microseconds. -/
def sendKeepalive (worker : Worker) (peer : PeerId) (env : Env) : Worker :=
  let stamp := UInt64.ofNat (env.now / 1000).toNat
  worker.sendControl crypto peer (kEchoRequest :: ByteOrder.writeU64 stamp) (max 1 env.connections)
    env.carrier

/-- Runtime::answer_echo. -/
def answerEcho (worker : Worker) (peer : PeerId) (token : Bytes) (env : Env) : Worker :=
  if token.length ≠ kEchoTokenSize then worker
  else worker.sendControl crypto peer (kEchoReply :: token) 1 env.carrier

/-- Runtime::request_session. -/
def requestSession (worker : Worker) (peer : PeerId) (env : Env) : Worker :=
  if peer ∈ worker.node.plane.pending then worker
  else if worker.node.dialEndpoint peer = none then worker
  else
    match worker.node.startHandshake crypto heap peer env.draws env.now with
    | (.error _, node) => { worker with node }
    | (.ok outgoing, node) =>
      ({ worker with node }.sendAll env.carrier [⟨outgoing.destination, outgoing.datagram⟩]).2

def fecIndex (worker : Worker) (peer : PeerId) (destination : Endpoint) : ℕ × Worker :=
  match worker.fecPeers.findIdx? (·.peer = peer) with
  | some index => (index, worker)
  | none =>
    let mode := if worker.fecMode = .automatic then .off else worker.fecMode
    let entry : FecPeer := { peer, destination, encoder := FecEncoder.configure {} (planForMode mode) }
    (worker.fecPeers.length, { worker with fecPeers := worker.fecPeers ++ [entry] })

/-- The FEC state a frame for the peer goes through: `none` without an active encoder. -/
def fecFor (worker : Worker) (peer : PeerId) (destination : Endpoint) : Option ℕ × Worker :=
  if worker.fecMode = .off then (none, worker)
  else
    let (index, worker) := worker.fecIndex peer destination
    if worker.fecPeers[index]?.any (·.encoder.plan.active) then (some index, worker) else (none, worker)

def FecPeer.framed (entry : FecPeer) (sealed : Bytes) : Bytes :=
  serializeFecHeader (entry.encoder.nextHeader sealed.length) ++ sealed

/-- A sealed packet behind the header of its symbol, and the parity its block then gives. -/
def FecPeer.frame (entry : FecPeer) (sealed : Bytes) (destination : Endpoint) (now : Instant) :
    List Bytes × FecPeer :=
  let (encoder, parity) := entry.encoder.add sealed
  ((serializeFecHeader (entry.encoder.nextHeader sealed.length) ++ sealed) :: parity,
    { entry with toStream := { entry.code (.packet sealed) with encoder }, destination, lastSymbol := now })

def outbound (destination : Endpoint) (payloads : List Bytes) : List OutboundDatagram :=
  payloads.map fun payload => ⟨destination, payload⟩

/-- What one job of flush_transmit adds to the batch. -/
def flushJob (now : Instant) (state : List OutboundDatagram × Worker) (job : TransmitJob) :
    List OutboundDatagram × Worker :=
  let (batch, worker) := state
  match worker.node.table.get job.session with
  | none => (batch, worker)
  | some session =>
    let logged := worker.noteSeal job.session session job.counter
    match session.sealReserved crypto .data job.counter job.plain kEncryptBufferSize with
    | .error _ => (batch, logged)
    | .ok sealed =>
      match job.fec with
      | none => (batch ++ outbound job.destination [sealed], logged)
      | some index =>
        match worker.fecPeers[index]? with
        | none => (batch ++ outbound job.destination [sealed], logged)
        | some entry =>
          if entry.encoder.plan.active = false then
            (batch ++ outbound job.destination [sealed], logged)
          else
            let (payloads, entry) := FecPeer.frame entry sealed job.destination now
            (batch ++ outbound job.destination payloads,
              { logged with fecPeers := worker.fecPeers.set index entry })

def flushTransmit (worker : Worker) (env : Env) : ℕ × Worker :=
  let (batch, flushed) := worker.transmitJobs.foldl (flushJob crypto env.now) ([], worker)
  let (offset, sent) := { flushed with transmitJobs := [] }.sendAll env.carrier batch
  (offset, if 0 < offset then { sent with lastOutbound := env.now } else sent)

/-- The length a frame is padded to: its bucket, unless that exceeds the MTU. -/
def paddedFrame (worker : Worker) (length : ℕ) : ℕ :=
  let padded := profilePaddedLength worker.profile length
  if worker.mtu < padded then max length worker.mtu else padded

def padTo (frame : Bytes) (padded : ℕ) : Bytes := frame ++ List.replicate (padded - frame.length) 0

/-- The batched way: the counter is reserved now, the frame sealed by flush_transmit. -/
def stageTransmit (worker : Worker) (ref : SessionRef) (destination : Endpoint) (plain : Bytes)
    (fec : Option ℕ) (env : Env) : DropReason × Worker :=
  let worker := if kDefaultBatchSize ≤ worker.transmitJobs.length then (worker.flushTransmit crypto env).2
    else worker
  match worker.node.table.get ref with
  | none => (.noSession, worker)
  | some session =>
    match session.reserveCounter with
    | (.error _, after) => (.counterExhausted, worker.updateSession ref fun _ => after)
    | (.ok counter, after) =>
      let updated := worker.updateSession ref fun _ => after
      (.none, { updated with
        transmitJobs := updated.transmitJobs ++ [⟨ref, counter, plain, destination, fec⟩] })

def note (worker : Worker) (events : List PacingEvent) : Worker := { worker with trace := worker.trace ++ events }

/-- The loop of drain_queue. Every round but the last takes a packet off the queues, so their depth is
fuel enough. -/
def drainLoop (carrier : Carrier) (now : Instant) : ℕ → Worker → ℕ × Worker
  | 0, worker => (0, worker)
  | fuel + 1, worker =>
    if worker.scheduler.empty then (0, worker)
    else
      match worker.scheduler.dequeue now with
      | (none, scheduler) => (0, { worker with scheduler })
      | (some packet, scheduler) =>
        match worker.pacer.allow packet.bytes.length now with
        | (false, pacer) => (0, { worker with scheduler := scheduler.restore packet, pacer })
        | (true, pacer) =>
          let worker := { worker with scheduler, pacer }.note [.allowed packet, .handed packet]
          match worker.sendAll carrier [⟨packet.destination, packet.bytes⟩] with
          | (0, worker) => (0, worker)
          | (_ + 1, worker) =>
            let (sent, worker) := drainLoop carrier now fuel worker
            (sent + 1, worker)

def drainQueue (worker : Worker) (carrier : Carrier) (now : Instant) : ℕ × Worker :=
  if worker.queueingEnabled = false then (0, worker)
  else drainLoop carrier now worker.scheduler.totalDepth worker

def enableQueueing (worker : Worker) (bytesPerSecond : ℚ) (burstBytes : ℕ) (now : Instant) : Worker :=
  { worker with
    pacer := .create bytesPerSecond burstBytes now
    queueingEnabled := 0 < bytesPerSecond }

def setPacingRate (worker : Worker) (bytesPerSecond : ℚ) : Worker :=
  if worker.queueingEnabled = true ∧ 0 < bytesPerSecond then
    { worker with pacer := { worker.pacer with rate := bytesPerSecond } }
  else worker

/-- The way of a datagram that is not part of a FEC block which it closes. -/
def sendWire (worker : Worker) (destination : Endpoint) (wire : Bytes) (trafficClass : TrafficClass) (env : Env) :
    DropReason × Worker :=
  if worker.queueingEnabled then
    match worker.scheduler.enqueue wire trafficClass env.now destination with
    | (false, scheduler) => (.sendFailed, { worker with scheduler })
    | (true, scheduler) =>
      (.none, { ({ worker with scheduler }.drainQueue env.carrier env.now).2 with lastOutbound := env.now })
  else
    match (worker.note [.handed ⟨wire, trafficClass, env.now, destination⟩]).sendAll env.carrier
      [⟨destination, wire⟩] with
    | (0, worker) => (.sendFailed, worker)
    | (_ + 1, worker) => (.none, { worker with lastOutbound := env.now })

/-- The sequential way: sealed and sent at once. -/
def sendNow (worker : Worker) (ref : SessionRef) (session : Session) (destination : Endpoint)
    (plain : Bytes) (fec : Option ℕ) (trafficClass : TrafficClass) (env : Env) : DropReason × Worker :=
  match worker.sealWith crypto ref session .data plain kEncryptBufferSize with
  | (.error .counterExhausted, worker) => (.counterExhausted, worker)
  | (.error _, worker) => (.oversized, worker)
  | (.ok wire, worker) =>
    match fec.bind fun index => worker.fecPeers[index]?.map (index, ·) with
    | none =>
      (worker.note [.routed ⟨wire, trafficClass, env.now, destination⟩]).sendWire destination wire
        trafficClass env
    | some (index, entry) =>
      let packet : QueuedPacket := ⟨FecPeer.framed entry wire, trafficClass, env.now, destination⟩
      let (payloads, entry) := FecPeer.frame entry wire destination env.now
      let worker := { worker with fecPeers := worker.fecPeers.set index entry }.note [.routed packet]
      match payloads with
      | [framed] => worker.sendWire destination framed trafficClass env
      | payloads =>
        match (worker.note [.handed packet]).sendAll env.carrier (outbound destination payloads) with
        | (0, worker) => (.sendFailed, worker)
        | (_ + 1, worker) => (.none, { worker with lastOutbound := env.now })

def egressDrop : ForwardDecision → DropReason
  | .noRoute => .noRoute
  | .sourceNotAuthorized => .sourceNotAuthorized
  | .routingLoop => .routingLoop
  | .hopLimitExceeded => .hopLimit
  | .multicastDenied | .unspecifiedAddress | .loopbackAddress => .policyDenied
  | .deliverLocal | .forward => .none

/-- From the session to the batch or the carrier. -/
def transmit (worker : Worker) (ref : SessionRef) (session : Session) (parsed : IpPacketView) (frame : Bytes)
    (batch : Bool) (env : Env) : DropReason × Worker :=
  match session.endpoint with
  | none => (.noEndpoint, worker)
  | some destination =>
    let padded := worker.paddedFrame frame.length
    if kPadBufferSize < padded then (.oversized, worker)
    else
      let (fec, worker) := worker.fecFor session.peer destination
      if batch && !worker.queueingEnabled then
        worker.stageTransmit crypto ref destination (padTo frame padded) fec env
      else worker.sendNow crypto ref session destination (padTo frame padded) fec (classify parsed frame) env

def routeFromTun (worker : Worker) (frame : Bytes) (batch : Bool) (env : Env) : DropReason × Worker :=
  match parseIpPacket frame with
  | .error _ => (.malformedInnerPacket, worker)
  | .ok parsed =>
    let decision := worker.routes.classify parsed kNoPeer
    if decision.accepted = false then (egressDrop decision.decision, worker)
    else if decision.decision = .deliverLocal then (.noRoute, worker)
    else
      match worker.node.table.findByPeer decision.peer with
      | none => (.noSession, worker.requestSession crypto heap decision.peer env)
      | some ref =>
        match worker.node.table.get ref with
        | none => (.noSession, worker.requestSession crypto heap decision.peer env)
        | some session =>
          if session.expired env.now then
            (.noSession, worker.requestSession crypto heap decision.peer env)
          else worker.transmit crypto ref session parsed frame batch env

def forwardFromTun (worker : Worker) (frame : Bytes) (env : Env) : DropReason × Worker :=
  let (reason, routed) := worker.routeFromTun crypto heap frame true env
  (reason, (routed.flushTransmit crypto env).2)

/-- `frames` are the packets of the frames read, segments of offloaded ones expanded. -/
def pumpTunToUdp (worker : Worker) (frames : List (Bytes × Env)) (env : Env) : ℕ × Worker :=
  let (forwarded, routed) := frames.foldl (fun (state : ℕ × Worker) frame =>
    match state.2.routeFromTun crypto heap frame.1 true frame.2 with
    | (.none, worker) => (state.1 + 1, worker)
    | (_, worker) => (state.1, worker)) (0, worker)
  (forwarded, (routed.flushTransmit crypto env).2)

/-- A batch that met no error counts as sent, even if the carrier took nothing. -/
def chaffSession (length : ℕ) (env : Env) (state : ℕ × Worker) (ref : SessionRef) : ℕ × Worker :=
  match state.2.node.table.get ref with
  | none => state
  | some session =>
    match session.endpoint with
    | none => state
    | some destination =>
      if kPadBufferSize < length then state
      else
        match state.2.sealWith crypto ref session .control (List.replicate length 0) kEncryptBufferSize with
        | (.error _, worker) => (state.1, worker)
        | (.ok wire, worker) =>
          (if env.carrier.sendBatch [⟨destination, wire⟩] = none then state.1 else state.1 + 1,
            (worker.sendAll env.carrier [⟨destination, wire⟩]).2)

def sendChaff (worker : Worker) (env : Env) : ℕ × Worker :=
  if worker.lastOutbound ≠ 0 ∧ env.now - worker.lastOutbound < kChaffInterval then (0, worker)
  else
    match profileBuckets worker.profile with
    | [] => (0, worker)
    | length :: _ =>
      let (sent, chaffed) := (worker.node.table.sessions.entries.map (·.2)).foldl
        (chaffSession crypto length env) (0, worker)
      (sent, if 0 < sent then { chaffed with lastOutbound := env.now } else chaffed)

def sendParity (worker : Worker) (entry : FecPeer) (parity : List Bytes) (carrier : Carrier) : Worker :=
  (worker.sendAll carrier (outbound entry.destination parity)).2

/-- note_peer_loss, from the controller's decision on. -/
def notePeerLoss (worker : Worker) (peer : PeerId) (env : Env) : Worker :=
  if worker.fecMode ≠ .automatic then worker
  else
    match worker.fecPeers.findIdx? (·.peer = peer), env.decision with
    | some index, some plan =>
      match worker.fecPeers[index]? with
      | none => worker
      | some entry =>
        let (flushed, parity) := entry.encoder.flush
        let encoder := (FecEncoder.configure {} plan).resumeAt flushed.nextBlock
        let sent := worker.sendParity entry parity env.carrier
        let entry := { entry with toStream := { entry.replace plan with encoder } }
        { sent with fecPeers := worker.fecPeers.set index entry }
    | _, _ => worker

def flushFecPeer (env : Env) (worker : Worker) (index : ℕ) : Worker :=
  match worker.fecPeers[index]? with
  | none => worker
  | some entry =>
    if entry.encoder.pending = 0 then worker
    else if env.now - entry.lastSymbol < kFecFlushInterval then worker
    else
      let (encoder, parity) := entry.encoder.flush
      let sent := worker.sendParity entry parity env.carrier
      let entry := { entry with toStream := { entry.code .flush with encoder } }
      { sent with fecPeers := worker.fecPeers.set index entry }

def flushFec (worker : Worker) (env : Env) : Worker :=
  let expired := worker.fecSources.map fun entry =>
    { entry with decoder := (entry.decoder.expire env.now).1 }
  let kept := { worker with fecSources := expired.filter fun entry =>
    !(seconds 120 < env.now - entry.lastSeen && entry.decoder.blocks.isEmpty) }
  if worker.fecMode = .off then kept
  else (List.range kept.fecPeers.length).foldl (flushFecPeer env) kept

end Worker

end Norr
