import Norr.Worker.Worker

/-! The way in of `worker.cpp`: from the datagrams of the carrier to the TUN device, one by one
(forward_from_transport) and in batches (pump_udp_to_tun). -/

namespace Norr

open Fec

structure InboundDatagram where
  source : Endpoint
  payload : Bytes
  env : Env

def kMaximumFecSources : ℕ := 256

namespace Worker

variable (crypto : Crypto) (heap : HeapAlgorithms)

def ingressDrop : ForwardDecision → DropReason
  | .sourceNotAuthorized => .sourceNotAuthorized
  | .noRoute => .noRoute
  | .routingLoop => .routingLoop
  | .hopLimitExceeded => .hopLimit
  | _ => .policyDenied

/-- The inner packet of a data frame, once its padding is cut off and its route is allowed. -/
def innerPacket (routes : RoutingTable) (ingressPeer : PeerId) (plaintext : Bytes) :
    Except DropReason Bytes :=
  match declaredIpLength plaintext with
  | none => .error .malformedInnerPacket
  | some declared =>
    if plaintext.length < declared then .error .malformedInnerPacket
    else
      match parseIpPacket (plaintext.take declared) with
      | .error _ => .error .malformedInnerPacket
      | .ok parsed =>
        let decision := routes.classify parsed ingressPeer
        if decision.accepted then .ok (plaintext.take declared)
        else .error (ingressDrop decision.decision)

/-- The handlers of a control frame; note_echo_reply only measures. -/
def handleControl (worker : Worker) (ingressPeer : PeerId) (payload : Bytes) (env : Env) : Worker :=
  match payload with
  | [] => worker
  | kind :: token =>
    if token = [] ∨ ingressPeer = kNoPeer then worker
    else if kind = kEchoRequest then worker.answerEcho crypto ingressPeer token env
    else if kind = kLossReport ∧ payload.length = kLossReportSize then
      worker.notePeerLoss ingressPeer env
    else worker

/-- deliver_opened. The arguments before `plaintext` go into the history only. -/
def deliverOpened (worker : Worker) (ref : SessionRef) (session : Session) (packet : Bytes)
    (header : PacketHeader) (plaintext : Bytes) (env : Env) : DropReason × Worker :=
  let inner := innerPacket worker.routes session.peer plaintext
  let record (handed : Option Bytes) : Worker := { worker with
    deliveries := worker.deliveries ++ [⟨ref, session.receiveKey, packet, header.counter, session.peer,
      header.type, plaintext, worker.routes, handed⟩] }
  if header.type = .control then
    (.none, (record none).handleControl crypto session.peer plaintext env)
  else
    match inner with
    | .error reason => (reason, record none)
    | .ok packet =>
      if worker.offload || env.tunWrites then (.none, record (some packet))
      else (.tunWriteFailed, record (some packet))

def openDrop : SessionError → DropReason
  | .replayed => .replayed
  | .tooOld => .tooOld
  | .bufferTooSmall => .oversized
  | _ => .authenticationFailed

def forwardSealed (worker : Worker) (source : Endpoint) (datagram : Bytes) (recovered : Bool) (env : Env) :
    DropReason × Worker :=
  match parsePacket datagram with
  | .error _ => (.malformedOuterPacket, worker)
  | .ok view =>
    match worker.node.table.findByKeyId view.header.keyId with
    | none =>
      match worker.node.tryPromoteProvisional crypto heap view datagram kFrameBufferSize source
        env.now with
      | (.error _, node) => (.noSession, { worker with node })
      | (.ok plaintext, node) =>
        match node.table.findByKeyId view.header.keyId with
        | none => (.noSession, { worker with node })
        | some ref =>
          match node.table.get ref with
          | none => (.noSession, { worker with node })
          | some session =>
            { worker with node }.deliverOpened crypto ref session datagram view.header
              plaintext env
    | some ref =>
      match worker.node.table.get ref with
      | none => (.noSession, worker)
      | some session =>
        match session.open crypto view datagram kFrameBufferSize env.now with
        | (.error error, after) => (openDrop error, worker.updateSession ref fun _ => after)
        | (.ok plaintext, after) =>
          let noted := if recovered then after.noteRecovered
            else after.noteAuthenticatedEndpoint source
          (worker.updateSession ref fun _ => noted).deliverOpened crypto ref noted datagram
            view.header plaintext env

def dropStalest (sources : List FecSource) : List FecSource :=
  match sources.findIdx? (fun entry => sources.all (entry.lastSeen ≤ ·.lastSeen)) with
  | none => sources
  | some index => sources.eraseIdx index

/-- The symbol passes through the decoder of its source, which is made if there is none. -/
def receiveSymbol (worker : Worker) (source : Endpoint) (header : FecSymbolHeader) (body : Bytes)
    (now : Instant) : List Bytes × Worker :=
  match worker.fecSources.findIdx? (·.source = source) with
  | some index =>
    let decoder := (worker.fecSources[index]?.map FecSource.decoder).getD {}
    let (decoder, recovered) := decoder.receive header body now
    (recovered, { worker with fecSources := worker.fecSources.set index ⟨source, decoder, now⟩ })
  | none =>
    let kept := if kMaximumFecSources ≤ worker.fecSources.length then dropStalest worker.fecSources
      else worker.fecSources
    let (decoder, recovered) := FecDecoder.receive {} header body now
    (recovered, { worker with fecSources := kept ++ [⟨source, decoder, now⟩] })

/-- The loop over the packets a symbol has recovered. -/
def forwardRecovered (source : Endpoint) (env : Env) : List Bytes → Worker → List DropReason × Worker
  | [], worker => ([], worker)
  | packet :: rest, worker =>
    let (reason, worker) := worker.forwardSealed crypto heap source packet true env
    let (reasons, worker) := forwardRecovered source env rest worker
    (reason :: reasons, worker)

def forwardFromTransport (worker : Worker) (source : Endpoint) (datagram : Bytes) (env : Env) :
    DropReason × Worker :=
  if looksLikeFecSymbol datagram then
    match parseFecHeader datagram with
    | none => (.malformedOuterPacket, worker)
    | some header =>
      let body := datagram.drop kFecHeaderSize
      let (recovered, worker) := worker.receiveSymbol source header body env.now
      let (reason, worker) := if header.parity then (.none, worker)
        else worker.forwardSealed crypto heap source body false env
      let (outcomes, worker) := forwardRecovered crypto heap source env recovered worker
      (if header.parity then (outcomes.find? (· ≠ .none)).getD .none else reason, worker)
  else worker.forwardSealed crypto heap source datagram false env

/-- One job of settle_receive: decrypted with the others, then committed and delivered. -/
def settleJob (state : ℕ × Worker) (job : ReceiveJob) : ℕ × Worker :=
  let (delivered, worker) := state
  match worker.node.table.get job.session with
  | none => (delivered, worker)
  | some session =>
    match session.decrypt crypto job.view job.datagram kFrameBufferSize with
    | .error _ => (delivered, worker)
    | .ok plaintext =>
      match session.commit job.view.header.counter job.env.now with
      | (.error _, after) => (delivered, worker.updateSession job.session fun _ => after)
      | (.ok (), after) =>
        let noted := after.noteAuthenticatedEndpoint job.source
        let (reason, worker) := (worker.updateSession job.session fun _ => noted).deliverOpened
          crypto job.session noted job.datagram job.view.header plaintext job.env
        (if reason = .none then delivered + 1 else delivered, worker)

def settleReceive (worker : Worker) : ℕ × Worker :=
  let (delivered, settled) := worker.receiveJobs.foldl (settleJob crypto) (0, worker)
  (delivered, { settled with receiveJobs := [] })

/-- `false` leaves the datagram to the sequential way. -/
def stageReceive (worker : Worker) (source : Endpoint) (datagram : Bytes) (env : Env) : Bool × Worker :=
  match parsed : parsePacket datagram with
  | .error _ => (false, worker)
  | .ok view =>
    match worker.node.table.findByKeyId view.header.keyId with
    | none => (false, worker)
    | some ref =>
      let worker := if kDefaultBatchSize ≤ worker.receiveJobs.length then
          (worker.settleReceive crypto).2
        else worker
      match worker.node.table.get ref with
      | none => (false, worker)
      | some session =>
        match session.checkWindow view.header.counter with
        | .error _ => (true, worker)
        | .ok () =>
          (true, { worker with
            receiveJobs := worker.receiveJobs ++ [⟨ref, view, datagram, source, env, parsed⟩] })

def looksLikeHandshake (datagram : Bytes) : Bool := datagram.head?.any (· < 0x10)

def sendKeepalives (env : Env) (worker : Worker) (peers : List PeerId) : Worker :=
  peers.foldl (fun worker peer => worker.sendKeepalive crypto peer env) worker

/-- Runtime::dispatch_control, the ingress filter. -/
def dispatchControl (worker : Worker) (inbound : InboundDatagram) : Bool × Worker :=
  if looksLikeHandshake inbound.payload = false then (false, worker)
  else
    let (outcome, node) := worker.node.handleDatagram crypto heap inbound.source inbound.payload
      inbound.env.draws inbound.env.now
    let (due, node) := node.takeExpiredKeepalives
    let worker := { worker with node }
    let replied := match outcome with
      | .ok (some reply) =>
        (worker.sendAll inbound.env.carrier [⟨reply.destination, reply.datagram⟩]).2
      | _ => worker
    (true, sendKeepalives crypto inbound.env replied due)

def counted (reason : DropReason) : ℕ := if reason = .none then 1 else 0

/-- One FEC symbol in pump_udp_to_tun. -/
def pumpSymbol (worker : Worker) (inbound : InboundDatagram) (header : FecSymbolHeader) : ℕ × Worker :=
  let body := inbound.payload.drop kFecHeaderSize
  let (recovered, worker) := worker.receiveSymbol inbound.source header body inbound.env.now
  let (staged, worker) := if header.parity then (false, worker)
    else worker.stageReceive crypto inbound.source body inbound.env
  let (settled, worker) := if recovered = [] then (0, worker) else worker.settleReceive crypto
  let (outcomes, worker) := forwardRecovered crypto heap inbound.source inbound.env recovered worker
  let delivered := settled + (outcomes.map counted).sum
  if staged || header.parity then (delivered, worker)
  else
    let (rest, worker) := worker.settleReceive crypto
    let (reason, worker) := worker.forwardSealed crypto heap inbound.source body false inbound.env
    (delivered + rest + counted reason, worker)

/-- The end of the loop body: what was staged is settled before the datagram is forwarded. -/
def pumpForward (worker : Worker) (inbound : InboundDatagram) : ℕ × Worker :=
  let (settled, worker) := worker.settleReceive crypto
  let (reason, worker) := worker.forwardFromTransport crypto heap inbound.source inbound.payload inbound.env
  (settled + counted reason, worker)

def pumpDatagram (worker : Worker) (inbound : InboundDatagram) : ℕ × Worker :=
  match worker.dispatchControl crypto heap inbound with
  | (true, worker) => (0, worker)
  | (false, worker) =>
    if looksLikeFecSymbol inbound.payload then
      match parseFecHeader inbound.payload with
      | some header => worker.pumpSymbol crypto heap inbound header
      | none => worker.pumpForward crypto heap inbound
    else
      match worker.stageReceive crypto inbound.source inbound.payload inbound.env with
      | (true, worker) => (0, worker)
      | (false, worker) => worker.pumpForward crypto heap inbound

def pumpBatch (state : ℕ × Worker) (batch : List InboundDatagram) : ℕ × Worker :=
  let (delivered, worker) := batch.foldl (fun (state : ℕ × Worker) inbound =>
    let (delivered, worker) := state.2.pumpDatagram crypto heap inbound
    (state.1 + delivered, worker)) state
  let (settled, worker) := worker.settleReceive crypto
  (delivered + settled, worker)

/-- `batches` are the batches receive_batch returns, up to the first that is empty. -/
def pumpUdpToTun (worker : Worker) (batches : List (List InboundDatagram)) : ℕ × Worker :=
  batches.foldl (pumpBatch crypto heap) (0, worker)

end Worker

end Norr
