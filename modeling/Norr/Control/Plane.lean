import Norr.Control.Timers
import Norr.Crypto.Cookie
import Norr.Crypto.Noise
import Norr.Session.Table
import Norr.Wire.HandshakeFrame

/-! The ControlPlane of `control_plane.cpp` with the SessionTable and the TimerWheel it drives.

Statistics are left out. `Draws` is what one call takes from its surroundings: random values, the
clocks and the verdict of the rate limiters. -/

namespace Norr

open ByteOrder

inductive ControlError
  | unknownPeer
  | rateLimited
  | tooManyPending
  | handshakeFailed
  | sessionInstallFailed
  | invalidMessage
  | notPending
  | timerCapacity
  deriving DecidableEq, Repr

structure PeerConfig where
  id : PeerId := kNoPeer
  staticPublic : PublicKey
  preshared : PresharedKey := Octets.zero 32
  endpoint : Option Endpoint := none
  deriving DecidableEq

structure OutgoingHandshake where
  destination : Endpoint
  datagram : Bytes
  deriving DecidableEq

structure Pending where
  peer : PeerId
  handshake : Option NoiseHandshake := none
  localKeyId : UInt16
  attempt : UInt32 := 0
  destination : Endpoint
  started : Instant := 0
  cookies : Option CookieHolder := none
  lastMac1 : Mac := Octets.zero 16
  deriving DecidableEq

structure Provisional where
  peer : PeerId
  localKeyId : UInt16
  remoteKeyId : UInt16
  result : NoiseResult
  endpoint : Endpoint
  created : Instant
  deriving DecidableEq

def kMaximumPending : ℕ := 256

def kHandshakePayloadSize : ℕ := 16

structure ControlPlane where
  localStatic : KeyPair
  peers : AList (fun _ : PeerId => PeerConfig) := ∅
  pending : AList (fun _ : PeerId => Pending) := ∅
  provisional : AList (fun _ : UInt16 => Provisional) := ∅
  keepaliveDue : List PeerId := []
  rekeyAfter : Duration := kRekeyAfter
  greatestTimestamp : AList (fun _ : PeerId => UInt64) := ∅
  learnedEndpoint : AList (fun _ : PeerId => Endpoint) := ∅
  issuer : CookieIssuer

/-- A ControlPlane and the two objects it refers to. `completed` is a history variable: the
result of every handshake that ran to its end here. -/
structure Node where
  plane : ControlPlane
  table : SessionTable := {}
  wheel : TimerWheel := {}
  completed : List NoiseResult := []

structure Draws where
  ephemeral : PrivateKey
  timestamp : UInt64
  clock : Instant
  admitted : Bool
  verifySecret : Octets 32
  replySecret : Octets 32
  cookieNonce : CookieNonce

def buildPayload (capabilities : UInt32) (keyId : UInt16) (timestamp : UInt64) : Bytes :=
  [1, 0] ++ bigEndian 4 capabilities.toNat ++ writeU16 keyId ++ writeU64 timestamp

def payloadTimestamp (payload : Bytes) : UInt64 :=
  if payload.length < 16 then 0 else readU64 payload 8

def payloadKeyId (payload : Bytes) : UInt16 :=
  if payload.length < 8 then kPreSessionKeyId else readU16 payload 6

/-- The zero-filled vector a handshake payload is read into. -/
def payloadBuffer (read : Bytes) : Bytes := (Octets.ofBytes kHandshakePayloadSize read).toList

def overwrite (bytes : Bytes) (offset : ℕ) (patch : Bytes) : Bytes :=
  bytes.take offset ++ patch ++ bytes.drop (offset + patch.length)

namespace Node

variable (crypto : Crypto) (heap : HeapAlgorithms)

def create (localStatic : KeyPair) : Node :=
  { plane := { localStatic, issuer := CookieIssuer.create crypto localStatic.publicKey } }

def schedule (node : Node) (kind : TimerKind) (subject : UInt32) (due : Instant) : Bool × Node :=
  let (scheduled, wheel) := node.wheel.schedule heap kind subject due
  (scheduled, { node with wheel })

def cancel (node : Node) (kind : TimerKind) (subject : UInt32) : Node :=
  { node with wheel := node.wheel.cancel heap kind subject }

def setPending (node : Node) (peer : PeerId) (entry : Pending) : Node :=
  { node with plane := { node.plane with pending := node.plane.pending.put peer entry } }

def erasePending (node : Node) (peer : PeerId) : Node :=
  { node with plane := { node.plane with pending := node.plane.pending.erase peer } }

def setProvisional (node : Node) (keyId : UInt16) (entry : Provisional) : Node :=
  { node with plane := { node.plane with provisional := node.plane.provisional.insert keyId entry } }

def eraseProvisional (node : Node) (keyId : UInt16) : Node :=
  { node with plane := { node.plane with provisional := node.plane.provisional.erase keyId } }

def pushKeepalive (node : Node) (peer : PeerId) : Node :=
  { node with plane := { node.plane with keepaliveDue := node.plane.keepaliveDue ++ [peer] } }

def complete (node : Node) (result : NoiseResult) : Node :=
  { node with completed := node.completed ++ [result] }

def learnEndpoint (node : Node) (peer : PeerId) (endpoint : Endpoint) : Node :=
  { node with
    plane := { node.plane with learnedEndpoint := node.plane.learnedEndpoint.insert peer endpoint } }

def addPeer (node : Node) (peer : PeerConfig) : Except ControlError Unit × Node :=
  if peer.id = kNoPeer then (.error .unknownPeer, node)
  else (.ok (), { node with plane := { node.plane with peers := node.plane.peers.insert peer.id peer } })

def findPeer (node : Node) (peer : PeerId) : Option PeerConfig := node.plane.peers.lookup peer

def forgetPeer (node : Node) (peer : PeerId) : Node :=
  let doomed := node.plane.provisional.entries.filter (·.2.peer = peer)
  let plane := { node.plane with
    peers := node.plane.peers.erase peer
    pending := node.plane.pending.erase peer
    greatestTimestamp := node.plane.greatestTimestamp.erase peer
    learnedEndpoint := node.plane.learnedEndpoint.erase peer
    provisional := node.plane.provisional.keep fun _ entry => !(entry.peer = peer)
    keepaliveDue := node.plane.keepaliveDue.filter (· ≠ peer) }
  let cancelled := [TimerKind.handshakeTimeout, .handshakeRetry, .rekey, .keepalive].foldl
    (fun node kind => cancel heap node kind peer) { node with plane }
  doomed.foldl (fun node entry => cancel heap node .provisionalTimeout entry.1.toUInt32) cancelled

def dialEndpoint (node : Node) (peer : PeerId) : Option Endpoint :=
  match node.findPeer peer with
  | none => none
  | some config =>
    match config.endpoint with
    | some endpoint => some endpoint
    | none => node.plane.learnedEndpoint.lookup peer

def allocateLoop : ℕ → Node → Except ControlError UInt16 × Node
  | 0, node => (.error .sessionInstallFailed, node)
  | attempts + 1, node =>
    match node.table.allocateKeyId with
    | (.error _, table) => (.error .sessionInstallFailed, { node with table })
    | (.ok candidate, table) =>
      if candidate ∈ node.plane.provisional then allocateLoop attempts { node with table }
      else if node.plane.pending.entries.any (·.2.localKeyId = candidate) then
        allocateLoop attempts { node with table }
      else (.ok candidate, { node with table })

def allocateKeyId (node : Node) : Except ControlError UInt16 × Node :=
  allocateLoop (kMaximumPending * 2 + 2) node

/-- The first initiation of build_initiation: everything before the timers. -/
def initiation (node : Node) (entry : Pending) (draws : Draws) (now : Instant) :
    Except ControlError (Bytes × Pending) :=
  match node.findPeer entry.peer with
  | none => .error .unknownPeer
  | some config =>
    match NoiseHandshake.create crypto .initiator node.plane.localStatic config.staticPublic
      config.preshared [] with
    | .error _ => .error .handshakeFailed
    | .ok handshake =>
      let payload := buildPayload 0 entry.localKeyId draws.timestamp
      match Fallible.exec (NoiseHandshake.writeMessage1 crypto draws.ephemeral payload
        (kNoiseMessage1Overhead + payload.length)) handshake with
      | (.error _, _) => .error .handshakeFailed
      | (.ok message, handshake) =>
        match serializeHandshakeFrameWithMacs .init message with
        | .error _ => .error .handshakeFailed
        | .ok frame =>
          let cookies := entry.cookies.getD (CookieHolder.create crypto config.staticPublic)
          let first := mac1Offset message.length
          let second := mac2Offset message.length
          let mac1 := cookies.computeMac1 crypto (frame.take first)
          let withMac1 := overwrite frame first mac1.toList
          let mac2 := cookies.computeMac2 crypto (withMac1.take second)
          .ok (overwrite withMac1 second mac2.toList, { entry with
            cookies := some cookies
            lastMac1 := mac1
            handshake := some handshake
            started := now })

/-- Returns the entry too: build_initiation changes it through a reference. -/
def buildInitiation (node : Node) (entry : Pending) (draws : Draws) (now : Instant) :
    Except ControlError OutgoingHandshake × Pending × Node :=
  match node.initiation crypto entry draws now with
  | .error error => (.error error, entry, node)
  | .ok (datagram, entry) =>
    match node.schedule heap .handshakeTimeout entry.peer (now + kHandshakeTimeout) with
    | (false, node) => (.error .timerCapacity, entry, node)
    | (true, node) =>
      match node.schedule heap .handshakeRetry entry.peer (now + retryBackoff entry.attempt) with
      | (false, node) => (.error .timerCapacity, entry, node)
      | (true, node) => (.ok ⟨entry.destination, datagram⟩, entry, node)

def startHandshake (node : Node) (peer : PeerId) (draws : Draws) (now : Instant) :
    Except ControlError OutgoingHandshake × Node :=
  match node.findPeer peer, node.dialEndpoint peer with
  | none, _ => (.error .unknownPeer, node)
  | some _, none => (.error .unknownPeer, node)
  | some _, some destination =>
    if kMaximumPending ≤ node.plane.pending.size ∧ peer ∉ node.plane.pending then
      (.error .tooManyPending, node)
    else
      match node.allocateKeyId with
      | (.error error, node) => (.error error, node)
      | (.ok localKeyId, node) =>
        match node.buildInitiation crypto heap { peer, localKeyId, destination } draws now with
        | (.error error, _, node) => (.error error, node)
        | (.ok outgoing, entry, node) => (.ok outgoing, node.setPending peer entry)

/-- The timers of a peer whose session was just installed by its initiator. -/
def armInitiator (node : Node) (peer : PeerId) (clock : Instant) : Node :=
  let cancelled := [TimerKind.handshakeTimeout, .handshakeRetry, .rekey, .keepalive].foldl
    (fun node kind => cancel heap node kind peer) node
  let rekeyed := if 0 < node.plane.rekeyAfter then
      (cancelled.schedule heap .rekey peer (clock + node.plane.rekeyAfter)).2
    else cancelled
  (rekeyed.schedule heap .keepalive peer (clock + kKeepaliveInterval)).2

def installSession (node : Node) (peer : PeerId) (localKeyId remoteKeyId : UInt16)
    (result : NoiseResult) (endpoint : Endpoint) (clock : Instant) : Except ControlError Unit × Node :=
  let session : Session :=
    { peer, localKeyId, remoteKeyId
      sendKey := result.send
      receiveKey := result.receive
      establishedAt := clock }
  match node.table.install peer localKeyId session clock with
  | (.error _, table) => (.error .sessionInstallFailed, { node with table })
  | (.ok ref, table) =>
    let learned : Node := { node with table := table.update ref (·.noteAuthenticatedEndpoint endpoint) }
    (.ok (), (learned.learnEndpoint peer endpoint).armInitiator heap peer clock)

/-- The loop over pending_ of a cookie reply. -/
def acceptCookie (reply : CookieReply) (draws : Draws) (now : Instant) :
    List (Sigma fun _ : PeerId => Pending) → Node →
      Except ControlError (Option OutgoingHandshake) × Node
  | [], node => (.error .notPending, node)
  | ⟨peer, entry⟩ :: rest, node =>
    match entry.cookies with
    | none => acceptCookie reply draws now rest node
    | some cookies =>
      match cookies.acceptReply crypto reply entry.lastMac1 now with
      | .error _ => acceptCookie reply draws now rest node
      | .ok cookies =>
        match node.buildInitiation crypto heap { entry with cookies := some cookies } draws now with
        | (.error error, entry, node) => (.error error, node.setPending peer entry)
        | (.ok retry, entry, node) => (.ok (some retry), node.setPending peer entry)

def handleCookieReply (node : Node) (frame : HandshakeFrameView) (draws : Draws) (now : Instant) :
    Except ControlError (Option OutgoingHandshake) × Node :=
  match parseCookieReply frame.noiseMessage with
  | .error _ => (.error .invalidMessage, node)
  | .ok reply => acceptCookie crypto heap reply draws now node.plane.pending.entries node

/-- The cookie challenge an initiation meets under load; `none` lets it through. -/
def challenge (node : Node) (source : Endpoint) (frame : HandshakeFrameView) (draws : Draws)
    (now : Instant) : Option (Except ControlError (Option OutgoingHandshake)) × Node :=
  let receivedMac1 := Octets.ofBytes 16 frame.mac1
  if node.plane.issuer.underLoad then
    let (verified, issuer) := node.plane.issuer.verifyMac2 crypto source frame.mac2Covered
      (Octets.ofBytes 16 frame.mac2) draws.verifySecret now
    let node := { node with plane := { node.plane with issuer } }
    if verified then (none, node)
    else
      let (reply, issuer) :=
        issuer.buildReply crypto source 0 receivedMac1 draws.replySecret draws.cookieNonce now
      let node := { node with plane := { node.plane with issuer } }
      match reply with
      | .error _ => (some (.error .handshakeFailed), node)
      | .ok reply =>
        match serializeHandshakeFrame .cookieReply (serializeCookieReply reply) with
        | .error _ => (some (.error .handshakeFailed), node)
        | .ok datagram => (some (.ok (some ⟨source, datagram⟩)), node)
  else (none, node)

/-- Reads an initiation under a preshared key. -/
def readInitiation (node : Node) (preshared : PresharedKey) (message : Bytes) :
    Option (Bytes × NoiseHandshake) :=
  match NoiseHandshake.create crypto .responder node.plane.localStatic (Octets.zero 32) preshared [] with
  | .error _ => none
  | .ok handshake =>
    match Fallible.exec (NoiseHandshake.readMessage1 crypto message kHandshakePayloadSize) handshake with
    | (.error _, _) => none
    | (.ok payload, handshake) => some (payloadBuffer payload, handshake)

/-- The peer whose static key the initiation claims: message 1 does not use the preshared key. -/
def identify (node : Node) (message : Bytes) : Except ControlError (PeerId × PeerConfig) :=
  match node.readInitiation crypto (Octets.zero 32) message with
  | none => .error .handshakeFailed
  | some (_, handshake) =>
    match node.plane.peers.entries.find? (·.2.staticPublic = handshake.remoteStatic) with
    | none => .error .unknownPeer
    | some ⟨peer, config⟩ => .ok (peer, config)

/-- From the allocated key id to the provisional entry and the reply. -/
def answer (node : Node) (source : Endpoint) (peer : PeerId) (config : PeerConfig)
    (handshake : NoiseHandshake) (remoteKeyId localKeyId : UInt16) (draws : Draws) (now : Instant) :
    Except ControlError (Option OutgoingHandshake) × Node :=
  let payload := buildPayload 0 localKeyId draws.timestamp
  match Fallible.exec (NoiseHandshake.writeMessage2 crypto draws.ephemeral payload
    (kNoiseMessage2Overhead + payload.length)) handshake with
  | (.error _, _) => (.error .handshakeFailed, node)
  | (.ok message, handshake) =>
    match handshake.result crypto with
    | .error _ => (.error .handshakeFailed, node)
    | .ok result =>
      let node := node.complete result
      if result.remoteStatic ≠ config.staticPublic then (.error .handshakeFailed, node)
      else if kMaximumPending ≤ node.plane.provisional.size then (.error .tooManyPending, node)
      else
        let held := node.setProvisional localKeyId
          ⟨peer, localKeyId, remoteKeyId, result, source, now⟩
        let timed := (held.schedule heap .provisionalTimeout localKeyId.toUInt32
          (now + kHandshakeTimeout)).2
        match serializeHandshakeFrameWithMacs .response message with
        | .error _ => (.error .handshakeFailed, timed)
        | .ok reply =>
          let first := mac1Offset message.length
          let mac := node.plane.issuer.computeMac1 crypto (reply.take first)
          (.ok (some ⟨source, overwrite reply first mac.toList⟩), timed)

/-- An initiation whose MACs have been accepted. -/
def acceptInitiation (node : Node) (source : Endpoint) (frame : HandshakeFrameView) (draws : Draws)
    (now : Instant) : Except ControlError (Option OutgoingHandshake) × Node :=
  match node.identify crypto frame.noiseMessage with
  | .error error => (.error error, node)
  | .ok (peer, config) =>
    match node.readInitiation crypto config.preshared frame.noiseMessage with
    | none => (.error .handshakeFailed, node)
    | some (payload, handshake) =>
      let remoteKeyId := payloadKeyId payload
      let timestamp := payloadTimestamp payload
      if remoteKeyId = kPreSessionKeyId then (.error .invalidMessage, node)
      else if (node.plane.greatestTimestamp.lookup peer).any (timestamp ≤ ·) then
        (.error .invalidMessage, node)
      else
        let stamped := { node with plane := { node.plane with
          greatestTimestamp := node.plane.greatestTimestamp.insert peer timestamp } }
        match stamped.allocateKeyId with
        | (.error error, node) => (.error error, node)
        | (.ok localKeyId, node) =>
          node.answer crypto heap source peer config handshake remoteKeyId localKeyId draws now

def handleInit (node : Node) (source : Endpoint) (frame : HandshakeFrameView) (draws : Draws)
    (now : Instant) : Except ControlError (Option OutgoingHandshake) × Node :=
  if kMaximumPending ≤ node.plane.provisional.size then (.error .tooManyPending, node)
  else if frame.hasMacs = false then (.error .invalidMessage, node)
  else if node.plane.issuer.verifyMac1 crypto frame.mac1Covered (Octets.ofBytes 16 frame.mac1) = false then
    (.error .invalidMessage, node)
  else
    match node.challenge crypto source frame draws now with
    | (some outcome, node) => (outcome, node)
    | (none, node) => node.acceptInitiation crypto heap source frame draws now

/-- The loop over pending_ of a response. -/
def acceptResponse (source : Endpoint) (frame : HandshakeFrameView) (clock : Instant) :
    List (Sigma fun _ : PeerId => Pending) → Node →
      Except ControlError (Option OutgoingHandshake) × Node
  | [], node => (.error .notPending, node)
  | ⟨peer, entry⟩ :: rest, node =>
    match entry.handshake, entry.cookies with
    | some handshake, some cookies =>
      if cookies.computeMac1 crypto frame.mac1Covered ≠ Octets.ofBytes 16 frame.mac1 then
        acceptResponse source frame clock rest node
      else
        match Fallible.exec (NoiseHandshake.readMessage2 crypto frame.noiseMessage
          kHandshakePayloadSize) handshake with
        | (.error _, handshake) =>
          acceptResponse source frame clock rest
            (node.setPending peer { entry with handshake := some handshake })
        | (.ok payload, handshake) =>
          let node := node.setPending peer { entry with handshake := some handshake }
          match handshake.result crypto with
          | .error _ => acceptResponse source frame clock rest node
          | .ok result =>
            let node := node.complete result
            let responderKeyId := payloadKeyId (payloadBuffer payload)
            if responderKeyId = kPreSessionKeyId then
              acceptResponse source frame clock rest node
            else
              match node.installSession heap peer entry.localKeyId responderKeyId result source
                clock with
              | (.error error, node) => (.error error, node)
              | (.ok (), node) => (.ok none, (node.erasePending peer).pushKeepalive peer)
    | _, _ => acceptResponse source frame clock rest node

def handleResponse (node : Node) (source : Endpoint) (frame : HandshakeFrameView) (clock : Instant) :
    Except ControlError (Option OutgoingHandshake) × Node :=
  if frame.hasMacs = false then (.error .invalidMessage, node)
  else acceptResponse crypto heap source frame clock node.plane.pending.entries node

def handleDatagram (node : Node) (source : Endpoint) (datagram : Bytes) (draws : Draws)
    (now : Instant) : Except ControlError (Option OutgoingHandshake) × Node :=
  if draws.admitted = false then (.error .rateLimited, node)
  else
    match parseHandshakeFrame datagram with
    | .error _ => (.error .invalidMessage, node)
    | .ok frame =>
      match frame.message with
      | .cookieReply => node.handleCookieReply crypto heap frame draws now
      | .init => node.handleInit crypto heap source frame draws now
      | .response => node.handleResponse crypto heap source frame draws.clock
      | _ => (.error .invalidMessage, node)

def candidate (entry : Provisional) (clock : Instant) : Session :=
  { peer := entry.peer
    localKeyId := entry.localKeyId
    remoteKeyId := entry.remoteKeyId
    sendKey := entry.result.send
    receiveKey := entry.result.receive
    establishedAt := clock }

/-- The timers of a peer whose session was just installed by its responder. -/
def armResponder (node : Node) (keyId : UInt16) (peer : PeerId) (clock : Instant) : Node :=
  let cancelled := ((node.cancel heap .provisionalTimeout keyId.toUInt32).cancel heap .rekey peer).cancel
    heap .keepalive peer
  (cancelled.schedule heap .keepalive peer (clock + kKeepaliveInterval)).2

/-- `room` is the size of the buffer the packet is opened into. -/
def tryPromoteProvisional (node : Node) (view : PacketView) (datagram : Bytes) (room : ℕ)
    (source : Endpoint) (clock : Instant) : Except ControlError Bytes × Node :=
  match node.plane.provisional.lookup view.header.keyId with
  | none => (.error .notPending, node)
  | some entry =>
    match (candidate entry clock).open crypto view datagram room clock with
    | (.error _, _) => (.error .handshakeFailed, node)
    | (.ok opened, session) =>
      match node.table.install entry.peer entry.localKeyId session clock with
      | (.error _, table) =>
        (.error .sessionInstallFailed, { node with table }.eraseProvisional view.header.keyId)
      | (.ok ref, table) =>
        let table := table.update ref (·.noteAuthenticatedEndpoint source)
        let promoted := ({ node with table }.eraseProvisional view.header.keyId).learnEndpoint
          entry.peer source
        (.ok opened, promoted.armResponder heap view.header.keyId entry.peer clock)

def onTimer (node : Node) (event : TimerEvent) (draws : Draws) (now : Instant) :
    List OutgoingHandshake × Node :=
  match event.kind with
  | .handshakeTimeout =>
    if event.subject ∈ node.plane.pending then
      ([], (node.erasePending event.subject).cancel heap .handshakeRetry event.subject)
    else ([], node)
  | .provisionalTimeout =>
    if event.subject ≤ 0xFFFF then ([], node.eraseProvisional event.subject.toUInt16) else ([], node)
  | .handshakeRetry =>
    match node.plane.pending.lookup event.subject with
    | none => ([], node)
    | some entry =>
      match node.buildInitiation crypto heap { entry with attempt := entry.attempt + 1 } draws now with
      | (.error _, entry, node) => ([], node.setPending event.subject entry)
      | (.ok retry, entry, node) => ([retry], node.setPending event.subject entry)
  | .rekey =>
    match node.startHandshake crypto heap event.subject draws now with
    | (.error _, node) => ([], node)
    | (.ok started, node) => ([started], node)
  | .keepalive =>
    match node.table.findByPeer event.subject with
    | none => ([], node)
    | some _ =>
      ([], ((node.pushKeepalive event.subject).schedule heap .keepalive event.subject
        (now + kKeepaliveInterval)).2)
  | _ => ([], node)

/-- Each event finds its own draws. -/
def onTimers (now : Instant) : List (TimerEvent × Draws) → Node → List OutgoingHandshake × Node
  | [], node => ([], node)
  | (event, draws) :: rest, node =>
    let (outgoing, node) := node.onTimer crypto heap event draws now
    let (others, node) := onTimers now rest node
    (outgoing ++ others, node)

def setUnderLoad (node : Node) (value : Bool) : Node :=
  { node with plane := { node.plane with issuer := { node.plane.issuer with underLoad := value } } }

def takeExpiredKeepalives (node : Node) : List PeerId × Node :=
  (node.plane.keepaliveDue, { node with plane := { node.plane with keepaliveDue := [] } })

end Node

def plainDraws : Draws where
  ephemeral := (Crypto.plainPair 3).privateKey
  timestamp := 1
  clock := 0
  admitted := true
  verifySecret := Octets.zero 32
  replySecret := Octets.zero 32
  cookieNonce := Octets.zero 24

def plainPeer : PeerConfig :=
  { id := 7, staticPublic := (Crypto.plainPair 2).publicKey, endpoint := some {} }

end Norr
