import Norr.Control.Plane
import Norr.Net.Routing
import Norr.Runtime.Config

/-! Reloading the configuration: Runtime::reload of `runtime.cpp`.

`load` is what load_config_file returned. The result is `none` when the search for a peer id does
not end: its 32-bit variable never exceeds a peer count of `2 ^ 32 - 1`. -/

namespace Norr

inductive RuntimeError
  | peerKeyMalformed
  | peerEndpointMalformed
  | peerPrefixMalformed
  | routingConflict
  | controlFailed
  | optionNotImplemented
  deriving DecidableEq, Repr

structure Diagnostic where
  error : RuntimeError
  detail : String
  deriving DecidableEq, Repr

structure Incoming where
  peer : PeerConfig
  prefixes : List Prefix
  deriving DecidableEq

structure Runtime where
  tunName : String
  listenPort : UInt16
  fecMode : Fec.FecMode
  routes : RoutingTable
  node : Node
  peerCount : ℕ

def routingErrorMessage : RoutingError → String
  | .duplicatePrefix => "prefix already assigned to another peer"
  | .invalidPeer => "invalid peer id"
  | .tooManyPrefixes => "peer prefix limit exceeded"

def controlErrorMessage : ControlError → String
  | .unknownPeer => "unknown peer"
  | .rateLimited => "rate limited"
  | .tooManyPending => "too many pending handshakes"
  | .handshakeFailed => "handshake failed"
  | .sessionInstallFailed => "session install failed"
  | .invalidMessage => "invalid handshake message"
  | .notPending => "no pending handshake for this peer"
  | .timerCapacity => "timer capacity reached"

def decodeHex (text : List Char) (size : ℕ) : Option (Octets size) :=
  if text.length ≠ size * 2 then none
  else do
    let digits ← text.mapM (Text.digitValue 16)
    pure (Octets.ofBytes size ((List.range size).map fun index =>
      UInt8.ofNat (digits.getD (index * 2) 0 * 16 + digits.getD (index * 2 + 1) 0)))

def stageEntry (entry : PeerEntry) : Except Diagnostic Incoming := do
  let some staticPublic := decodeHex entry.publicKey.toList 32
    | throw ⟨.peerKeyMalformed, entry.name⟩
  let some preshared :=
      if entry.presharedKey = "" then some (Octets.zero 32) else decodeHex entry.presharedKey.toList 32
    | throw ⟨.peerKeyMalformed, entry.name ++ ".preshared_key"⟩
  let endpoint ←
    if entry.endpoint = "" then pure none
    else
      match parseEndpoint entry.endpoint.toList with
      | .error _ => throw ⟨.peerEndpointMalformed, entry.endpoint⟩
      | .ok parsed => pure (some parsed)
  let prefixes ← entry.allowedIps.mapM fun text =>
    match parsePrefix text.toList with
    | .error _ => throw ⟨.peerPrefixMalformed, text⟩
    | .ok range => pure range
  pure ⟨{ staticPublic, preshared, endpoint }, prefixes⟩

namespace Runtime

/-- Everything reload checks before it touches the routes. -/
def stage (runtime : Runtime) (load : Except String Config) : Except Diagnostic (List Incoming) :=
  match load with
  | .error message => .error ⟨.controlFailed, message⟩
  | .ok config =>
    if config.tunName ≠ runtime.tunName then
      .error ⟨.optionNotImplemented, "node.tun cannot change on reload"⟩
    else if config.listenPort ≠ runtime.listenPort then
      .error ⟨.optionNotImplemented, "node.listen_port cannot change on reload"⟩
    else if config.transport ≠ .automatic ∧ config.transport ≠ .udp then
      .error ⟨.optionNotImplemented, "transport.mode cannot change on reload"⟩
    else if config.fec ≠ runtime.fecMode then
      .error ⟨.optionNotImplemented,
        "fec.mode cannot change on reload: the peer would still be framing symbols the old way"⟩
    else config.peers.mapM stageEntry

def kLastPeerId : ℕ := 2 ^ 32 - 1

/-- The lowest id up to the peer count whose peer has the key; no peer has the id kNoPeer. -/
def searchPeer (node : Node) (count : ℕ) (key : PublicKey) : Option PeerId :=
  ((List.range' 1 (min count kLastPeerId)).map UInt32.ofNat).find? fun id =>
    (node.findPeer id).any (·.staticPublic = key)

def addPrefixes (id : PeerId) : List Prefix → RoutingTable → Except RoutingError Unit × RoutingTable
  | [], routes => (.ok (), routes)
  | range :: rest, routes =>
    match routes.add id range with
    | .error error => (.error error, routes)
    | .ok routes => addPrefixes id rest routes

structure Progress where
  routes : RoutingTable
  node : Node
  count : ℕ
  present : List PeerId := []

def applyWith (progress : Progress) (next : Incoming) (id : PeerId) (count : ℕ) :
    Except Diagnostic Unit × Progress :=
  let present := progress.present ++ [id]
  match addPrefixes id next.prefixes progress.routes with
  | (.error error, routes) =>
    (.error ⟨.routingConflict, routingErrorMessage error⟩, { progress with routes, count, present })
  | (.ok (), routes) =>
    match progress.node.addPeer { next.peer with id } with
    | (.error error, node) =>
      (.error ⟨.controlFailed, controlErrorMessage error⟩, ⟨routes, node, count, present⟩)
    | (.ok (), node) => (.ok (), ⟨routes, node, count, present⟩)

def applyPeer (progress : Progress) (next : Incoming) : Option (Except Diagnostic Unit × Progress) :=
  match searchPeer progress.node progress.count next.peer.staticPublic with
  | some id => some (applyWith progress next id progress.count)
  | none =>
    if kLastPeerId ≤ progress.count then none
    else some (applyWith progress next (UInt32.ofNat (progress.count + 1)) (progress.count + 1))

def applyAll : List Incoming → Progress → Option (Except Diagnostic Unit × Progress)
  | [], progress => some (.ok (), progress)
  | next :: rest, progress =>
    match applyPeer progress next with
    | none => none
    | some (.error diagnostic, progress) => some (.error diagnostic, progress)
    | some (.ok (), progress) => applyAll rest progress

variable (heap : HeapAlgorithms)

def reload (runtime : Runtime) (load : Except String Config) : Option (Except Diagnostic ℕ × Runtime) :=
  match runtime.stage load with
  | .error diagnostic => some (.error diagnostic, runtime)
  | .ok incoming =>
    match applyAll incoming ⟨runtime.routes.clearPeerRoutes, runtime.node, runtime.peerCount, []⟩ with
    | none => none
    | some (.error diagnostic, progress) =>
      some (.error diagnostic, { runtime with
        routes := progress.routes, node := progress.node, peerCount := progress.count })
    | some (.ok (), progress) =>
      let absent := ((List.range' 1 runtime.peerCount).map UInt32.ofNat).filter (· ∉ progress.present)
      some (.ok incoming.length, { runtime with
        routes := progress.routes
        node := absent.foldl (fun node peer => node.forgetPeer heap peer) progress.node
        peerCount := progress.count })

end Runtime

end Norr
