import Norr.Worker.Steps

/-! Whole runs of a node: any sequence of the calls its main loop makes, in any order. -/

namespace Norr

namespace Worker

inductive Call
  | setMtu (mtu : ℕ)
  | setTrafficProfile (profile : TrafficProfile)
  | enableFec (mode : Fec.FecMode)
  | enableQueueing (bytesPerSecond : ℚ) (burstBytes : ℕ) (now : Instant)
  | setPacingRate (bytesPerSecond : ℚ)
  | drainQueue (env : Env)
  | setRoutes (routes : RoutingTable)
  | routeFromTun (frame : Bytes) (batch : Bool) (env : Env)
  | flushTransmit (env : Env)
  | forwardFromTun (frame : Bytes) (env : Env)
  | pumpTunToUdp (frames : List (Bytes × Env)) (env : Env)
  | sendChaff (env : Env)
  | sendControl (peer : PeerId) (payload : Bytes) (copies : ℕ) (carrier : Carrier)
  | sendKeepalives (peers : List PeerId) (env : Env)
  | notePeerLoss (peer : PeerId) (env : Env)
  | flushFec (env : Env)
  | forwardFromTransport (source : Endpoint) (datagram : Bytes) (env : Env)
  | forwardSealed (source : Endpoint) (datagram : Bytes) (recovered : Bool) (env : Env)
  | pumpUdpToTun (batches : List (List InboundDatagram))
  | dispatchControl (inbound : InboundDatagram)
  | addPeer (peer : PeerConfig)
  | forgetPeer (peer : PeerId)
  | startHandshake (peer : PeerId) (env : Env)
  | expireTimers (now : Instant)
  | onTimers (events : List (TimerEvent × Draws)) (now : Instant)
  | takeExpiredKeepalives
  | setUnderLoad (value : Bool)
  | expireRetired (now : Instant)
  | removeSession (keyId : UInt16)

variable (crypto : Crypto) (heap : HeapAlgorithms)

def create (localStatic : KeyPair) : Worker := { node := Node.create crypto localStatic }

def call (worker : Worker) : Call → Worker
  | .setMtu mtu => worker.setMtu mtu
  | .setTrafficProfile profile => worker.setTrafficProfile profile
  | .enableFec mode => worker.enableFec mode
  | .enableQueueing bytesPerSecond burstBytes now => worker.enableQueueing bytesPerSecond burstBytes now
  | .setPacingRate bytesPerSecond => worker.setPacingRate bytesPerSecond
  | .drainQueue env => (worker.drainQueue env.carrier env.now).2
  | .setRoutes routes => { worker with routes }
  | .routeFromTun frame batch env => (worker.routeFromTun crypto heap frame batch env).2
  | .flushTransmit env => (worker.flushTransmit crypto env).2
  | .forwardFromTun frame env => (worker.forwardFromTun crypto heap frame env).2
  | .pumpTunToUdp frames env => (worker.pumpTunToUdp crypto heap frames env).2
  | .sendChaff env => (worker.sendChaff crypto env).2
  | .sendControl peer payload copies carrier => worker.sendControl crypto peer payload copies carrier
  | .sendKeepalives peers env => sendKeepalives crypto env worker peers
  | .notePeerLoss peer env => worker.notePeerLoss peer env
  | .flushFec env => worker.flushFec env
  | .forwardFromTransport source datagram env =>
    (worker.forwardFromTransport crypto heap source datagram env).2
  | .forwardSealed source datagram recovered env =>
    (worker.forwardSealed crypto heap source datagram recovered env).2
  | .pumpUdpToTun batches => (worker.pumpUdpToTun crypto heap batches).2
  | .dispatchControl inbound => (worker.dispatchControl crypto heap inbound).2
  | .addPeer peer => { worker with node := (worker.node.addPeer peer).2 }
  | .forgetPeer peer => { worker with node := worker.node.forgetPeer heap peer }
  | .startHandshake peer env =>
    { worker with node := (worker.node.startHandshake crypto heap peer env.draws env.now).2 }
  | .expireTimers now =>
    { worker with node := { worker.node with wheel := (worker.node.wheel.expire heap now).2 } }
  | .onTimers events now => { worker with node := (Node.onTimers crypto heap now events worker.node).2 }
  | .takeExpiredKeepalives => { worker with node := worker.node.takeExpiredKeepalives.2 }
  | .setUnderLoad value => { worker with node := worker.node.setUnderLoad value }
  | .expireRetired now =>
    { worker with node := { worker.node with table := worker.node.table.expireRetired now } }
  | .removeSession keyId =>
    { worker with node := { worker.node with table := worker.node.table.remove keyId } }

def run (worker : Worker) (calls : List Call) : Worker := calls.foldl (call crypto heap) worker

variable {crypto : Crypto} {heap : HeapAlgorithms}

theorem call_moves (worker : Worker) (action : Call) :
    Moves crypto worker.view (worker.call crypto heap action).view := by
  cases action with
  | setMtu | setTrafficProfile | enableQueueing | setRoutes | takeExpiredKeepalives | setUnderLoad | expireTimers =>
    exact .refl _
  | expireRetired now =>
    exact accounts_moves .refl fun wired => wired.shrinks (worker.node.table.expireRetired_shrinks now)
  | enableFec => exact .of_streams fun _ _ => .nil
  | setPacingRate bytesPerSecond =>
    simp only [call, setPacingRate]
    split <;> exact .refl _
  | drainQueue env => exact drainQueue_moves worker env.carrier env.now
  | routeFromTun frame batch env => exact routeFromTun_moves worker frame batch env
  | flushTransmit env => exact flushTransmit_moves worker env
  | forwardFromTun frame env => exact forwardFromTun_moves worker frame env
  | pumpTunToUdp frames env => exact pumpTunToUdp_moves worker frames env
  | sendChaff env => exact sendChaff_moves worker env
  | sendControl peer payload copies carrier => exact sendControl_moves worker peer payload copies carrier
  | sendKeepalives peers env => exact sendKeepalives_moves env worker peers
  | notePeerLoss peer env => exact notePeerLoss_moves worker peer env
  | flushFec env => exact flushFec_moves worker env
  | forwardFromTransport source datagram env => exact forwardFromTransport_moves worker source datagram env
  | forwardSealed source datagram recovered env => exact forwardSealed_moves rfl
  | pumpUdpToTun batches => exact pumpUdpToTun_moves worker batches
  | dispatchControl inbound => exact dispatchControl_moves worker inbound
  | addPeer config =>
    have same := worker.node.addPeer_account config
    refine accounts_moves (same ▸ .refl) fun wired => ?_
    unfold Node.addPeer
    split_ifs <;> exact wired
  | forgetPeer peer =>
    refine accounts_moves (worker.node.forgetPeer_accounts peer) fun wired => ?_
    rw [Node.forgetPeer_frame]
    exact wired
  | startHandshake peer env =>
    have ran : Node.Ran heap env.now False _ worker.node _
      (worker.node.startHandshake crypto heap peer env.draws env.now).2 := Node.startHandshake_ran rfl
    exact ran_moves ran
  | onTimers events now =>
    have ran : Node.Ran heap now False _ worker.node _ (Node.onTimers crypto heap now events worker.node).2 :=
      Node.onTimers_ran events worker.node
    exact ran_moves ran
  | removeSession keyId =>
    have same := worker.node.remove_account keyId
    exact accounts_moves (same ▸ .refl) fun wired => wired.shrinks (worker.node.table.remove_shrinks keyId)

theorem run_moves (worker : Worker) (calls : List Call) :
    Moves crypto worker.view (worker.run crypto heap calls).view :=
  .foldl view (call crypto heap) call_moves calls worker

theorem run_sound (worker : Worker) (sound : worker.ledger.Sound crypto) (calls : List Call) :
    (worker.run crypto heap calls).ledger.Sound crypto :=
  sound.steps ((run_moves worker calls).ledger sound.installed.keyed)

theorem create_sound (localStatic : KeyPair) (calls : List Call) :
    ((create crypto localStatic).run crypto heap calls).ledger.Sound crypto :=
  run_sound _ Ledger.sound_empty calls

end Worker

end Norr
