import Norr.Control.Effects

/-! Whole runs of a control plane: any calls in any order, with the uses the Worker makes of the
sessions in between. -/

namespace Norr

open Session

/-- What the data path does to a session it has found in the table. -/
inductive SessionUse
  | reserve
  | receive (view : PacketView) (packet : Bytes) (room : ℕ) (now : Instant)
  | commit (counter : UInt64) (now : Instant)
  | noteEndpoint (endpoint : Endpoint)
  | noteRecovered

def Session.use (crypto : Crypto) (session : Session) : SessionUse → Session
  | .reserve => session.reserveCounter.2
  | .receive view packet room now => (session.open crypto view packet room now).2
  | .commit counter now => (session.commit counter now).2
  | .noteEndpoint endpoint => session.noteAuthenticatedEndpoint endpoint
  | .noteRecovered => session.noteRecovered

theorem Session.use_touches (crypto : Crypto) (action : SessionUse) :
    Touches (use crypto · action) := by
  intro session
  cases action with
  | reserve =>
    simp only [use, reserveCounter]
    split_ifs
    · exact ⟨rfl, rfl⟩
    · split <;> exact ⟨rfl, rfl⟩
  | receive view packet room now => exact Node.open_touches rfl
  | commit counter now =>
    simp only [use, commit]
    split <;> exact ⟨rfl, rfl⟩
  | noteEndpoint | noteRecovered => exact ⟨rfl, rfl⟩

namespace Node

inductive Call
  | addPeer (config : PeerConfig)
  | forgetPeer (peer : PeerId)
  | startHandshake (peer : PeerId) (draws : Draws) (now : Instant)
  | handleDatagram (source : Endpoint) (datagram : Bytes) (draws : Draws) (now : Instant)
  | tryPromoteProvisional (view : PacketView) (datagram : Bytes) (room : ℕ) (source : Endpoint)
      (clock : Instant)
  | expireTimers (now : Instant)
  | onTimers (events : List (TimerEvent × Draws)) (now : Instant)
  | takeExpiredKeepalives
  | setUnderLoad (value : Bool)
  | removeSession (keyId : UInt16)
  | expireRetired (now : Instant)
  | useSession (ref : SessionRef) (action : SessionUse)

variable (crypto : Crypto) (heap : HeapAlgorithms)

def call (node : Node) : Call → Node
  | .addPeer config => (node.addPeer config).2
  | .forgetPeer peer => node.forgetPeer heap peer
  | .startHandshake peer draws now => (node.startHandshake crypto heap peer draws now).2
  | .handleDatagram source datagram draws now =>
    (node.handleDatagram crypto heap source datagram draws now).2
  | .tryPromoteProvisional view datagram room source clock =>
    (node.tryPromoteProvisional crypto heap view datagram room source clock).2
  | .expireTimers now => { node with wheel := (node.wheel.expire heap now).2 }
  | .onTimers events now => (onTimers crypto heap now events node).2
  | .takeExpiredKeepalives => node.takeExpiredKeepalives.2
  | .setUnderLoad value => node.setUnderLoad value
  | .removeSession keyId => { node with table := node.table.remove keyId }
  | .expireRetired now => { node with table := node.table.expireRetired now }
  | .useSession ref action => { node with table := node.table.update ref (Session.use crypto · action) }

def run (node : Node) (calls : List Call) : Node := calls.foldl (call crypto heap) node

/-- Every call but these three is a sequence of steps. -/
def Call.Stepwise : Call → Prop
  | .addPeer _ | .forgetPeer _ | .expireTimers _ => False
  | _ => True

def Call.time : Call → Instant
  | .startHandshake _ _ now | .handleDatagram _ _ _ now | .onTimers _ now => now
  | _ => 0

variable {crypto : Crypto} {heap : HeapAlgorithms}

/-- Only handle_datagram answers initiations. -/
def Call.Answers : Call → Prop
  | .handleDatagram .. => True
  | _ => False

theorem call_steps (node : Node) {action : Call} (stepwise : action.Stepwise) :
    Steps heap action.time action.Answers node (node.call crypto heap action) := by
  cases action with
  | addPeer | forgetPeer | expireTimers => exact stepwise.elim
  | startHandshake peer draws now => exact (startHandshake_ran rfl).steps
  | handleDatagram source datagram draws now => exact (handleDatagram_ran rfl).steps
  | tryPromoteProvisional view datagram room source clock => exact tryPromoteProvisional_steps rfl
  | onTimers events now => exact (onTimers_ran events node).steps
  | takeExpiredKeepalives => exact .single (.due node [] (by simp))
  | setUnderLoad value => exact .single (.load node value)
  | removeSession keyId => exact .single (.remove node keyId)
  | expireRetired now => exact .single (.expireRetired node now)
  | useSession ref action => exact .single (.touch node ref _ (use_touches crypto action))

/-- A property that every step and the other three calls keep, as far as the calls are legal. -/
structure Preserves (heap : HeapAlgorithms) (legal : Call → Prop) (holds : Node → Prop) : Prop where
  step : ∀ now answering before after, Step heap now answering before after → holds before → holds after
  add : ∀ node config, legal (.addPeer config) → holds node → holds (node.addPeer config).2
  forget : ∀ node peer, legal (.forgetPeer peer) → holds node → holds (node.forgetPeer heap peer)
  expire : ∀ node now, holds node → holds { node with wheel := (node.wheel.expire heap now).2 }

variable {legal : Call → Prop} {holds : Node → Prop}

theorem Preserves.steps (preserves : Preserves heap legal holds) {now : Instant} {answering : Prop}
    {before after : Node} (steps : Steps heap now answering before after) (start : holds before) : holds after := by
  induction steps with
  | refl => exact start
  | tail _ step ih => exact preserves.step now answering _ _ step ih

theorem Preserves.call (preserves : Preserves heap legal holds) {node : Node} (action : Call)
    (allowed : legal action) (start : holds node) : holds (node.call crypto heap action) := by
  by_cases stepwise : action.Stepwise
  · exact preserves.steps (call_steps node stepwise) start
  · cases action with
    | addPeer config => exact preserves.add node config allowed start
    | forgetPeer peer => exact preserves.forget node peer allowed start
    | expireTimers now => exact preserves.expire node now start
    | _ => exact (stepwise trivial).elim

theorem Preserves.run (preserves : Preserves heap legal holds) (calls : List Call)
    (allowed : ∀ action ∈ calls, legal action) {node : Node} (start : holds node) :
    holds (node.run crypto heap calls) := by
  induction calls generalizing node with
  | nil => exact start
  | cons action calls ih =>
    obtain ⟨first, rest⟩ := List.forall_mem_cons.mp allowed
    exact ih rest (preserves.call action first start)

end Node

end Norr
