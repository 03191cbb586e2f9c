import Norr.Worker.Runs

/-! What the data plane guarantees in every state a node can reach: no nonce is used twice, no packet
is delivered twice, and nothing unauthenticated or unauthorised reaches the TUN device. -/

namespace Norr

open Delivery

namespace Worker

def Reachable (crypto : Crypto) (heap : HeapAlgorithms) (worker : Worker) : Prop :=
  ∃ localStatic calls, worker = (create crypto localStatic).run crypto heap calls

variable {crypto : Crypto} {heap : HeapAlgorithms} {worker : Worker}

theorem Reachable.sound (reachable : Reachable crypto heap worker) : worker.ledger.Sound crypto := by
  obtain ⟨localStatic, calls, rfl⟩ := reachable
  exact create_sound localStatic calls

/-! A link of two nodes to try the results on: node 1 dials and sends a frame, node 2 answers. -/

def plainEnv : Env := { draws := plainDraws, carrier := ⟨(some ·.length)⟩ }

/-- An IPv4 packet from 10.0.0.1 to 10.0.0.2. -/
def sampleFrame : Bytes := [0x45, 0, 0, 20, 0, 0, 0, 0, 64, 17, 0, 0, 10, 0, 0, 1, 10, 0, 0, 2]

def hostRoute (host : UInt8) (peer : PeerId) : RoutingTable where
  entries := [⟨⟨Address.fromBytes .ipv4 [10, 0, 0, host], 32⟩, peer⟩]
  sorted := List.pairwise_singleton _ _

def samplePeer (id : PeerId) (octet : UInt8) : PeerConfig :=
  { id, staticPublic := (Crypto.plainPair octet).publicKey, endpoint := some {} }

def sample (octet : UInt8) (calls : List Call) : Worker :=
  (create Crypto.plain (Crypto.plainPair octet)).run Crypto.plain sortingHeap calls

theorem sample_reachable (octet : UInt8) (calls : List Call) :
    Reachable Crypto.plain sortingHeap (sample octet calls) :=
  ⟨_, calls, rfl⟩

def dispatchAll (datagrams : List OutboundDatagram) : List Call :=
  datagrams.map fun datagram => .dispatchControl ⟨{}, datagram.payload, plainEnv⟩

def dialCalls : List Call :=
  [.addPeer (samplePeer 7 2), .setRoutes (hostRoute 2 7), .routeFromTun sampleFrame true plainEnv]

def answerCalls : List Call :=
  [.addPeer (samplePeer 9 1), .setRoutes (hostRoute 1 9)] ++ dispatchAll (sample 1 dialCalls).outbox

/-- The answer makes node 1 send a keepalive; then it sends the frame. -/
def sendCalls : List Call :=
  dialCalls ++ dispatchAll (sample 2 answerCalls).outbox ++
    [.routeFromTun sampleFrame true plainEnv, .flushTransmit plainEnv]

/-- The keepalive promotes the session of node 2. -/
def receiveCalls : List Call :=
  answerCalls ++ ((sample 1 sendCalls).outbox.drop 1).map fun datagram =>
    .forwardFromTransport {} datagram.payload plainEnv

/-- Every session is made of a handshake of its own. -/
theorem Reachable.installed (reachable : Reachable crypto heap worker) :
    (worker.node.table.heap.map Session.keys).Subperm (worker.node.completed.map NoiseResult.keys) :=
  (List.sublist_append_left _ _).subperm.trans reachable.sound.installed.keys

theorem sealings_distinct (reachable : Reachable crypto heap worker)
    (distinct : (worker.node.completed.map NoiseResult.send).Nodup) :
    (worker.sealed.map fun sealing => (sealing.key, sealing.counter)).Nodup := by
  have spent := reachable.sound.spent
  have sends : (worker.node.table.heap.map Session.sendKey).Nodup := by
    have sub := List.subperm_map Prod.fst reachable.installed
    rw [List.map_map, List.map_map] at sub
    exact Multiset.nodup_of_le (Multiset.coe_le.mpr sub) distinct
  have uses : (worker.sealed.map Sealing.use).Nodup := spent.distinct.sublist (List.sublist_append_left _ _)
  rw [List.Nodup, List.pairwise_map] at uses ⊢
  refine uses.imp_of_mem fun {first second} member otherMember differ same => differ ?_
  obtain ⟨session, found, key⟩ := spent.keyed first member
  obtain ⟨other, otherFound, otherKey⟩ := spent.keyed second otherMember
  have keys : first.key = second.key := congrArg Prod.fst same
  have place := List.place_unique Session.sendKey sends found otherFound (by rw [key, otherKey, keys])
  have counters : first.counter = second.counter := congrArg Prod.snd same
  exact Prod.ext place counters

/-- No two calls of TrafficKeys::seal share key and nonce. The counters of one session are distinct and
below kRejectAfterMessages, distinct counters have distinct nonces, and a handshake becomes at most
one session. -/
theorem nonces_never_reused (reachable : Reachable crypto heap worker)
    (distinct : (worker.node.completed.map NoiseResult.send).Nodup) :
    (worker.sealed.map fun sealing => (sealing.key, makeNonce sealing.counter)).Nodup ∧
      (worker.sealed.map fun sealing => (sealing.key, sealing.counter)).Nodup ∧
      worker.ledger.uses.Nodup ∧ (∀ use ∈ worker.ledger.uses, use.2 < kRejectAfterMessages) ∧
      (worker.node.table.heap.map Session.keys).Subperm (worker.node.completed.map NoiseResult.keys) := by
  have spent := reachable.sound.spent
  have sealings := sealings_distinct reachable distinct
  refine ⟨?_, sealings, spent.distinct, ?_, reachable.installed⟩
  · have nonces := sealings.map (f := Prod.map id makeNonce)
      (Function.injective_id.prodMap makeNonce_injective)
    rwa [List.map_map] at nonces
  · intro use member
    obtain ⟨session, found, below⟩ := spent.issued use member
    exact UInt64.lt_of_lt_of_le below (spent.proper session (List.mem_of_getElem? found)).limit

theorem nonces_never_reused_sample : (sample 1 sendCalls).sealed.length = 2 ∧
    ((sample 1 sendCalls).sealed.map fun sealing => (sealing.key, makeNonce sealing.counter)).Nodup :=
  ⟨by decide +kernel, (nonces_never_reused (sample_reachable 1 sendCalls) (by decide +kernel)).1⟩

/-- A key delivers a counter at most once for every handshake that produced the key. -/
theorem deliveries_count (reachable : Reachable crypto heap worker) (key : TrafficKey) (counter : UInt64) :
    (worker.deliveries.map fun delivery => (delivery.key, delivery.counter)).count (key, counter) ≤
      (worker.node.completed.map NoiseResult.receive).count key := by
  have delivered := reachable.sound.delivered
  let same := worker.deliveries.filter fun delivery => (delivery.key, delivery.counter) == (key, counter)
  have matching : ∀ delivery ∈ same, delivery ∈ worker.deliveries ∧ delivery.key = key ∧
      delivery.counter = counter := by
    intro delivery member
    obtain ⟨inside, agrees⟩ := List.mem_filter.mp member
    have pair := eq_of_beq agrees
    exact ⟨inside, congrArg Prod.fst pair, congrArg Prod.snd pair⟩
  have distinct : (same.map session).Nodup := by
    have uses : (same.map use).Nodup :=
      delivered.distinct.sublist (List.filter_sublist.map use)
    rw [List.Nodup, List.pairwise_map] at uses ⊢
    refine uses.imp_of_mem fun {first second} member otherMember differ place => differ ?_
    have counters : first.counter = second.counter :=
      (matching first member).2.2.trans (matching second otherMember).2.2.symm
    exact Prod.ext place counters
  have found : ∀ place ∈ same.map session,
      (worker.node.table.heap.map Session.receiveKey)[place]? = some key := by
    intro place member
    obtain ⟨delivery, chosen, rfl⟩ := List.mem_map.mp member
    obtain ⟨inside, agrees, -⟩ := matching delivery chosen
    obtain ⟨session, opened, receives, -⟩ := delivered.opened delivery inside
    have place : worker.node.table.heap[delivery.session]? = some session := opened
    rw [List.getElem?_map, place, Option.map_some, receives, agrees]
  have handshakes := List.subperm_map Prod.snd reachable.installed
  rw [List.map_map, List.map_map] at handshakes
  calc
    _ = (same.map session).length := by
      rw [List.length_map, List.count_eq_countP, List.countP_map, List.countP_eq_length_filter]
      rfl
    _ ≤ (worker.node.table.heap.map Session.receiveKey).count key := List.places_le_count distinct found
    _ ≤ (worker.node.completed.map NoiseResult.receive).count key := handshakes.count_le key

/-- The window of the session that delivered a packet refuses its counter from then on. -/
theorem delivery_refused (reachable : Reachable crypto heap worker) {delivery : Delivery}
    (member : delivery ∈ worker.deliveries) :
    ∃ session, worker.node.table.heap[delivery.session]? = some session ∧
      session.receiveKey = delivery.key ∧ (session.replay.accept delivery.counter).1 ≠ .accepted := by
  have delivered := reachable.sound.delivered
  obtain ⟨session, found, key, -⟩ := delivered.opened delivery member
  obtain ⟨history, holds, known⟩ := delivered.recorded delivery.session session found
  refine ⟨session, found, key, fun accepted => ?_⟩
  have fresh := ((ReplayWindow.accept_accepted_iff holds delivery.counter).mp accepted).1
  exact fresh (known delivery member rfl)

/-- A promoted session stands in the table with the counter of the packet that promoted it. -/
theorem promoted_refuses (reachable : Reachable crypto heap worker) {view : PacketView}
    {packet plaintext : Bytes} {room : ℕ} {source : Endpoint} {now : Instant} {after : Node}
    (ran : worker.node.tryPromoteProvisional crypto heap view packet room source now = (.ok plaintext, after)) :
    ∃ ref session, after.table.findByKeyId view.header.keyId = some ref ∧
      after.table.get ref = some session ∧
      (session.replay.accept view.header.counter).1 ≠ .accepted := by
  obtain ⟨entry, session, promoted⟩ := Node.tryPromoteProvisional_ok ran
  have keyId := reachable.sound.installed.keyed view.header.keyId entry promoted.held
  refine ⟨worker.node.table.heap.length, session, keyId ▸ promoted.reachable, ?_, ?_⟩
  · rw [SessionTable.get, promoted.installed, List.getElem?_concat_length]
  · obtain ⟨history, holds, -, accepted⟩ := Ledger.holds_accept ReplayWindow.holds_fresh view.header.counter
    rw [promoted.recorded]
    intro again
    exact ((ReplayWindow.accept_accepted_iff holds _).mp again).1 (accepted rfl).2

/-- At-most-once delivery: no session delivers a counter twice, so a traffic key delivers it at most
once for each handshake that produced the key, and what promoted a session counts as delivered. -/
theorem deliveries_at_most_once (reachable : Reachable crypto heap worker) :
    (worker.deliveries.map use).Nodup ∧
      (∀ key counter,
        (worker.deliveries.map fun delivery => (delivery.key, delivery.counter)).count (key, counter) ≤
          (worker.node.completed.map NoiseResult.receive).count key) ∧
      ((worker.node.completed.map NoiseResult.receive).Nodup →
        (worker.deliveries.map fun delivery => (delivery.key, delivery.counter)).Nodup) ∧
      (∀ delivery ∈ worker.deliveries, ∃ session,
        worker.node.table.heap[delivery.session]? = some session ∧ session.receiveKey = delivery.key ∧
          (session.replay.accept delivery.counter).1 ≠ .accepted) ∧
      ∀ view packet room source now plaintext after,
        worker.node.tryPromoteProvisional crypto heap view packet room source now = (.ok plaintext, after) →
        ∃ ref session, after.table.findByKeyId view.header.keyId = some ref ∧
          after.table.get ref = some session ∧
          (session.replay.accept view.header.counter).1 ≠ .accepted := by
  refine ⟨reachable.sound.delivered.distinct, deliveries_count reachable, fun distinct => ?_,
    fun delivery member => delivery_refused reachable member,
    fun view packet room source now plaintext after ran => promoted_refuses reachable ran⟩
  rw [List.nodup_iff_count_le_one] at distinct ⊢
  intro use
  exact (deliveries_count reachable use.1 use.2).trans (distinct use.1)

theorem deliveries_at_most_once_sample : (sample 2 receiveCalls).deliveries.length = 2 ∧
    ((sample 2 receiveCalls).deliveries.map use).Nodup :=
  ⟨by decide +kernel, (deliveries_at_most_once (sample_reachable 2 receiveCalls)).1⟩

theorem innerPacket_ok {routes : RoutingTable} {peer : PeerId} {plaintext packet : Bytes}
    (known : peer ≠ kNoPeer) (inner : innerPacket routes peer plaintext = .ok packet) :
    packet <+: plaintext ∧ declaredIpLength plaintext = some packet.length ∧
      ∃ ip, parseIpPacket packet = .ok ip ∧ routes.Admits ip peer := by
  unfold innerPacket at inner
  split at inner
  · cases inner
  rename_i declared length
  split_ifs at inner with short
  split at inner
  · cases inner
  rename_i ip parsed
  dsimp only at inner
  split_ifs at inner with accepted
  cases inner
  refine ⟨List.take_prefix _ _, ?_, ip, parsed, RoutingTable.classify_accepted known accepted⟩
  rw [length, List.length_take, Nat.min_eq_left (not_lt.mp short)]

/-- Whatever is handed to the TUN device is the packet, of the length it declares, of a plaintext that
a session's key authenticated under a counter the session had not delivered, and the routes in force
admit it from the peer of that session. -/
theorem handed_admitted (reachable : Reachable crypto heap worker) {earlier later : List Delivery}
    {delivery : Delivery} {packet : Bytes}
    (history : worker.deliveries = earlier ++ delivery :: later) (handed : delivery.handed = some packet) :
    (∃ session view room, worker.node.table.heap[delivery.session]? = some session ∧
      session.receiveKey = delivery.key ∧ session.peer = delivery.peer ∧
      parsePacket delivery.packet = .ok view ∧ view.header.counter = delivery.counter ∧
      crypto.open session.receiveKey delivery.counter (delivery.packet.take kPacketHeaderSize)
        view.payload room = .ok delivery.plaintext) ∧
      (∀ past ∈ earlier, past.session = delivery.session → past.counter ≠ delivery.counter) ∧
      packet <+: delivery.plaintext ∧ declaredIpLength delivery.plaintext = some packet.length ∧
      ∃ ip, parseIpPacket packet = .ok ip ∧ delivery.routes.Admits ip delivery.peer ∧
        (delivery.routes.lookup ip.destination ≠ kNoPeer →
          delivery.routes.Resolves ip.destination (delivery.routes.lookup ip.destination)) := by
  have delivered := reachable.sound.delivered
  have member : delivery ∈ worker.deliveries := by
    rw [history]
    exact List.mem_append_right _ List.mem_cons_self
  obtain ⟨session, found, key, peer⟩ := delivered.opened delivery member
  obtain ⟨⟨view, room, parsed, counter, -, opened⟩, outcome⟩ := delivered.genuine delivery member
  have known : delivery.peer ≠ kNoPeer := by
    rw [← peer]
    exact (reachable.sound.spent.proper session (List.mem_of_getElem? found)).peer
  have inner : innerPacket delivery.routes delivery.peer delivery.plaintext = .ok packet := by
    rw [handed] at outcome
    split_ifs at outcome
    cases result : innerPacket delivery.routes delivery.peer delivery.plaintext with
    | error reason => simp [result, Except.toOption] at outcome
    | ok inside => simp_all [Except.toOption]
  obtain ⟨inside, length, ip, parses, admits⟩ := innerPacket_ok known inner
  refine ⟨⟨session, view, room, found, key, peer, parsed, counter, key ▸ opened⟩, ?_, inside, length, ip,
    parses, admits, delivery.routes.lookup_resolves ip.destination⟩
  intro past before place same
  have distinct : (worker.deliveries.map use).Nodup := delivered.distinct
  rw [history, List.map_append, List.nodup_append] at distinct
  have differ := distinct.2.2 past.use (List.mem_map_of_mem before) delivery.use List.mem_cons_self
  exact differ (Prod.ext place same)

theorem handed_admitted_sample : ∃ earlier delivery,
    (sample 2 receiveCalls).deliveries = earlier ++ [delivery] ∧ delivery.handed = some sampleFrame ∧
      ∃ ip, parseIpPacket sampleFrame = .ok ip ∧ delivery.routes.Admits ip delivery.peer := by
  have handed : (sample 2 receiveCalls).deliveries.map handed = [none] ++ [some sampleFrame] := by
    decide +kernel
  obtain ⟨earlier, last, split, -, single⟩ := List.map_eq_append_iff.mp handed
  obtain ⟨delivery, rfl, handed⟩ := List.map_eq_singleton_iff.mp single
  obtain ⟨-, -, -, -, ip, parsed, admits, -⟩ :=
    handed_admitted (sample_reachable 2 receiveCalls) split handed
  exact ⟨earlier, delivery, split, handed, ip, parsed, admits⟩

end Worker

end Norr
