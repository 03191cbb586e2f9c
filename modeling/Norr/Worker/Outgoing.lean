import Norr.Qos.Conservation
import Norr.Worker.ControlSteps

/-! What a Worker hands to its carrier, and what the ledger, the FEC streams and the queues of a Worker
become in the course of a call. -/

namespace Norr

open Fec

/-- The octets of a FEC symbol. -/
def IsSymbol (bytes : Bytes) : Prop := ∃ header body, bytes = serializeFecHeader header ++ body

/-- What the program emits: handshake frames, sealed data and control packets, and FEC symbols. -/
inductive Emitted (crypto : Crypto) (bytes : Bytes) : Prop
  | handshake : Node.Framed bytes → Emitted crypto bytes
  | packet (session : Session) (type : FrameType) (counter : UInt64) (plaintext : Bytes) (room : ℕ) :
      type = .data ∨ type = .control → session.sealReserved crypto type counter plaintext room = .ok bytes →
      Emitted crypto bytes
  | symbol : IsSymbol bytes → Emitted crypto bytes

namespace Fec.FecEncoder

theorem emit_symbols (encoder : FecEncoder) (lane : Fin 4) (rows : ℕ) :
    ∀ symbol ∈ (encoder.emit lane rows).2, IsSymbol symbol := by
  intro symbol member
  obtain ⟨row, -, rfl⟩ := List.mem_map.mp member
  exact ⟨_, _, rfl⟩

theorem add_symbols (encoder : FecEncoder) (packet : Bytes) :
    ∀ symbol ∈ (encoder.add packet).2, IsSymbol symbol := by
  simp only [add]
  split_ifs
  · simp
  · exact emit_symbols _ _ _
  · simp

theorem flush_symbols (encoder : FecEncoder) : ∀ symbol ∈ encoder.flush.2, IsSymbol symbol := by
  have flushed (lanes : List (Fin 4)) (state : FecEncoder × List Bytes)
      (symbols : ∀ symbol ∈ state.2, IsSymbol symbol) :
      ∀ symbol ∈ (lanes.foldl (fun (state : FecEncoder × List Bytes) lane =>
        ((state.1.flushLane lane).1, state.2 ++ (state.1.flushLane lane).2)) state).2, IsSymbol symbol := by
    induction lanes generalizing state with
    | nil => exact symbols
    | cons lane lanes ih =>
      refine ih _ (List.forall_mem_append.mpr ⟨symbols, ?_⟩)
      rw [flushLane]
      split_ifs
      · simp
      · exact emit_symbols _ _ _
  rw [flush]
  split_ifs
  · simp
  · exact flushed encoder.usedLanes (encoder, []) (by simp)

end Fec.FecEncoder

theorem Session.seal_ok {crypto : Crypto} {session after : Session} {type : FrameType} {plaintext wire : Bytes}
    {room : ℕ} (done : session.seal crypto type plaintext room = (.ok wire, after)) :
    ∃ counter, after.sealReserved crypto type counter plaintext room = .ok wire := by
  unfold Session.seal at done
  split_ifs at done
  · cases done
  · split at done
    · cases done
    · rename_i counter reserved _
      obtain ⟨sealed, rfl⟩ := Prod.mk.inj done
      exact ⟨counter, sealed⟩

theorem Session.sealReserved_sendable {crypto : Crypto} (sized : crypto.Sized) {session : Session}
    {type : FrameType} {counter : UInt64} {plaintext wire : Bytes}
    (done : session.sealReserved crypto type counter plaintext kEncryptBufferSize = .ok wire) : Sendable wire := by
  simp only [sealReserved] at done
  split_ifs at done with small large
  split at done
  · cases done
  · rename_i associated serialized
    split at done
    · cases done
    · cases done
    · rename_i ciphertext sealed
      cases done
      have header : associated.length = kPacketHeaderSize := by
        rw [(serializeHeader_ok serialized).1, headerBytes_length]
      have length : (associated ++ ciphertext).length = kPacketHeaderSize + (plaintext.length + kAeadTagSize) := by
        rw [List.length_append, header, sized.seal_length sealed]
      simp only [kEncryptBufferSize, kFrameBufferSize, kPacketHeaderSize, kAeadTagSize, kPaddingAlignment]
        at small length
      refine ⟨?_, by omega⟩
      intro empty
      rw [empty, List.length_nil] at length
      omega

namespace Worker

/-- Every peer has one stream, and each is sound. -/
structure Streams (peers : List FecPeer) : Prop where
  sound : ∀ entry ∈ peers, entry.toStream.Sound
  single : (peers.map FecPeer.peer).Nodup

theorem Streams.nil : Streams [] := ⟨by simp, by simp⟩

theorem Streams.set {peers : List FecPeer} (streams : Streams peers) {index : ℕ} {entry after : FecPeer}
    (found : peers[index]? = some entry) (peer : after.peer = entry.peer)
    (sound : entry.toStream.Sound → after.toStream.Sound) : Streams (peers.set index after) := by
  refine ⟨?_, ?_⟩
  · intro other member
    rcases List.mem_or_eq_of_mem_set member with old | rfl
    · exact streams.sound other old
    · exact sound (streams.sound entry (List.mem_of_getElem? found))
  · have same : (peers.set index after).map FecPeer.peer = peers.map FecPeer.peer := by
      rw [List.map_set, peer]
      apply List.ext_getElem?
      intro place
      rw [List.getElem?_set]
      split_ifs with here inside
      · rw [← here, List.getElem?_map, found]
        rfl
      · rw [← here, List.getElem?_eq_none (by omega)]
      · rfl
    rw [same]
    exact streams.single

theorem FecPeer.frame_sound {entry : FecPeer} (sound : entry.toStream.Sound)
    (active : entry.encoder.plan.active = true) {sealed : Bytes} (sendable : Sendable sealed)
    (destination : Endpoint) (now : Instant) : (FecPeer.frame entry sealed destination now).2.toStream.Sound := by
  have coded : (entry.code (.packet sealed)).Sound :=
    sound.code (show (FecStep.packet sealed).Fits entry.encoder from ⟨active, sendable⟩)
  have same : (FecPeer.frame entry sealed destination now).2.toStream = entry.code (.packet sealed) := by
    change { entry.code (.packet sealed) with encoder := (FecStep.output entry.encoder (.packet sealed)).1 } = _
    rw [← Stream.code_encoder]
  rwa [same]

theorem FecPeer.frame_symbols (entry : FecPeer) (sealed : Bytes) (destination : Endpoint) (now : Instant) :
    ∀ payload ∈ (FecPeer.frame entry sealed destination now).1, IsSymbol payload :=
  List.forall_mem_cons.mpr ⟨⟨_, _, rfl⟩, entry.encoder.add_symbols sealed⟩

def ledger (worker : Worker) : Ledger where
  sessions := worker.node.table.heap
  provisional := worker.node.plane.provisional
  completed := worker.node.completed
  reserved := worker.transmitJobs.map fun job => (job.session, job.counter)
  sealed := worker.sealed
  deliveries := worker.deliveries

/-- The part of a Worker that `Moves` is about. -/
structure View where
  ledger : Ledger
  index : AList (fun _ : UInt16 => SessionRef)
  fecPeers : List FecPeer
  outbox : List OutboundDatagram
  queues : TrafficClass → List QueuedPacket

def view (worker : Worker) : View :=
  ⟨worker.ledger, worker.node.table.sessions, worker.fecPeers, worker.outbox, worker.scheduler.queues⟩

def View.Wired (view : View) : Prop :=
  ∀ keyId ref, view.index.lookup keyId = some ref → ref < view.ledger.sessions.length

/-- All that has been handed to the carrier, and all that waits for it, is what the program emits. -/
structure View.Emits (crypto : Crypto) (view : View) : Prop where
  sent : ∀ datagram ∈ view.outbox, Emitted crypto datagram.payload
  queued : ∀ trafficClass, ∀ packet ∈ view.queues trafficClass, Emitted crypto packet.bytes

/-- What a call can do to a Worker. -/
structure Moves (crypto : Crypto) (before after : View) : Prop where
  ledger : before.ledger.Keyed → Ledger.Steps crypto before.ledger after.ledger
  streams : crypto.Sized → Streams before.fecPeers → Streams after.fecPeers
  emits : before.Emits crypto → after.Emits crypto
  wired : before.Wired → after.Wired

variable {crypto : Crypto}

theorem Moves.refl (view : View) : Moves crypto view view := 
  ⟨fun _ => .refl, fun _ kept => kept, fun kept => kept, fun wired => wired⟩

theorem Moves.trans {first second third : View} (early : Moves crypto first second)
    (late : Moves crypto second third) : Moves crypto first third where
  ledger keyed := (early.ledger keyed).trans (late.ledger (keyed.steps (early.ledger keyed)))
  streams sized kept := late.streams sized (early.streams sized kept)
  emits kept := late.emits (early.emits kept)
  wired kept := late.wired (early.wired kept)

theorem Moves.foldl {State Input : Type} (view : State → View) (act : State → Input → State)
    (step : ∀ state input, Moves crypto (view state) (view (act state input))) (inputs : List Input)
    (state : State) : Moves crypto (view state) (view (inputs.foldl act state)) := by
  induction inputs generalizing state with
  | nil => exact .refl _
  | cons input inputs ih => exact (step state input).trans (ih _)

section Parts

variable {index : AList fun _ : UInt16 => SessionRef} {fecPeers : List FecPeer} {outbox : List OutboundDatagram}
  {queues : TrafficClass → List QueuedPacket} {book : Ledger}

theorem Moves.of_ledger {before after : Ledger} (steps : Ledger.Steps crypto before after) :
    Moves crypto ⟨before, index, fecPeers, outbox, queues⟩ ⟨after, index, fecPeers, outbox, queues⟩ :=
  ⟨fun _ => steps, fun _ kept => kept, fun kept => ⟨kept.sent, kept.queued⟩,
    fun wired keyId ref found => steps.inside (wired keyId ref found)⟩

theorem Moves.of_streams {after : List FecPeer} (streams : crypto.Sized → Streams fecPeers → Streams after) :
    Moves crypto ⟨book, index, fecPeers, outbox, queues⟩ ⟨book, index, after, outbox, queues⟩ :=
  ⟨fun _ => .refl, streams, fun kept => ⟨kept.sent, kept.queued⟩, fun wired => wired⟩

theorem Moves.of_sent {batch : List OutboundDatagram}
    (emitted : ∀ datagram ∈ batch, Emitted crypto datagram.payload) :
    Moves crypto ⟨book, index, fecPeers, outbox, queues⟩ ⟨book, index, fecPeers, outbox ++ batch, queues⟩ :=
  ⟨fun _ => .refl, fun _ kept => kept,
    fun kept => ⟨List.forall_mem_append.mpr ⟨kept.sent, emitted⟩, kept.queued⟩, fun wired => wired⟩

theorem Moves.of_queues {after : TrafficClass → List QueuedPacket}
    (queued : (∀ trafficClass, ∀ packet ∈ queues trafficClass, Emitted crypto packet.bytes) →
      ∀ trafficClass, ∀ packet ∈ after trafficClass, Emitted crypto packet.bytes) :
    Moves crypto ⟨book, index, fecPeers, outbox, queues⟩ ⟨book, index, fecPeers, outbox, after⟩ :=
  ⟨fun _ => .refl, fun _ kept => kept, fun kept => ⟨kept.sent, queued kept.queued⟩, fun wired => wired⟩

end Parts

end Worker

end Norr
