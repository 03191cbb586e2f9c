import Norr.Worker.Batching

/-! In every state a node can reach its datagrams are what they look like, and its sessions never turn back. -/

namespace Norr

namespace Worker

open Fec

variable {crypto : Crypto} {heap : HeapAlgorithms} {worker : Worker}

/-- The receiver's tests of a datagram; one that passes neither is a packet. -/
def tests (bytes : Bytes) : Bool × Bool := (looksLikeHandshake bytes, looksLikeFecSymbol bytes)

/-- What is sent for a frame, with its macs if it has any. -/
def frameOctets (frame : HandshakeFrameView) : Bytes :=
  envelope frame.message frame.noiseMessage.length ++ frame.noiseMessage ++ frame.mac1 ++ frame.mac2

/-- What a datagram is, and that the receiver takes it for that. -/
inductive Recognised (crypto : Crypto) (bytes : Bytes) : Prop
  | handshake (frame : HandshakeFrameView) : bytes = frameOctets frame → parseHandshakeFrame bytes = .ok frame →
      tests bytes = (true, false) → Recognised crypto bytes
  | symbol : IsSymbol bytes → tests bytes = (false, true) → Recognised crypto bytes
  | packet (session : Session) (plaintext : Bytes) (room : ℕ) (view : PacketView) :
      session.sealReserved crypto view.header.type view.header.counter plaintext room = .ok bytes →
      parsePacket bytes = .ok view → tests bytes = (false, false) → Recognised crypto bytes

theorem recognised_of_emitted (sized : crypto.Sized) {bytes : Bytes} (emitted : Emitted crypto bytes) :
    Recognised crypto bytes := by
  cases emitted with
  | handshake framed =>
    obtain ⟨message, frames⟩ := framed
    have first : tests bytes = (true, false) := by
      rw [tests, looksLikeHandshake, looksLikeFecSymbol, frames.head]
      cases message <;> rfl
    cases frames with
    | bare body small => exact .handshake _ (by simp [frameOctets]) (parse_bare message body small) first
    | macs body mac1 mac2 small size1 size2 =>
      exact .handshake _ rfl (parse_framed message body mac1 mac2 small size1 size2) first
  | symbol symbol =>
    obtain ⟨header, body, rfl⟩ := symbol
    exact .symbol ⟨header, body, rfl⟩ rfl
  | packet session type counter plaintext room own done =>
    have sealed := done
    simp only [Session.sealReserved] at sealed
    split_ifs at sealed
    split at sealed
    · cases sealed
    · next associated serialized =>
      obtain ⟨rfl, valid, small⟩ := serializeHeader_ok serialized
      split at sealed
      · cases sealed
      · cases sealed
      · next ciphertext encrypted =>
        cases sealed
        rw [← sized.seal_length encrypted] at small done ⊢
        refine .packet session plaintext room _ done (parse_headerBytes _ valid ciphertext small) ?_
        change tests [(kProtocolVersion <<< 4) ||| type.code] = (false, false)
        rcases own with rfl | rfl <;> decide

/-- No datagram is taken for one of another kind. -/
theorem datagrams_recognised (sized : crypto.Sized) (reachable : Reachable crypto heap worker) :
    ∀ datagram ∈ worker.outbox, Recognised crypto datagram.payload := by
  obtain ⟨localStatic, calls, rfl⟩ := reachable
  have moves : Moves crypto _ ((create crypto localStatic).run crypto heap calls).view := run_moves _ calls
  exact fun datagram member => recognised_of_emitted sized ((moves.emits ⟨nofun, nofun⟩).sent datagram member)

theorem sample_recognised : (sample 1 sendCalls).outbox.length = 3 ∧
    ∀ datagram ∈ (sample 1 sendCalls).outbox, Recognised Crypto.plain datagram.payload :=
  ⟨by decide +kernel, datagrams_recognised Crypto.plain_sized (sample_reachable 1 sendCalls)⟩

variable {ref : SessionRef} {session : Session}

theorem steps_turn {before after : Ledger} (steps : Ledger.Steps crypto before after) (spent : before.Spent)
    (found : before.sessions[ref]? = some session) : ∃ later, after.sessions[ref]? = some later ∧
      later.peer = session.peer ∧ later.keys = session.keys ∧ Ledger.Proper later ∧ session.sent ≤ later.sent := by
  induction steps with
  | refl => exact ⟨session, found, rfl, rfl, spent.proper session (List.mem_of_getElem? found), UInt64.le_refl _⟩
  | tail _ step ih =>
    obtain ⟨middle, present, peer, keys, proper, grown⟩ := ih
    obtain ⟨later, stays, turns⟩ := step.renews.later present
    obtain ⟨proper, further⟩ := turns.proper proper
    exact ⟨later, stays, turns.peer.trans peer, turns.keys.trans keys, proper, UInt64.le_trans grown further⟩

/-- A session one holds never changes hands, and neither its counter nor its window falls back. -/
theorem sessions_never_turn_back (reachable : Reachable crypto heap worker) (calls : List Call)
    (found : worker.node.table.get ref = some session) :
    ∃ later, (worker.run crypto heap calls).node.table.get ref = some later ∧ later.peer = session.peer ∧
      later.keys = session.keys ∧ session.sent ≤ later.sent ∧ session.replay.highest ≤ later.replay.highest := by
  have sound := reachable.sound
  have steps : Ledger.Steps crypto worker.ledger (worker.run crypto heap calls).ledger :=
    (run_moves worker calls).ledger sound.installed.keyed
  obtain ⟨later, present, peer, keys, -, sent⟩ := steps_turn steps sound.spent found
  obtain ⟨other, same, risen⟩ := reachable.wellformed.orderly.rises steps found
  rw [present] at same
  cases same
  exact ⟨later, present, peer, keys, sent, risen⟩

theorem sample_never_turns_back : ∃ session later, (sample 1 sendCalls).node.table.get 0 = some session ∧
    ((sample 1 sendCalls).run Crypto.plain sortingHeap sendCalls).node.table.get 0 = some later ∧
      session.sent ≤ later.sent := by
  obtain ⟨session, found⟩ := Option.isSome_iff_exists.mp
    (by decide +kernel : ((sample 1 sendCalls).node.table.get 0).isSome)
  obtain ⟨later, present, -, -, sent, -⟩ := sessions_never_turn_back (sample_reachable 1 sendCalls) sendCalls found
  exact ⟨session, later, found, present, sent⟩

end Worker

end Norr
