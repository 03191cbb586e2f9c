import Norr.Control.Effects
import Norr.Crypto.Transcript

/-! Responses that no pending handshake authenticates leave the control plane as it was. -/

namespace Norr

namespace Node

open Fallible

/-- A response that read_message_2 refuses for every pending handshake. -/
def refusesResponse (crypto : Crypto) (node : Node) (datagram : Bytes) : Bool :=
  match parseHandshakeFrame datagram with
  | .error _ => false
  | .ok frame =>
    frame.message = .response && node.plane.pending.entries.all fun entry =>
      entry.2.handshake.all fun handshake =>
        !(exec (NoiseHandshake.readMessage2 crypto frame.noiseMessage kHandshakePayloadSize)
          handshake).1.isOk

structure Received where
  source : Endpoint
  datagram : Bytes
  draws : Draws
  now : Instant

variable (crypto : Crypto) (heap : HeapAlgorithms)

def handleAll (node : Node) (received : List Received) : Node :=
  received.foldl (fun node message =>
    (node.handleDatagram crypto heap message.source message.datagram message.draws message.now).2) node

variable {crypto : Crypto} {heap : HeapAlgorithms}

theorem setPending_same {node : Node} {peer : PeerId} {entry : Pending} {handshake : NoiseHandshake}
    (found : node.plane.pending.lookup peer = some entry) (own : entry.handshake = some handshake) :
    node.setPending peer { entry with handshake := some handshake } = node := by
  rw [← own, setPending, AList.put_same _ found]

/-- The loop over pending_ finds nobody, and has restored every entry it tried. -/
theorem acceptResponse_refused {source : Endpoint} {frame : HandshakeFrameView} {clock : Instant}
    {entries : List (Sigma fun _ : PeerId => Pending)} {node : Node} (visits : Visits node entries)
    (refused : ∀ entry ∈ entries, ∀ handshake, entry.2.handshake = some handshake →
      (exec (NoiseHandshake.readMessage2 crypto frame.noiseMessage kHandshakePayloadSize)
        handshake).1.isOk = false) :
    acceptResponse crypto heap source frame clock entries node = (.error .notPending, node) := by
  induction entries with
  | nil => rfl
  | cons head rest ih =>
    obtain ⟨peer, entry⟩ := head
    obtain ⟨first, others⟩ := List.forall_mem_cons.mp refused
    have skipped := ih visits.tail others
    simp only [acceptResponse]
    split
    · rename_i handshake cookies own _
      split_ifs
      · exact skipped
      · split
        · rename_i failed
          rw [NoiseHandshake.readMessage2_error failed, setPending_same visits.head own]
          exact skipped
        · rename_i read
          have failed := first handshake own
          rw [read] at failed
          cases failed
    · exact skipped

theorem handleDatagram_refused {node : Node} {source : Endpoint} {datagram : Bytes} {draws : Draws}
    {now : Instant} (refuses : node.refusesResponse crypto datagram = true) :
    (node.handleDatagram crypto heap source datagram draws now).2 = node := by
  unfold refusesResponse at refuses
  unfold handleDatagram
  split_ifs
  · rfl
  · cases parsed : parseHandshakeFrame datagram with
    | error error => simp [parsed] at refuses
    | ok frame =>
      rw [parsed] at refuses
      dsimp only at refuses ⊢
      rw [Bool.and_eq_true, decide_eq_true_eq, List.all_eq_true] at refuses
      obtain ⟨response, refused⟩ := refuses
      simp only [response, handleResponse]
      split_ifs
      · rfl
      · rw [acceptResponse_refused (visits_all node)]
        intro entry member handshake own
        have failed := refused entry member
        rw [own, Option.all_some, Bool.not_eq_true'] at failed
        exact failed

/-- However many of them arrive, from wherever: the node is the same, and so is all it does next. -/
theorem forged_responses_change_nothing (node : Node) (forged : List Received)
    (refused : ∀ message ∈ forged, node.refusesResponse crypto message.datagram = true) :
    (node.handleAll crypto heap forged).table = node.table ∧
      (node.handleAll crypto heap forged).plane.pending = node.plane.pending ∧
      ∀ source genuine draws now,
        (node.handleAll crypto heap forged).handleDatagram crypto heap source genuine draws now =
          node.handleDatagram crypto heap source genuine draws now := by
  have same : node.handleAll crypto heap forged = node := by
    induction forged with
    | nil => rfl
    | cons message rest ih =>
      obtain ⟨first, others⟩ := List.forall_mem_cons.mp refused
      calc node.handleAll crypto heap (message :: rest)
          = (node.handleDatagram crypto heap message.source message.datagram message.draws
              message.now).2.handleAll crypto heap rest := rfl
        _ = node.handleAll crypto heap rest := by rw [handleDatagram_refused first]
        _ = node := ih others
  rw [same]
  exact ⟨rfl, rfl, fun _ _ _ _ => rfl⟩

/-- A backend that checks the tag it has put. -/
def tagged : Crypto :=
  { Crypto.plain with
    aeadDecrypt := fun _ _ _ ciphertext =>
      if ciphertext.drop (ciphertext.length - 16) = List.replicate 16 0 then
        some (ciphertext.take (ciphertext.length - 16))
      else none }

def dialling : Node :=
  (startHandshake tagged sortingHeap ((create tagged (Crypto.plainPair 1)).addPeer plainPeer).2 7 plainDraws
    0).2

/-- Its first MAC is right, its tag is not. -/
def forgedResponse : Bytes := envelope .response 64 ++ List.replicate 64 9 ++ List.replicate 32 0

theorem forged_responses_change_nothing_dialling : dialling.plane.pending.size = 1 ∧
    dialling.refusesResponse tagged forgedResponse = true ∧
    (dialling.handleAll tagged sortingHeap (List.replicate 3 ⟨{}, forgedResponse, plainDraws, 0⟩)).table =
      dialling.table := by
  refine ⟨by decide +kernel, by decide +kernel, ?_⟩
  refine (forged_responses_change_nothing dialling _ fun message member => ?_).1
  rw [List.eq_of_mem_replicate member]
  decide +kernel

end Node

end Norr
