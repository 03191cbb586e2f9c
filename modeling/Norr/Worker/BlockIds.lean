import Norr.Worker.Guarantees

/-! The FEC blocks of a whole run: what each encoder of a Worker sends stays apart from what the encoders
before it have sent. -/

namespace Norr

open Fec

namespace Worker

variable {crypto : Crypto} {heap : HeapAlgorithms}

/-- While fewer than 2³² blocks were opened for a peer, packets with one block id are in one block of one
encoder, no pair of id and index is given twice, and the parity symbols of an id are code words of the
packets sent under it, and of no others. -/
theorem block_ids_never_reused (sized : crypto.Sized) (worker : Worker) (begins : worker.fecPeers = [])
    (calls : List Call) :
    ((worker.run crypto heap calls).fecPeers.map FecPeer.peer).Nodup ∧
      ∀ entry ∈ (worker.run crypto heap calls).fecPeers, entry.opened.length < 2 ^ 32 →
        (∀ (first second : ℕ) (block other : EncodedBlock), entry.opened[first]? = some block →
          entry.opened[second]? = some other → ∀ packet ∈ block.data, ∀ packet' ∈ other.data,
            packet.1.blockId = packet'.1.blockId → first = second) ∧
        ((entry.opened.flatMap EncodedBlock.data).map fun packet => (packet.1.blockId, packet.1.index)).Nodup ∧
        ∀ symbol ∈ entry.opened.flatMap EncodedBlock.parity, ∃ header payload,
          symbol = serializeFecHeader header ++ payload ∧ header.parity = true ∧
            header.blockSize.toNat = (entry.under header.blockId).length ∧
            vec payload = codeword (entry.under header.blockId) header.index.toNat := by
  have final : Streams (worker.run crypto heap calls).fecPeers :=
    (run_moves worker calls).streams sized (show Streams worker.fecPeers from begins ▸ .nil)
  refine ⟨final.single, fun entry member few => ?_⟩
  have sound := final.sound entry member
  refine ⟨?_, sound.pairs_nodup few, fun symbol present => sound.parity few present⟩
  intro first second block other here there packet inside packet' inside' same
  exact sound.apart few here there inside inside' same

/-! A sender whose encoder is replaced twice: the first plan is not active, the others have blocks of two
packets and of one. -/

def decided (plan : FecPlan) : Call := .notePeerLoss 7 { plainEnv with decision := some plan }

def replanCalls : List Call :=
  [.enableFec .automatic, .forwardFromTun sampleFrame plainEnv, decided { data := 2, parity := 1 },
    .forwardFromTun sampleFrame plainEnv, .routeFromTun sampleFrame false plainEnv,
    decided { data := 1, parity := 2, lanes := 2 }, .forwardFromTun sampleFrame plainEnv]

theorem replanned_pairs_apart :
    ∃ entry ∈ ((sample 1 sendCalls).run Crypto.plain sortingHeap replanCalls).fecPeers, entry.opened.length = 14 ∧
      ((entry.opened.flatMap EncodedBlock.data).map fun packet => (packet.1.blockId, packet.1.index)).Nodup := by
  have present : ((sample 1 sendCalls).run Crypto.plain sortingHeap replanCalls).fecPeers.any
      (·.opened.length = 14) = true := by decide +kernel
  obtain ⟨entry, member, opened⟩ := List.any_eq_true.mp present
  have length : entry.opened.length = 14 := of_decide_eq_true opened
  have begins : (sample 1 sendCalls).fecPeers = [] := List.isEmpty_iff.mp (by decide +kernel)
  have few : entry.opened.length < 2 ^ 32 := by omega
  exact ⟨entry, member, length,
    ((block_ids_never_reused Crypto.plain_sized _ begins replanCalls).2 entry member few).2.1⟩

end Worker

end Norr
