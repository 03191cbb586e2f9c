import Norr.Control.Forgetting

/-! After any calls a node's tables are within their limits, and it deals only with the peers it was given. -/

namespace Norr

open Crypto

variable {crypto : Crypto} {heap : HeapAlgorithms}

theorem TimerWheel.Reaches.bounded (lawful : heap.Lawful) {allowed : TimerEvent → Prop} {start wheel : TimerWheel}
    (reaches : Reaches heap allowed start wheel) (bounded : start.timers.length ≤ kMaximumTimers) :
    wheel.timers.length ≤ kMaximumTimers := by
  induction reaches with
  | refl => exact bounded
  | cancel kind subject _ ih =>
    rw [(cancel_timers lawful _ kind subject).length_eq]
    exact (List.length_filter_le _ _).trans ih
  | schedule event _ _ ih =>
    rcases schedule_cases lawful _ event.kind event.subject event.due with ⟨-, same⟩ | ⟨room, after, same, timers⟩
    · rwa [same]
    · rw [same, timers.length_eq]
      exact room

namespace Node

theorem bounded_preserved (lawful : heap.Lawful) : Preserves heap (fun _ => True)
    (fun node => node.Consistent ∧ node.wheel.timers.length ≤ kMaximumTimers) where
  step := by
    rintro now answering before after step ⟨consistent, bounded⟩
    refine ⟨(consistent_preserved lawful).step _ _ _ _ step consistent, ?_⟩
    cases step with
    | timers wheel reaches => exact reaches.bounded lawful bounded
    | _ => exact bounded
  add := by
    rintro node config - ⟨consistent, bounded⟩
    refine ⟨(consistent_preserved lawful).add node config trivial consistent, ?_⟩
    unfold addPeer
    split_ifs <;> exact bounded
  forget := by
    rintro node peer - ⟨consistent, bounded⟩
    have retimed : Retimed heap (fun _ => False) _ _ := retimed_forgetPeer node peer
    exact ⟨(consistent_preserved lawful).forget node peer trivial consistent, retimed.reaches.bounded lawful bounded⟩
  expire := by
    rintro node now ⟨consistent, bounded⟩
    have left := (TimerWheel.expire_spec lawful node.wheel now consistent.heaped).perm.length_eq
    rw [List.length_append] at left
    exact ⟨(consistent_preserved lawful).expire node now consistent, by dsimp only; omega⟩

theorem timers_bounded (lawful : heap.Lawful) (localStatic : KeyPair) (calls : List Call) :
    ((create crypto localStatic).run crypto heap calls).wheel.timers.length ≤ kMaximumTimers :=
  ((bounded_preserved lawful).run calls (fun _ _ => trivial)
    ⟨consistent_create crypto localStatic, Nat.zero_le _⟩).2

theorem tables_bounded (lawful : heap.Lawful) (localStatic : KeyPair) (calls : List Call) {node : Node}
    (reached : (create crypto localStatic).run crypto heap calls = node) :
    node.table.sessions.size ≤ kMaximumSessions ∧ node.plane.pending.size ≤ kMaximumPending ∧
      node.plane.provisional.size ≤ kMaximumPending ∧ node.wheel.timers.length ≤ kMaximumTimers := by
  subst reached
  obtain ⟨sessions, pending, provisional⟩ := (run_apart crypto heap localStatic calls).sizes
  exact ⟨sessions, pending, provisional, timers_bounded lawful localStatic calls⟩

theorem answered_bounded : ((create plain (plainPair 2)).run plain sortingHeap answeredOnce).wheel.timers.length ≤
    kMaximumTimers :=
  (tables_bounded sortingHeap_lawful (plainPair 2) answeredOnce rfl).2.2.2

/-- A peer that was never added has no session, no handshake, no timer and no keepalive. -/
theorem stranger_cut_off (lawful : heap.Lawful) (localStatic : KeyPair) (calls : List Call) (peer : PeerId)
    (never : ∀ config, Call.addPeer config ∈ calls → config.id ≠ peer) :
    CutOff peer ((create crypto localStatic).run crypto heap calls) := by
  have blank : CutOff peer (create crypto localStatic) := ⟨nofun, rfl, nofun, nofun, nofun, nofun, nofun, nofun⟩
  refine ((cutOff_preserved lawful peer).run calls (fun action member config same => ?_)
    ⟨consistent_create crypto localStatic, blank⟩).2
  exact never config (same ▸ member)

theorem answered_strangers : CutOff 8 ((create plain (plainPair 2)).run plain sortingHeap answeredOnce) := by
  refine stranger_cut_off sortingHeap_lawful _ _ 8 fun config member => ?_
  obtain rfl : config = callerPeer := by simpa [answeredOnce] using member
  decide

end Node

end Norr
