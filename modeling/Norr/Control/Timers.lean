import Mathlib.Data.List.Sort
import Norr.Common

/-! The TimerWheel of `timers.cpp`, over the standard library's heap algorithms. -/

namespace Norr

inductive TimerKind
  | handshakeTimeout
  | handshakeRetry
  | keepalive
  | rekey
  | sessionExpiry
  | pathProbe
  | deadPeer
  | provisionalTimeout
  deriving DecidableEq, Repr

structure TimerEvent where
  kind : TimerKind
  subject : UInt32
  due : Instant
  deriving DecidableEq, Repr

def kHandshakeTimeout : Duration := seconds 5

def kHandshakeRetryBase : Duration := milliseconds 500

def kHandshakeRetryMax : Duration := seconds 30

def kKeepaliveInterval : Duration := seconds 25

def kRekeyAfter : Duration := seconds 120

def kMaximumTimers : ℕ := 8192

def backoffLoop : ℕ → Duration → Duration
  | 0, delay => delay
  | steps + 1, delay => if delay < kHandshakeRetryMax then backoffLoop steps (delay * 2) else delay

def retryBackoff (attempt : UInt32) : Duration :=
  min (backoffLoop attempt.toNat kHandshakeRetryBase) kHandshakeRetryMax

/-- std::push_heap, std::pop_heap and std::make_heap under the comparison `later_first`. -/
structure HeapAlgorithms where
  pushHeap : List TimerEvent → List TimerEvent
  popHeap : List TimerEvent → List TimerEvent
  makeHeap : List TimerEvent → List TimerEvent

def IsHeap (events : List TimerEvent) : Prop :=
  ∀ index (inside : index < events.length), 0 < index →
    (events.get ⟨(index - 1) / 2, by omega⟩).due ≤ (events.get ⟨index, inside⟩).due

structure HeapAlgorithms.Lawful (heap : HeapAlgorithms) : Prop where
  push_perm : ∀ events, (heap.pushHeap events).Perm events
  push_heap : ∀ events event, IsHeap events → IsHeap (heap.pushHeap (events ++ [event]))
  pop_moves : ∀ first rest, IsHeap (first :: rest) → ∃ others,
    heap.popHeap (first :: rest) = others ++ [first] ∧ others.Perm rest ∧ IsHeap others
  make_perm : ∀ events, (heap.makeHeap events).Perm events
  make_heap : ∀ events, IsHeap (heap.makeHeap events)

structure TimerWheel where
  timers : List TimerEvent := []
  deriving DecidableEq, Repr

namespace TimerWheel

variable (heap : HeapAlgorithms)

def schedule (wheel : TimerWheel) (kind : TimerKind) (subject : UInt32) (due : Instant) :
    Bool × TimerWheel :=
  if kMaximumTimers ≤ wheel.timers.length then (false, wheel)
  else (true, ⟨heap.pushHeap (wheel.timers ++ [⟨kind, subject, due⟩])⟩)

def cancel (wheel : TimerWheel) (kind : TimerKind) (subject : UInt32) : TimerWheel :=
  let kept := wheel.timers.filter fun event => !(event.kind = kind && event.subject = subject)
  if kept.length < wheel.timers.length then ⟨heap.makeHeap kept⟩ else ⟨kept⟩

/-- The loop of expire; every turn takes one timer, so that their number bounds the turns. -/
def expireLoop (now : Instant) : ℕ → List TimerEvent → List TimerEvent → List TimerEvent × TimerWheel
  | 0, due, timers => (due, ⟨timers⟩)
  | turns + 1, due, timers =>
    match timers with
    | [] => (due, ⟨timers⟩)
    | first :: _ =>
      if first.due ≤ now then
        let popped := heap.popHeap timers
        expireLoop now turns (due ++ popped.getLast?.toList) popped.dropLast
      else (due, ⟨timers⟩)

def expire (wheel : TimerWheel) (now : Instant) : List TimerEvent × TimerWheel :=
  expireLoop heap now wheel.timers.length [] wheel.timers

variable {heap} in
theorem cancel_timers (lawful : heap.Lawful) (wheel : TimerWheel) (kind : TimerKind) (subject : UInt32) :
    (wheel.cancel heap kind subject).timers.Perm
      (wheel.timers.filter fun event => !(event.kind = kind && event.subject = subject)) := by
  simp only [cancel]
  split_ifs with removed
  · exact lawful.make_perm _
  · exact List.Perm.refl _

variable {heap} in
/-- The event is on the wheel, unless that is full. -/
theorem schedule_cases (lawful : heap.Lawful) (wheel : TimerWheel) (kind : TimerKind) (subject : UInt32)
    (due : Instant) :
    kMaximumTimers ≤ wheel.timers.length ∧ wheel.schedule heap kind subject due = (false, wheel) ∨
      wheel.timers.length < kMaximumTimers ∧ ∃ after, wheel.schedule heap kind subject due = (true, after) ∧
        after.timers.Perm (⟨kind, subject, due⟩ :: wheel.timers) := by
  unfold schedule
  split_ifs with full
  · exact .inl ⟨full, rfl⟩
  · exact .inr ⟨not_le.mp full, _, rfl, (lawful.push_perm _).trans (List.perm_append_singleton _ _)⟩

variable {heap} in
theorem mem_schedule (lawful : heap.Lawful) {wheel : TimerWheel} {kind : TimerKind} {subject : UInt32}
    {due : Instant} {event : TimerEvent} (member : event ∈ (wheel.schedule heap kind subject due).2.timers) :
    event ∈ wheel.timers ∨ event = ⟨kind, subject, due⟩ := by
  unfold schedule at member
  split_ifs at member
  · exact .inl member
  · simpa using (lawful.push_perm _).mem_iff.mp member

variable {heap} in
theorem schedule_keeps (lawful : heap.Lawful) {wheel : TimerWheel} (kind : TimerKind) (subject : UInt32)
    (due : Instant) : wheel.timers ⊆ (wheel.schedule heap kind subject due).2.timers := by
  intro event member
  rcases wheel.schedule_cases lawful kind subject due with ⟨-, same⟩ | ⟨-, after, same, timers⟩
  · rwa [same]
  · rw [same]
    exact timers.symm.subset (List.mem_cons_of_mem _ member)

variable {heap} in
theorem cancel_keeps (lawful : heap.Lawful) {wheel : TimerWheel} {kind : TimerKind} {subject : UInt32}
    {event : TimerEvent} (member : event ∈ wheel.timers) (other : event.kind = kind → event.subject ≠ subject) :
    event ∈ (wheel.cancel heap kind subject).timers := by
  rw [(cancel_timers lawful wheel kind subject).mem_iff, List.mem_filter]
  exact ⟨member, by simpa [imp_iff_not_or] using other⟩

/-- What a caller can do to a wheel: cancel, and schedule the events it is allowed to. -/
inductive Reaches (heap : HeapAlgorithms) (allowed : TimerEvent → Prop) (start : TimerWheel) :
    TimerWheel → Prop
  | refl : Reaches heap allowed start start
  | cancel {wheel : TimerWheel} (kind : TimerKind) (subject : UInt32) :
      Reaches heap allowed start wheel → Reaches heap allowed start (wheel.cancel heap kind subject)
  | schedule {wheel : TimerWheel} (event : TimerEvent) :
      Reaches heap allowed start wheel → allowed event →
        Reaches heap allowed start (wheel.schedule heap event.kind event.subject event.due).2

variable {heap} {allowed : TimerEvent → Prop}

theorem Reaches.trans {first second third : TimerWheel} (before : Reaches heap allowed first second)
    (after : Reaches heap allowed second third) : Reaches heap allowed first third := by
  induction after with
  | refl => exact before
  | cancel kind subject _ ih => exact .cancel kind subject ih
  | schedule event _ legal ih => exact .schedule event ih legal

theorem Reaches.mono {wider : TimerEvent → Prop} {start wheel : TimerWheel}
    (reaches : Reaches heap allowed start wheel) (implies : ∀ event, allowed event → wider event) :
    Reaches heap wider start wheel := by
  induction reaches with
  | refl => exact .refl
  | cancel kind subject _ ih => exact .cancel kind subject ih
  | schedule event _ legal ih => exact .schedule event ih (implies event legal)

theorem Reaches.mem (lawful : heap.Lawful) {start wheel : TimerWheel}
    (reaches : Reaches heap allowed start wheel) {event : TimerEvent} (member : event ∈ wheel.timers) :
    event ∈ start.timers ∨ allowed event := by
  induction reaches with
  | refl => exact .inl member
  | cancel kind subject _ ih =>
    rw [(cancel_timers lawful _ kind subject).mem_iff] at member
    exact ih (List.mem_of_mem_filter member)
  | schedule scheduled _ legal ih =>
    rcases mem_schedule lawful member with before | same
    · exact ih before
    · rw [same]
      exact .inr legal

theorem cancel_isHeap (lawful : heap.Lawful) {wheel : TimerWheel} (heaped : IsHeap wheel.timers)
    (kind : TimerKind) (subject : UInt32) : IsHeap (wheel.cancel heap kind subject).timers := by
  simp only [cancel]
  split_ifs with removed
  · exact lawful.make_heap _
  · have all : wheel.timers.filter (fun event => !(event.kind = kind && event.subject = subject)) =
        wheel.timers := by
      apply List.Sublist.eq_of_length List.filter_sublist
      have shorter := List.length_filter_le
        (fun event => !(decide (event.kind = kind) && decide (event.subject = subject))) wheel.timers
      omega
    rw [all]
    exact heaped

theorem Reaches.isHeap (lawful : heap.Lawful) {start wheel : TimerWheel}
    (reaches : Reaches heap allowed start wheel) (heaped : IsHeap start.timers) : IsHeap wheel.timers := by
  induction reaches with
  | refl => exact heaped
  | cancel kind subject _ ih => exact cancel_isHeap lawful ih kind subject
  | schedule event _ _ ih =>
    unfold TimerWheel.schedule
    split_ifs
    · exact ih
    · exact lawful.push_heap _ _ ih

/-- The events that are due have been taken off the wheel, the earliest first. -/
structure Expired (now : Instant) (before : List TimerEvent) (due : List TimerEvent)
    (after : TimerWheel) : Prop where
  isDue : ∀ event ∈ due, event.due ≤ now
  perm : (due ++ after.timers).Perm before
  heaped : IsHeap after.timers
  sorted : due.Pairwise (·.due ≤ ·.due)
  late : ∀ event ∈ after.timers, now < event.due

theorem Expired.taken {now : Instant} {before due : List TimerEvent} {after : TimerWheel}
    (expired : Expired now before due after) (event : TimerEvent) (member : event ∈ due) : event ∈ before :=
  expired.perm.subset (List.mem_append_left _ member)

theorem Expired.left {now : Instant} {before due : List TimerEvent} {after : TimerWheel}
    (expired : Expired now before due after) (event : TimerEvent) (member : event ∈ after.timers) :
    event ∈ before :=
  expired.perm.subset (List.mem_append_right _ member)

theorem front_least {first : TimerEvent} {rest : List TimerEvent} (heaped : IsHeap (first :: rest)) :
    ∀ event ∈ first :: rest, first.due ≤ event.due := by
  have least (index : ℕ) : ∀ inside : index < (first :: rest).length,
      first.due ≤ ((first :: rest).get ⟨index, inside⟩).due := by
    induction index using Nat.strong_induction_on with
    | _ index ih =>
      intro inside
      rcases Nat.eq_zero_or_pos index with rfl | positive
      · exact le_rfl
      · exact (ih ((index - 1) / 2) (by omega) (by omega)).trans (heaped index inside positive)
  intro event member
  obtain ⟨⟨index, inside⟩, rfl⟩ := List.get_of_mem member
  exact least index inside

theorem expireLoop_spec (lawful : heap.Lawful) (now : Instant) (turns : ℕ) (due timers : List TimerEvent)
    (enough : timers.length ≤ turns) (heaped : IsHeap timers) (isDue : ∀ event ∈ due, event.due ≤ now)
    (sorted : due.Pairwise (·.due ≤ ·.due)) (order : ∀ early ∈ due, ∀ event ∈ timers, early.due ≤ event.due) :
    Expired now (due ++ timers) (expireLoop heap now turns due timers).1
      (expireLoop heap now turns due timers).2 := by
  induction turns generalizing due timers with
  | zero =>
    rw [List.length_eq_zero_iff.mp (Nat.le_zero.mp enough)]
    exact ⟨isDue, .refl _, fun index inside => absurd inside (Nat.not_lt_zero index), sorted, nofun⟩
  | succ turns ih =>
    cases timers with
    | nil => exact ⟨isDue, .refl _, heaped, sorted, nofun⟩
    | cons first rest =>
      have least := front_least heaped
      simp only [expireLoop]
      split_ifs with reached
      · obtain ⟨others, popped, perm, othersHeap⟩ := lawful.pop_moves first rest heaped
        have members : (due ++ [first] ++ others).Perm (due ++ first :: rest) := by
          rw [List.append_assoc]
          exact (perm.cons first).append_left due
        simp only [popped, List.getLast?_append, List.getLast?_singleton, Option.some_or,
          Option.toList_some, List.dropLast_concat]
        have spec := ih (due ++ [first]) others ?_ othersHeap ?_ ?_ ?_
        · exact ⟨spec.isDue, spec.perm.trans members, spec.heaped, spec.sorted, spec.late⟩
        · rw [perm.length_eq]
          exact Nat.le_of_succ_le_succ enough
        · exact List.forall_mem_append.mpr ⟨isDue, List.forall_mem_singleton.mpr reached⟩
        · rw [List.pairwise_append]
          refine ⟨sorted, List.pairwise_singleton _ _, fun early member later last => ?_⟩
          rw [List.mem_singleton.mp last]
          exact order early member first List.mem_cons_self
        · intro early member event other
          have stored := List.mem_cons_of_mem first (perm.subset other)
          rcases List.mem_append.mp member with before | last
          · exact order early before event stored
          · rw [List.mem_singleton.mp last]
            exact least event stored
      · refine ⟨isDue, .refl _, heaped, sorted, fun event member => ?_⟩
        exact (not_le.mp reached).trans_le (least event member)

theorem expire_spec (lawful : heap.Lawful) (wheel : TimerWheel) (now : Instant)
    (heaped : IsHeap wheel.timers) :
    Expired now wheel.timers (wheel.expire heap now).1 (wheel.expire heap now).2 :=
  expireLoop_spec lawful now wheel.timers.length [] wheel.timers le_rfl heaped nofun .nil nofun

end TimerWheel

/-- Heap algorithms that keep the vector sorted. -/
def sortingHeap : HeapAlgorithms where
  pushHeap events := events.insertionSort (·.due ≤ ·.due)
  popHeap
    | [] => []
    | first :: rest => rest.insertionSort (·.due ≤ ·.due) ++ [first]
  makeHeap events := events.insertionSort (·.due ≤ ·.due)

theorem isHeap_insertionSort (events : List TimerEvent) :
    IsHeap (events.insertionSort (·.due ≤ ·.due)) := by
  intro index inside positive
  have sorted := List.pairwise_insertionSort (fun first second : TimerEvent => first.due ≤ second.due) events
  rw [List.pairwise_iff_get] at sorted
  apply sorted ⟨(index - 1) / 2, by omega⟩ ⟨index, inside⟩
  simp only [Fin.mk_lt_mk]
  omega

theorem sortingHeap_lawful : sortingHeap.Lawful where
  push_perm events := List.perm_insertionSort _ events
  push_heap _ _ _ := isHeap_insertionSort _
  pop_moves _ rest _ := ⟨_, rfl, List.perm_insertionSort _ rest, isHeap_insertionSort rest⟩
  make_perm events := List.perm_insertionSort _ events
  make_heap events := isHeap_insertionSort events

end Norr
