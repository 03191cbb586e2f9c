import Mathlib.Algebra.Order.Group.Multiset
import Mathlib.Data.List.Induction
import Norr.Control.Timers

/-! The TimerWheel as a priority multiset: what is stored after any calls, and what each call answers. -/

namespace Norr

namespace TimerWheel

variable (heap : HeapAlgorithms)

/-- std::erase_if, and std::make_heap if it has removed anything. -/
def eraseIf (wheel : TimerWheel) (chosen : TimerEvent → Bool) : ℕ × TimerWheel :=
  let kept := wheel.timers.filter fun event => !chosen event
  let removed := wheel.timers.length - kept.length
  (removed, ⟨if 0 < removed then heap.makeHeap kept else kept⟩)

def cancelSubject (wheel : TimerWheel) (subject : UInt32) : ℕ × TimerWheel :=
  wheel.eraseIf heap fun event => event.subject = subject

def nextDue (wheel : TimerWheel) : Instant :=
  match wheel.timers with
  | [] => 0
  | first :: _ => first.due

theorem eraseIf_cancel (wheel : TimerWheel) (kind : TimerKind) (subject : UInt32) :
    (wheel.eraseIf heap fun event => event.kind = kind && event.subject = subject).2 =
      wheel.cancel heap kind subject := by
  simp only [eraseIf, cancel, Nat.sub_pos_iff_lt]
  split_ifs <;> rfl

inductive Call
  | schedule (kind : TimerKind) (subject : UInt32) (due : Instant)
  | cancel (kind : TimerKind) (subject : UInt32)
  | cancelSubject (subject : UInt32)
  | expire (now : Instant)

inductive Reply
  | scheduled (accepted : Bool)
  | removed (count : ℕ)
  | expired (events : List TimerEvent)

def perform (wheel : TimerWheel) : Call → Reply × TimerWheel
  | .schedule kind subject due => (wheel.schedule heap kind subject due).map .scheduled id
  | .cancel kind subject =>
    (.removed (wheel.eraseIf heap fun event => event.kind = kind && event.subject = subject).1,
      wheel.cancel heap kind subject)
  | .cancelSubject subject => (wheel.cancelSubject heap subject).map .removed id
  | .expire now => (wheel.expire heap now).map .expired id

def run (calls : List Call) : TimerWheel := calls.foldl (fun wheel call => (wheel.perform heap call).2) {}

/-- What is stored, as a multiset. -/
def Call.next (stored : Multiset TimerEvent) : Call → Multiset TimerEvent
  | schedule kind subject due =>
    if stored.card < kMaximumTimers then ⟨kind, subject, due⟩ ::ₘ stored else stored
  | cancel kind subject => stored.filter fun event => ¬(event.kind = kind ∧ event.subject = subject)
  | cancelSubject subject => stored.filter fun event => event.subject ≠ subject
  | expire now => stored.filter fun event => now < event.due

/-- What the caller is told about what was stored. -/
def Call.Answered (stored : Multiset TimerEvent) : Call → Reply → Prop
  | schedule _ _ _, .scheduled accepted => accepted = true ↔ stored.card < kMaximumTimers
  | cancel kind subject, .removed count =>
    count = stored.countP fun event => event.kind = kind ∧ event.subject = subject
  | cancelSubject subject, .removed count => count = stored.countP fun event => event.subject = subject
  | expire now, .expired events => (events : Multiset TimerEvent) = stored.filter (fun event => event.due ≤ now) ∧
      events.Pairwise (·.due ≤ ·.due)
  | _, _ => False

structure Stores (wheel : TimerWheel) (stored : Multiset TimerEvent) : Prop where
  events : (wheel.timers : Multiset TimerEvent) = stored
  heaped : IsHeap wheel.timers
  bounded : stored.card ≤ kMaximumTimers

variable {heap} {wheel : TimerWheel} {stored : Multiset TimerEvent}

theorem Stores.eraseIf (lawful : heap.Lawful) (stores : wheel.Stores stored) (chosen : TimerEvent → Bool) :
    (wheel.eraseIf heap chosen).1 = stored.countP (chosen ·) ∧
      (wheel.eraseIf heap chosen).2.Stores (stored.filter fun event => ¬chosen event) := by
  obtain ⟨rfl, heaped, bounded⟩ := stores
  have parts : wheel.timers.length = (wheel.timers.filter chosen).length +
      (wheel.timers.filter fun event => !chosen event).length := List.length_eq_length_filter_add chosen
  have kept : ((wheel.timers.filter fun event => !chosen event : List TimerEvent) : Multiset TimerEvent) =
      Multiset.filter (fun event => ¬chosen event) wheel.timers := by
    rw [Multiset.filter_coe]
    simp
  refine ⟨?_, ?_, ?_, (Multiset.card_le_card (Multiset.filter_le _ _)).trans bounded⟩
  · rw [Multiset.coe_countP, List.countP_eq_length_filter, TimerWheel.eraseIf, parts, Nat.add_sub_cancel]
    simp
  · rw [← kept, TimerWheel.eraseIf, Multiset.coe_eq_coe]
    dsimp only
    split_ifs
    · exact lawful.make_perm _
    · exact .refl _
  · simp only [TimerWheel.eraseIf]
    split_ifs with removed
    · exact lawful.make_heap _
    · have all : wheel.timers.filter (fun event => !chosen event) = wheel.timers :=
        List.Sublist.eq_of_length List.filter_sublist (by omega)
      rw [all]
      exact heaped

theorem Stores.perform (lawful : heap.Lawful) (stores : wheel.Stores stored) (call : Call) :
    call.Answered stored (wheel.perform heap call).1 ∧ (wheel.perform heap call).2.Stores (call.next stored) := by
  cases call with
  | schedule kind subject due =>
    have size : stored.card = wheel.timers.length := by
      rw [← stores.events, Multiset.coe_card]
    simp only [TimerWheel.perform, Prod.map, id, TimerWheel.schedule, Call.Answered, Call.next, size]
    split_ifs with full room room
    · exact absurd room (not_lt.mpr full)
    · exact ⟨by simpa using full, stores⟩
    · refine ⟨by simpa using room, ?_, lawful.push_heap _ _ stores.heaped, ?_⟩
      · rw [← stores.events, Multiset.cons_coe, Multiset.coe_eq_coe]
        exact (lawful.push_perm _).trans (List.perm_append_singleton _ _)
      · rw [Multiset.card_cons, size]
        exact room
    · exact absurd (not_le.mp full) room
  | cancel kind subject =>
    obtain ⟨count, kept⟩ := stores.eraseIf lawful fun event => event.kind = kind && event.subject = subject
    rw [eraseIf_cancel] at kept
    simp only [Bool.and_eq_true, decide_eq_true_eq] at count kept
    exact ⟨count, kept⟩
  | cancelSubject subject =>
    obtain ⟨count, kept⟩ := stores.eraseIf lawful fun event => event.subject = subject
    simp only [decide_eq_true_eq] at count kept
    exact ⟨count, kept⟩
  | expire now =>
    have expired := expire_spec lawful wheel now stores.heaped
    have parts : stored = (wheel.expire heap now).1 + (wheel.expire heap now).2.timers := by
      rw [← stores.events, Multiset.coe_add, Multiset.coe_eq_coe]
      exact expired.perm.symm
    have due : Multiset.filter (fun event => event.due ≤ now) stored = (wheel.expire heap now).1 := by
      rw [parts, Multiset.filter_add, Multiset.filter_eq_self.mpr expired.isDue,
        Multiset.filter_eq_nil.mpr fun event member => not_le.mpr (expired.late event member), add_zero]
    have late : Multiset.filter (fun event => now < event.due) stored = (wheel.expire heap now).2.timers := by
      rw [parts, Multiset.filter_add, Multiset.filter_eq_nil.mpr fun event member => not_lt.mpr
        (expired.isDue event member), Multiset.filter_eq_self.mpr expired.late, zero_add]
    refine ⟨⟨due.symm, expired.sorted⟩, late.symm, expired.heaped, ?_⟩
    exact (Multiset.card_le_card (Multiset.filter_le _ _)).trans stores.bounded

theorem run_stores (lawful : heap.Lawful) (calls : List Call) :
    (run heap calls).Stores (calls.foldl Call.next 0) := by
  induction calls using List.reverseRecOn with
  | nil => exact ⟨rfl, fun index inside => absurd inside (Nat.not_lt_zero index), Nat.zero_le _⟩
  | append_singleton calls call ih =>
    rw [run, List.foldl_append, List.foldl_append]
    exact (ih.perform lawful call).2

/-- After any calls the wheel stores what the multiset does, and answers for it. A schedule that is refused
finds 8192 events and leaves the wheel as it was, and next_due is the least due time. -/
theorem wheel_is_priority_multiset (lawful : heap.Lawful) (calls : List Call) :
    ((run heap calls).timers : Multiset TimerEvent) = calls.foldl Call.next 0 ∧
      (∀ call : Call, call.Answered (calls.foldl Call.next 0) ((run heap calls).perform heap call).1) ∧
      (∀ kind subject due, ((run heap calls).schedule heap kind subject due).1 = false →
        (run heap calls).timers.length = 8192 ∧
          ((run heap calls).schedule heap kind subject due).2 = run heap calls) ∧
      ((run heap calls).timers ≠ [] →
        (∃ event ∈ (run heap calls).timers, event.due = (run heap calls).nextDue) ∧
          ∀ event ∈ (run heap calls).timers, (run heap calls).nextDue ≤ event.due) := by
  have stores := run_stores lawful calls
  refine ⟨stores.events, fun call => (stores.perform lawful call).1, fun kind subject due refused => ?_, ?_⟩
  · have bounded := stores.bounded
    rw [← stores.events, Multiset.coe_card] at bounded
    unfold schedule at refused ⊢
    split_ifs at refused ⊢ with full
    exact ⟨le_antisymm bounded full, rfl⟩
  · have heaped := stores.heaped
    unfold nextDue
    generalize (run heap calls).timers = timers at heaped
    intro some
    cases timers with
    | nil => exact absurd rfl some
    | cons first rest => exact ⟨⟨first, List.mem_cons_self, rfl⟩, front_least heaped⟩

/-- Two of four timers are due, in the order of their times; one of the others is cancelled. -/
theorem sorted_wheel_expires :
    let calls := [.schedule .rekey 1 30, .schedule .keepalive 2 10, .schedule .keepalive 1 20,
      .schedule .deadPeer 3 40, .cancelSubject 3]
    Call.Answered (calls.foldl Call.next 0) (.expire 20)
      ((run sortingHeap calls).perform sortingHeap (.expire 20)).1 ∧
      ((run sortingHeap calls).expire sortingHeap 20).1 = [⟨.keepalive, 2, 10⟩, ⟨.keepalive, 1, 20⟩] :=
  ⟨(wheel_is_priority_multiset sortingHeap_lawful _).2.1 _, by decide +kernel⟩

end TimerWheel

end Norr
