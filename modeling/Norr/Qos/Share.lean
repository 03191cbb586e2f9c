import Norr.Qos.Conservation

/-! How the Scheduler divides its turns while a normal and a bulk packet both wait.

In such a stretch a dequeue is one tick of a countdown: `lead` normal packets go before the next bulk
one, and kNormalWeight of them before every later one. Giving the packet back takes the tick back. -/

namespace Norr

open Scheduler

open Runs (Throughout)

namespace Scheduler

variable {scheduler : Scheduler}

/-- How many normal packets go before the next bulk packet. -/
def lead (scheduler : Scheduler) : ℕ :=
  (kNormalWeight - scheduler.normalDeficit) +
    if scheduler.bulkDeficit < kBulkWeight then 0 else kNormalWeight

/-- A bulk turn is booked although the normal packets have not had theirs. -/
def Overdrawn (scheduler : Scheduler) : Prop :=
  kBulkWeight ≤ scheduler.bulkDeficit ∧ scheduler.normalDeficit < kNormalWeight

instance : Decidable scheduler.Overdrawn := inferInstanceAs (Decidable (_ ∧ _))

theorem lead_le_iff : scheduler.lead ≤ kNormalWeight ↔ ¬ scheduler.Overdrawn := by
  unfold lead Overdrawn kNormalWeight kBulkWeight
  split <;> omega

def turnOf : ℕ → TrafficClass
  | 0 => .bulk
  | _ + 1 => .normal

def leadNext : ℕ → ℕ
  | 0 => kNormalWeight
  | ahead + 1 => ahead

theorem lead_congr {first second : Scheduler} (normal : first.normalDeficit = second.normalDeficit)
    (bulk : first.bulkDeficit = second.bulkDeficit) : first.lead = second.lead := by
  rw [lead, lead, normal, bulk]

/-- One turn of the contest, and what giving the packet back undoes. -/
theorem dequeue_contested (tagged : ∀ trafficClass, ∀ packet ∈ scheduler.queues trafficClass,
      packet.trafficClass = trafficClass)
    (realtime : scheduler.queues .realtime = []) (normal : scheduler.queues .normal ≠ [])
    (bulk : scheduler.queues .bulk ≠ []) (now : Instant) :
    ∃ packet after, scheduler.dequeue now = (some packet, after) ∧
      packet.trafficClass = turnOf scheduler.lead ∧ after.lead = leadNext scheduler.lead ∧
      (after.restore packet).lead = scheduler.lead := by
  obtain ⟨next, waiting, normal⟩ := List.exists_cons_of_ne_nil normal
  obtain ⟨large, behind, bulk⟩ := List.exists_cons_of_ne_nil bulk
  have nextTag : next.trafficClass = .normal := tagged .normal next (by simp [normal])
  have largeTag : large.trafficClass = .bulk := tagged .bulk large (by simp [bulk])
  simp only [dequeue, take, realtime, normal, bulk, reduceCtorEq, and_self, if_false]
  split
  next early =>
    obtain ⟨ahead, leads⟩ : ∃ ahead, scheduler.lead = ahead + 1 :=
      Nat.exists_eq_add_one.mpr (by simp only [lead]; omega)
    refine ⟨next, _, rfl, by rw [nextTag, leads, turnOf], ?_, ?_⟩
    · rw [leads, leadNext]
      simp only [lead, taken] at leads ⊢
      omega
    · exact lead_congr (by simp [restore, taken, nextTag]) (by simp [restore, taken, nextTag])
  next late =>
    split
    next owed =>
      have leads : scheduler.lead = 0 := by
        simp only [lead, if_pos owed]
        omega
      refine ⟨large, _, rfl, by rw [largeTag, leads, turnOf], ?_, ?_⟩
      · rw [leads, leadNext]
        simp only [lead, taken, kBulkWeight] at leads owed ⊢
        rw [if_neg (by omega)]
        omega
      · exact lead_congr (by simp [restore, taken, largeTag]) (by simp [restore, taken, largeTag])
    next paid =>
      have leads : scheduler.lead = kNormalWeight := by
        simp only [lead, if_neg paid]
        omega
      refine ⟨next, _, rfl, by rw [nextTag, leads, kNormalWeight, turnOf], ?_, ?_⟩
      · rw [leads]
        simp [lead, taken, leadNext, kNormalWeight, kBulkWeight]
      · rw [leads]
        simp [lead, taken, restore, nextTag, kNormalWeight, kBulkWeight]

/-- Calls that are no dequeue leave the turns alone. -/
theorem enqueue_lead (packet : Bytes) (trafficClass : TrafficClass) (now : Instant) (destination : Endpoint) :
    (scheduler.enqueue packet trafficClass now destination).2.lead = scheduler.lead := by
  obtain ⟨shed, kept, -, made, -⟩ := makeRoom_spec scheduler trafficClass packet.length
  simp only [enqueue_eq, made]
  split <;> rfl

end Scheduler

/-- The lead after `turns` turns. -/
def leadAfter (lead : ℕ) : ℕ → ℕ
  | 0 => lead
  | turns + 1 => Scheduler.leadNext (leadAfter lead turns)

/-- The classes of the first `turns` turns. -/
def alternation (lead turns : ℕ) : List TrafficClass :=
  (List.range turns).map fun turn => Scheduler.turnOf (leadAfter lead turn)

/-- Any four in a row have a bulk packet among them. -/
def EveryFour (classes : List TrafficClass) : Prop :=
  ∀ start, start + 4 ≤ classes.length → .bulk ∈ (classes.drop start).take 4

theorem leadAfter_add (lead first second : ℕ) :
    leadAfter lead (first + second) = leadAfter (leadAfter lead first) second := by
  induction second with
  | zero => rfl
  | succ second ih => rw [← Nat.add_assoc, leadAfter, ih, leadAfter]

theorem leadAfter_of_le {lead turns : ℕ} (before : turns ≤ lead) : leadAfter lead turns = lead - turns := by
  induction turns with
  | zero => rfl
  | succ turns ih =>
    have positive : lead - turns = lead - (turns + 1) + 1 := by omega
    rw [leadAfter, ih (by omega), positive, leadNext]

theorem leadAfter_le {lead : ℕ} (small : lead ≤ kNormalWeight) (turns : ℕ) :
    leadAfter lead turns ≤ kNormalWeight := by
  induction turns with
  | zero => exact small
  | succ turns ih =>
    rw [leadAfter]
    cases now : leadAfter lead turns with
    | zero => exact le_rfl
    | succ ahead =>
      rw [now] at ih
      exact (Nat.le_succ ahead).trans ih

theorem turnOf_eq_bulk {lead : ℕ} : turnOf lead = .bulk ↔ lead = 0 := by
  cases lead <;> simp [turnOf]

theorem alternation_window {lead turns start : ℕ} (inside : start + 4 ≤ turns) :
    TrafficClass.bulk ∈ ((alternation lead turns).drop start).take 4 ↔
      ∃ turn < 4, leadAfter lead (start + turn) = 0 := by
  rw [List.mem_iff_getElem]
  simp only [List.length_take, List.length_drop, alternation, List.length_map, List.length_range,
    List.getElem_take, List.getElem_drop, List.getElem_map, List.getElem_range, turnOf_eq_bulk]
  constructor
  · rintro ⟨turn, bound, zero⟩
    exact ⟨turn, by omega, zero⟩
  · rintro ⟨turn, bound, zero⟩
    exact ⟨turn, by omega, zero⟩

/-- The countdown from at most kNormalWeight reaches zero in any four turns; a longer one does not. -/
theorem everyFour_alternation (lead turns : ℕ) :
    EveryFour (alternation lead turns) ↔ turns < 4 ∨ lead ≤ kNormalWeight := by
  have length : (alternation lead turns).length = turns := by simp [alternation]
  unfold EveryFour
  rw [length]
  constructor
  · intro every
    by_contra neither
    have long : kNormalWeight < lead := by omega
    have four : 0 + 4 ≤ turns := by omega
    obtain ⟨turn, bound, zero⟩ := (alternation_window four).mp (every 0 four)
    rw [kNormalWeight] at long
    rw [Nat.zero_add, leadAfter_of_le (by omega)] at zero
    omega
  · intro either start inside
    have small : lead ≤ kNormalWeight := by omega
    have soon := leadAfter_le small start
    rw [alternation_window inside]
    refine ⟨leadAfter lead start, Nat.lt_succ_of_le soon, ?_⟩
    rw [leadAfter_add, leadAfter_of_le le_rfl, Nat.sub_self]

namespace Desk

def Call.isDequeue : Call → Bool
  | .dequeue _ => true
  | _ => false

/-- Both classes wait at a dequeue, and nothing with priority. -/
def Contested (desk : Desk) : Call → Prop
  | .dequeue _ => desk.scheduler.queues .realtime = [] ∧ desk.scheduler.queues .normal ≠ [] ∧
      desk.scheduler.queues .bulk ≠ []
  | _ => True

instance (desk : Desk) : DecidablePred desk.Contested
  | .dequeue _ => inferInstanceAs (Decidable (_ ∧ _ ∧ _))
  | .enqueue .. => .isTrue trivial
  | .restore => .isTrue trivial

/-- The classes of the dequeues that were not taken back. -/
def served (departures : List (Fate × QueuedPacket)) : List TrafficClass :=
  (departures.filter (·.1 = .served)).map (·.2.trafficClass)

/-- The run up to a stretch, whose departures are then recorded alone. -/
def opened (limits : QueueLimits) (before : List Call) : Desk := { run limits before with departures := [] }

def stretch (limits : QueueLimits) (before calls : List Call) : Desk :=
  calls.foldl perform (opened limits before)

/-- Where the stretch makes its first dequeue. -/
def atFirst (limits : QueueLimits) (before calls : List Call) : Desk :=
  stretch limits before (calls.takeWhile fun call => !call.isDequeue)

/-- The scheduler is that of a run, and so is the packet in hand if there is one. -/
def Reached (desk : Desk) : Prop :=
  ∃ limits calls, (run limits calls).scheduler = desk.scheduler ∧
    (desk.held = none ∨ (run limits calls).held = desk.held)

theorem Reached.perform {desk : Desk} (reached : desk.Reached) (call : Call) : (desk.perform call).Reached := by
  obtain ⟨limits, calls, scheduler, held⟩ := reached
  have extended : run limits (calls ++ [call]) = (run limits calls).perform call := by
    rw [run, List.foldl_append]
    rfl
  cases call with
  | enqueue packet trafficClass now destination =>
    refine ⟨limits, calls ++ [.enqueue packet trafficClass now destination], ?_, .inl rfl⟩
    simp [extended, Desk.perform, scheduler]
  | dequeue now =>
    refine ⟨limits, calls ++ [.dequeue now], ?_⟩
    simp only [extended, Desk.perform, scheduler]
    rcases desk.scheduler.dequeue now with ⟨_ | packet, after⟩ <;> simp
  | restore =>
    cases hand : desk.held with
    | none =>
      simp only [Desk.perform, hand]
      exact ⟨limits, calls, scheduler, .inl hand⟩
    | some packet =>
      have same : (run limits calls).held = some packet := by simpa [hand] using held
      refine ⟨limits, calls ++ [.restore], ?_⟩
      simp [extended, Desk.perform, hand, same, scheduler]

theorem Reached.tagged {desk : Desk} (reached : desk.Reached) (trafficClass : TrafficClass) :
    ∀ packet ∈ desk.scheduler.queues trafficClass, packet.trafficClass = trafficClass := by
  obtain ⟨limits, calls, scheduler, -⟩ := reached
  rw [← scheduler]
  exact (conserved limits calls).tagged trafficClass

theorem served_append (first second : List (Fate × QueuedPacket)) :
    served (first ++ second) = served first ++ served second := by
  simp [served]

theorem served_shed (shed : List QueuedPacket) : served (shed.map (.shed, ·)) = [] := by
  simp [served]

theorem alternation_succ (lead turns : ℕ) :
    alternation lead (turns + 1) = alternation lead turns ++ [turnOf (leadAfter lead turns)] := by
  simp [alternation, List.range_succ]

/-- The stretch so far: `turns` turns of the countdown from `lead`, the last of which can be taken back. -/
structure Alternates (lead : ℕ) (desk : Desk) : Prop where
  reached : desk.Reached
  turns : ∃ turns, served desk.departures = alternation lead turns ∧
    desk.scheduler.lead = leadAfter lead turns
  held : ∀ packet ∈ desk.held, ∃ earlier turns, desk.departures = earlier ++ [(.served, packet)] ∧
    served earlier = alternation lead turns ∧ (desk.scheduler.restore packet).lead = leadAfter lead turns

theorem Alternates.perform {lead : ℕ} {desk : Desk} (alternates : Alternates lead desk) (call : Call)
    (contested : desk.Contested call) : Alternates lead (desk.perform call) := by
  have reached := alternates.reached.perform call
  obtain ⟨turns, soFar, leads⟩ := alternates.turns
  cases call with
  | enqueue packet trafficClass now destination =>
    refine ⟨reached, ⟨turns, ?_, ?_⟩, by simp [Desk.perform]⟩
    · simp only [Desk.perform]
      rw [served_append, served_shed, List.append_nil, soFar]
    · exact (enqueue_lead packet trafficClass now destination).trans leads
  | dequeue now =>
    obtain ⟨realtime, normal, bulk⟩ := contested
    obtain ⟨packet, after, taken, turn, next, back⟩ :=
      dequeue_contested alternates.reached.tagged realtime normal bulk now
    simp only [Desk.perform, taken] at reached ⊢
    refine ⟨reached, ⟨turns + 1, ?_, ?_⟩, ?_⟩
    · rw [served_append, soFar, alternation_succ, ← leads, ← turn]
      rfl
    · rw [next, leads, leadAfter]
    · rintro _ ⟨⟩
      exact ⟨desk.departures, turns, rfl, soFar, back.trans leads⟩
  | restore =>
    simp only [Desk.perform] at reached ⊢
    split at reached
    next => exact alternates
    next packet held =>
      obtain ⟨earlier, turns, split, soFar, leads⟩ := alternates.held packet held
      refine ⟨reached, ⟨turns, ?_, leads⟩, by simp⟩
      rw [split, List.dropLast_concat, soFar]

/-- Before its first dequeue a stretch serves nothing; it may take back the dequeue before it. -/
structure Untouched (desk : Desk) : Prop where
  reached : desk.Reached
  served : served desk.departures = []
  held : desk.held ≠ none → desk.departures = []

theorem Untouched.perform {desk : Desk} (untouched : Untouched desk) {call : Call}
    (other : call.isDequeue = false) : Untouched (desk.perform call) := by
  have reached := untouched.reached.perform call
  cases call with
  | enqueue packet trafficClass now destination =>
    refine ⟨reached, ?_, by simp [Desk.perform]⟩
    simp only [Desk.perform]
    rw [served_append, served_shed, untouched.served, List.append_nil]
  | dequeue now => cases other
  | restore =>
    simp only [Desk.perform] at reached ⊢
    split at reached
    next => exact untouched
    next packet held =>
      have nothing := untouched.held (by simp [held])
      exact ⟨reached, by simp [nothing, Desk.served], by simp⟩

/-- What a stretch serves is the countdown from where it makes its first dequeue. -/
theorem served_alternates {desk : Desk} (untouched : Untouched desk) {calls : List Call}
    (contested : Throughout perform Contested desk calls) :
    ∃ turns, served (calls.foldl perform desk).departures =
      alternation ((calls.takeWhile fun call => !call.isDequeue).foldl perform desk).scheduler.lead turns := by
  induction calls generalizing desk with
  | nil => exact ⟨0, untouched.served⟩
  | cons call calls ih =>
    cases other : call.isDequeue with
    | false =>
      rw [List.takeWhile_cons_of_pos (by simp [other])]
      exact ih (untouched.perform other) contested.2
    | true =>
      rw [List.takeWhile_cons_of_neg (by simp [other])]
      obtain ⟨now, rfl⟩ : ∃ now, call = .dequeue now := by
        cases call <;> simp_all [Call.isDequeue]
      -- the packet in hand belongs to the time before the stretch and is not taken back any more
      have start : Alternates desk.scheduler.lead { desk with held := none } := by
        obtain ⟨limits, earlier, scheduler, -⟩ := untouched.reached
        exact ⟨⟨limits, earlier, scheduler, .inl rfl⟩, ⟨0, untouched.served, rfl⟩, by simp⟩
      have next : Alternates desk.scheduler.lead (desk.perform (.dequeue now)) :=
        start.perform (.dequeue now) contested.1
      have final := Throughout.keeps (fun _ call kept => kept.perform call) next contested.2
      obtain ⟨turns, soFar, -⟩ := final.turns
      exact ⟨turns, soFar⟩

/-- In a stretch where both classes wait, any four dequeues that stand have a bulk packet among them
exactly when they are fewer than four or the first meets no overdrawn scheduler. -/
theorem bulk_share_iff (limits : QueueLimits) (before calls : List Call)
    (contested : Throughout perform Contested (opened limits before) calls) :
    EveryFour (served (stretch limits before calls).departures) ↔
      (served (stretch limits before calls).departures).length < 4 ∨
        ¬ (atFirst limits before calls).scheduler.Overdrawn := by
  have untouched : Untouched (opened limits before) := ⟨⟨limits, before, rfl, .inr rfl⟩, rfl, fun _ => rfl⟩
  obtain ⟨turns, alternates⟩ := served_alternates untouched contested
  have length : (served (stretch limits before calls).departures).length = turns := by
    rw [stretch, alternates, alternation, List.length_map, List.length_range]
  rw [length, ← lead_le_iff, stretch, alternates]
  exact everyFour_alternation _ turns

def sample (trafficClass : TrafficClass) : Call := .enqueue [0] trafficClass 0 {}

/-- From a fresh scheduler the classes alternate as the weights say. -/
theorem fresh_share :
    EveryFour (served (stretch {} [] (List.replicate 7 (sample .normal) ++ List.replicate 3 (sample .bulk) ++
      List.replicate 8 (.dequeue 0))).departures) :=
  (bulk_share_iff {} [] _ (by decide +kernel)).mpr (.inr (by decide +kernel))

/-- Four normal packets and one bulk packet are served, the last normal one when the bulk queue has run
empty. Then six normal packets go before the next bulk packet. -/
theorem overdrawn_share :
    Throughout perform Contested
        (opened {} (List.replicate 4 (sample .normal) ++ sample .bulk :: List.replicate 5 (.dequeue 0)))
        (List.replicate 7 (sample .normal) ++ sample .bulk :: List.replicate 6 (.dequeue 0)) ∧
      ¬ EveryFour (served (stretch {}
        (List.replicate 4 (sample .normal) ++ sample .bulk :: List.replicate 5 (.dequeue 0))
        (List.replicate 7 (sample .normal) ++ sample .bulk :: List.replicate 6 (.dequeue 0))).departures) := by
  refine ⟨by decide +kernel, fun every => ?_⟩
  exact absurd (every 0 (by decide +kernel)) (by decide +kernel)

end Desk

end Norr
