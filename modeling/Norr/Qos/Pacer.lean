import Mathlib.Algebra.BigOperators.Group.List.Basic
import Norr.Net.RateLimit

/-! The Pacer of `pacer.cpp`, with exact rationals for its doubles. -/

namespace Norr

structure Pacer where
  rate : ℚ := 0
  capacity : ℚ := 0
  available : ℚ := 0
  last : Instant := 0
  enabled : Bool := false
  pacedBytes : ℕ := 0
  deferred : ℕ := 0

namespace Pacer

def kMinimumBurstBytes : ℕ := 1500

def create (bytesPerSecond : ℚ) (burstBytes : ℕ) (now : Instant) : Pacer where
  rate := bytesPerSecond
  capacity := max burstBytes kMinimumBurstBytes
  available := max burstBytes kMinimumBurstBytes
  last := now
  enabled := 0 < bytesPerSecond

def refill (pacer : Pacer) (now : Instant) : Pacer :=
  if now ≤ pacer.last then pacer
  else
    let elapsed := inSeconds (now - pacer.last)
    { pacer with available := min pacer.capacity (pacer.available + elapsed * pacer.rate), last := now }

def allow (pacer : Pacer) (bytes : ℕ) (now : Instant) : Bool × Pacer :=
  if pacer.enabled = false then (true, pacer)
  else
    let pacer := pacer.refill now
    if pacer.capacity < bytes then (true, { pacer with available := 0, pacedBytes := pacer.pacedBytes + bytes })
    else if pacer.available < bytes then (false, { pacer with deferred := pacer.deferred + 1 })
    else (true, { pacer with available := pacer.available - bytes, pacedBytes := pacer.pacedBytes + bytes })

/-- A call of allow: the size of the packet and the time. -/
structure Offer where
  bytes : ℕ
  now : Instant
  deriving DecidableEq

/-- The offers that were allowed. -/
def allowed : Pacer → List Offer → List Offer
  | _, [] => []
  | pacer, offer :: offers =>
    match pacer.allow offer.bytes offer.now with
    | (true, pacer) => offer :: allowed pacer offers
    | (false, pacer) => allowed pacer offers

def within (first last : Instant) (offers : List Offer) : List Offer :=
  offers.filter fun offer => first ≤ offer.now ∧ offer.now ≤ last

def total (offers : List Offer) : ℕ := (offers.map (·.bytes)).sum

def oversized (capacity : ℚ) (offers : List Offer) : List Offer :=
  offers.filter fun offer => capacity < offer.bytes

/-- The largest size offered. -/
def largest (offers : List Offer) : ℕ := (offers.map (·.bytes)).foldr max 0

/-- The times of the offers never decrease. -/
def Ordered (offers : List Offer) : Prop := offers.Pairwise (·.now ≤ ·.now)

/-- The bucket of the library this pacer is. -/
def bucket (pacer : Pacer) : Bucket ℚ := ⟨pacer.available, inSeconds pacer.last⟩

theorem refill_bucket (pacer : Pacer) (now : Instant) :
    (pacer.refill now).bucket = pacer.bucket.refill pacer.capacity pacer.rate (inSeconds now) := by
  have early : inSeconds now ≤ pacer.bucket.last ↔ now ≤ pacer.last := inSeconds_le
  simp only [refill, Bucket.refill, early, inSeconds_sub]
  split <;> rfl

theorem refill_available (pacer : Pacer) (now : Instant) :
    (pacer.refill now).available = (pacer.bucket.refill pacer.capacity pacer.rate (inSeconds now)).level :=
  congrArg Bucket.level (refill_bucket pacer now)

theorem refill_last (pacer : Pacer) (now : Instant) :
    inSeconds (pacer.refill now).last = (pacer.bucket.refill pacer.capacity pacer.rate (inSeconds now)).last :=
  congrArg Bucket.last (refill_bucket pacer now)

@[simp]
theorem refill_capacity (pacer : Pacer) (now : Instant) : (pacer.refill now).capacity = pacer.capacity := by
  unfold refill
  split <;> rfl

@[simp]
theorem refill_rate (pacer : Pacer) (now : Instant) : (pacer.refill now).rate = pacer.rate := by
  unfold refill
  split <;> rfl

@[simp]
theorem refill_enabled (pacer : Pacer) (now : Instant) : (pacer.refill now).enabled = pacer.enabled := by
  unfold refill
  split <;> rfl

/-- An enabled pacer whose level stays between zero and its capacity. -/
structure Sound (pacer : Pacer) : Prop where
  enabled : pacer.enabled = true
  rate : 0 ≤ pacer.rate
  nonneg : 0 ≤ pacer.available
  bounded : pacer.available ≤ pacer.capacity

variable {pacer : Pacer}

theorem create_sound {bytesPerSecond : ℚ} (positive : 0 < bytesPerSecond) (burstBytes : ℕ) (now : Instant) :
    (create bytesPerSecond burstBytes now).Sound where
  enabled := by simp [create, positive]
  rate := positive.le
  nonneg := by simp [create]
  bounded := le_rfl

namespace Sound

theorem refill (sound : pacer.Sound) (now : Instant) : (pacer.refill now).Sound where
  enabled := by rw [refill_enabled, sound.enabled]
  rate := by rw [refill_rate]; exact sound.rate
  nonneg := by
    rw [refill_available]
    exact Bucket.refill_nonneg (sound.nonneg.trans sound.bounded) sound.rate sound.nonneg _
  bounded := by
    rw [refill_available, refill_capacity]
    exact Bucket.refill_le_capacity sound.bounded _

theorem slack (sound : pacer.Sound) {since last : Instant} (ahead : since ≤ last) :
    0 ≤ pacer.available + inSeconds (last - since) * pacer.rate := by
  apply add_nonneg sound.nonneg
  apply mul_nonneg _ sound.rate
  rw [inSeconds_sub]
  exact sub_nonneg.mpr (inSeconds_le.mpr ahead)

theorem full (sound : pacer.Sound) {first last : Instant} (interval : first ≤ last) :
    0 ≤ pacer.capacity + inSeconds (last - first) * pacer.rate :=
  (sound.slack interval).trans (add_le_add_left sound.bounded _)

end Sound

/-- What an allowed offer takes from the bucket: nothing that counts, if it is larger than the bucket. -/
def charge (pacer : Pacer) (offer : Offer) : ℕ :=
  if pacer.capacity < offer.bytes then 0
  else if (pacer.allow offer.bytes offer.now).1 then offer.bytes else 0

/-- One call, after the refill: what it charges leaves the level. -/
theorem allow_spec (sound : pacer.Sound) (offer : Offer) :
    ∃ after, (pacer.allow offer.bytes offer.now).2 = after ∧ after.Sound ∧
      after.capacity = pacer.capacity ∧ after.rate = pacer.rate ∧ after.last = (pacer.refill offer.now).last ∧
      pacer.charge offer + after.available ≤ (pacer.refill offer.now).available := by
  have refilled := sound.refill offer.now
  have bounded : (pacer.refill offer.now).available ≤ pacer.capacity := by simpa using refilled.bounded
  refine ⟨_, rfl, ?_⟩
  simp only [charge, allow, sound.enabled, Bool.true_eq_false, if_false, refill_capacity]
  split
  next large =>
    refine ⟨⟨refilled.enabled, refilled.rate, le_rfl, ?_⟩, by simp, by simp, rfl, by simpa using refilled.nonneg⟩
    exact refilled.nonneg.trans bounded
  next small =>
    split
    next short =>
      refine ⟨{ refilled with bounded }, by simp, by simp, rfl, ?_⟩
      simp
    next enough =>
      have lower : (pacer.refill offer.now).available - offer.bytes ≤ (pacer.refill offer.now).available := by
        simp
      refine ⟨⟨refilled.enabled, refilled.rate, sub_nonneg.mpr (not_lt.mp enough), ?_⟩, by simp, by simp, rfl, ?_⟩
      · exact lower.trans bounded
      · simp

theorem allowed_cons (pacer : Pacer) (offer : Offer) (offers : List Offer) :
    pacer.allowed (offer :: offers) =
      (if (pacer.allow offer.bytes offer.now).1 then [offer] else []) ++
        (pacer.allow offer.bytes offer.now).2.allowed offers := by
  rw [allowed]
  rcases pacer.allow offer.bytes offer.now with ⟨_ | _, after⟩ <;> rfl

theorem allowed_sublist (pacer : Pacer) (offers : List Offer) : (pacer.allowed offers).Sublist offers := by
  induction offers generalizing pacer with
  | nil => exact .slnil
  | cons offer offers ih =>
    rw [allowed_cons]
    split
    next => exact (ih _).cons_cons offer
    next => exact (ih _).cons offer

theorem within_append (first last : Instant) (earlier later : List Offer) :
    within first last (earlier ++ later) = within first last earlier ++ within first last later := by
  simp [within]

theorem total_append (earlier later : List Offer) : total (earlier ++ later) = total earlier + total later := by
  simp [total]

theorem oversized_append (capacity : ℚ) (earlier later : List Offer) :
    oversized capacity (earlier ++ later) = oversized capacity earlier ++ oversized capacity later := by
  simp [oversized]

/-- What one offer of the interval adds is what it charges, or all of it if it is larger than the bucket. -/
theorem total_allowed (pacer : Pacer) (offer : Offer) (enabled : pacer.enabled = true) :
    total (if (pacer.allow offer.bytes offer.now).1 then [offer] else []) =
      pacer.charge offer +
        total (oversized pacer.capacity (if (pacer.allow offer.bytes offer.now).1 then [offer] else [])) := by
  unfold charge
  by_cases large : pacer.capacity < offer.bytes
  · simp [allow, enabled, large, oversized, total]
  · split <;> simp [large, oversized, total]

theorem within_nil {first last : Instant} {offers : List Offer} (late : ∀ offer ∈ offers, last < offer.now)
    (pacer : Pacer) : within first last (pacer.allowed offers) = [] := by
  rw [within, List.filter_eq_nil_iff]
  intro offer member
  have after := late offer ((pacer.allowed_sublist offers).subset member)
  simp only [decide_eq_true_eq]
  exact fun inside => absurd inside.2 (not_le.mpr after)

/-- From an instant the bucket has reached: the level, the rate over the time left, and the packets
larger than the bucket bound what is allowed. -/
theorem allowed_le (sound : pacer.Sound) {since first last : Instant} {offers : List Offer}
    (ordered : Ordered offers) (after : ∀ offer ∈ offers, since ≤ offer.now) (begun : first ≤ since)
    (ahead : since ≤ last) (reached : since ≤ pacer.last) :
    (total (within first last (pacer.allowed offers)) : ℚ) ≤
      pacer.available + inSeconds (last - since) * pacer.rate +
        total (oversized pacer.capacity (within first last (pacer.allowed offers))) := by
  induction offers generalizing pacer since with
  | nil => simpa [allowed, within, oversized, total] using sound.slack ahead
  | cons offer offers ih =>
    have since_le : since ≤ offer.now := after offer List.mem_cons_self
    have later : ∀ each ∈ offers, offer.now ≤ each.now := (List.pairwise_cons.mp ordered).1
    by_cases late : last < offer.now
    · have beyond : ∀ each ∈ offer :: offers, last < each.now := by
        rw [List.forall_mem_cons]
        exact ⟨late, fun each member => late.trans_le (later each member)⟩
      simpa [within_nil beyond, oversized, total] using sound.slack ahead
    · obtain ⟨next, next_eq, next_sound, capacity, rate, next_last, charged⟩ := allow_spec sound offer
      have inside : within first last (if (pacer.allow offer.bytes offer.now).1 then [offer] else []) =
          if (pacer.allow offer.bytes offer.now).1 then [offer] else [] := by
        rw [within, List.filter_eq_self]
        intro each member
        obtain rfl : each = offer := by
          split at member <;> simp_all
        simp only [decide_eq_true_eq]
        exact ⟨begun.trans since_le, not_lt.mp late⟩
      have reached_next : offer.now ≤ next.last := by
        rw [← inSeconds_le, next_last, refill_last]
        exact Bucket.le_refill_last _
      have grown : (pacer.refill offer.now).available ≤
          pacer.available + inSeconds (offer.now - since) * pacer.rate := by
        rw [refill_available, inSeconds_sub]
        exact Bucket.refill_level_le_since sound.rate (inSeconds_le.mpr reached) (inSeconds_le.mpr since_le)
      have rest := ih next_sound (List.pairwise_cons.mp ordered).2 later (begun.trans since_le)
        (not_lt.mp late) reached_next
      rw [allowed_cons, within_append, inside, total_append, oversized_append, total_append,
        total_allowed pacer offer sound.enabled, next_eq]
      rw [capacity, rate, inSeconds_sub] at rest
      rw [inSeconds_sub] at grown
      rw [inSeconds_sub]
      push_cast
      linarith

/-- Stopping on the way makes no difference. -/
theorem allow_refill (sound : pacer.Sound) (bytes : ℕ) {first now : Instant} (order : first ≤ now) :
    (pacer.refill first).allow bytes now = pacer.allow bytes now := by
  have same : (pacer.refill first).refill now = pacer.refill now := by
    have buckets : ((pacer.refill first).refill now).bucket = (pacer.refill now).bucket := by
      rw [refill_bucket, refill_bucket, refill_bucket, refill_capacity, refill_rate]
      exact Bucket.refill_refill sound.rate (inSeconds_le.mpr order)
    have times : ((pacer.refill first).refill now).last = (pacer.refill now).last :=
      le_antisymm (inSeconds_le.mp (congrArg Bucket.last buckets).le)
        (inSeconds_le.mp (congrArg Bucket.last buckets).ge)
    have levels : ((pacer.refill first).refill now).available = (pacer.refill now).available :=
      congrArg Bucket.level buckets
    unfold refill at times levels ⊢
    grind
  simp [allow, sound.enabled, same]

/-- In any interval the bucket is full at most once. -/
theorem allowed_within_le (sound : pacer.Sound) {first last : Instant} (interval : first ≤ last)
    {offers : List Offer} (ordered : Ordered offers) :
    (total (within first last (pacer.allowed offers)) : ℚ) ≤
      pacer.capacity + pacer.rate * inSeconds (last - first) +
        total (oversized pacer.capacity (within first last (pacer.allowed offers))) := by
  induction offers generalizing pacer with
  | nil => simpa [allowed, within, oversized, total, mul_comm] using sound.full interval
  | cons offer offers ih =>
    have later : ∀ each ∈ offers, offer.now ≤ each.now := (List.pairwise_cons.mp ordered).1
    by_cases early : offer.now < first
    · obtain ⟨next, next_eq, next_sound, capacity, rate, -, -⟩ := allow_spec sound offer
      have outside : within first last (if (pacer.allow offer.bytes offer.now).1 then [offer] else []) = [] := by
        split <;> simp [within, not_le.mpr early]
      rw [allowed_cons, within_append, outside, List.nil_append, next_eq, ← capacity, ← rate]
      exact ih next_sound (List.pairwise_cons.mp ordered).2
    · have all : ∀ each ∈ offer :: offers, first ≤ each.now :=
        List.forall_mem_cons.mpr ⟨not_lt.mp early, fun each member => (not_lt.mp early).trans (later each member)⟩
      have same : (pacer.refill first).allowed (offer :: offers) = pacer.allowed (offer :: offers) := by
        rw [allowed_cons, allowed_cons, allow_refill sound _ (not_lt.mp early)]
      have reached : first ≤ (pacer.refill first).last := by
        rw [← inSeconds_le, refill_last]
        exact Bucket.le_refill_last _
      have counted := allowed_le (sound.refill first) ordered all le_rfl interval reached
      have level := (sound.refill first).bounded
      rw [same, refill_rate, refill_capacity] at counted
      rw [refill_capacity] at level
      linarith

theorem le_largest {offer : Offer} {offers : List Offer} (member : offer ∈ offers) :
    offer.bytes ≤ largest offers := by
  induction offers with
  | nil => cases member
  | cons head tail ih =>
    rcases List.mem_cons.mp member with rfl | member
    · exact le_max_left _ _
    · exact (ih member).trans (le_max_right _ _)

/-- What the pacer lets through in an interval: a full bucket, the rate over the interval, and whatever
is larger than the bucket. With at most one such packet the largest size offered covers it. -/
theorem paced_bound {bytesPerSecond : ℚ} (positive : 0 < bytesPerSecond) (burstBytes : ℕ) (start : Instant)
    {offers : List Offer} (ordered : Ordered offers) {first last : Instant} (interval : first ≤ last) :
    let passed := within first last ((create bytesPerSecond burstBytes start).allowed offers)
    let capacity : ℚ := max burstBytes kMinimumBurstBytes
    (total passed : ℚ) ≤
        capacity + bytesPerSecond * inSeconds (last - first) + total (oversized capacity passed) ∧
      ((oversized capacity passed).length ≤ 1 →
        (total passed : ℚ) ≤ capacity + bytesPerSecond * inSeconds (last - first) + largest offers) := by
  intro passed capacity
  have bound : (total passed : ℚ) ≤
      capacity + bytesPerSecond * inSeconds (last - first) + total (oversized capacity passed) :=
    allowed_within_le (create_sound positive burstBytes start) interval ordered
  refine ⟨bound, fun single => bound.trans ?_⟩
  have covered : total (oversized capacity passed) ≤ largest offers := by
    match shape : oversized capacity passed, single with
    | [], _ => exact Nat.zero_le _
    | [offer], _ =>
      have member : offer ∈ oversized capacity passed := by simp [shape]
      have offered : offer ∈ offers :=
        (allowed_sublist _ offers).subset (List.mem_of_mem_filter (List.mem_of_mem_filter member))
      simpa [total] using le_largest offered
  gcongr

/-- One packet larger than the bucket and one that waits. -/
theorem jumbo_bound :
    (total (within 0 0 ((create 1000 0 0).allowed [⟨9000, 0⟩, ⟨1000, 0⟩])) : ℚ) ≤
      max 0 kMinimumBurstBytes + 1000 * inSeconds (0 - 0) + largest [⟨9000, 0⟩, ⟨1000, 0⟩] :=
  (paced_bound (by norm_num) 0 0 (by simp [Ordered]) le_rfl).2 (by decide +kernel)

/-- Two packets larger than the bucket pass at one instant. -/
theorem jumbo_pair_exceeds :
    Ordered [⟨9000, 0⟩, ⟨9000, 0⟩] ∧
      ¬ (total (within 0 0 ((create 1000 0 0).allowed [⟨9000, 0⟩, ⟨9000, 0⟩])) : ℚ) ≤
        max 0 kMinimumBurstBytes + 1000 * inSeconds (0 - 0) + largest [⟨9000, 0⟩, ⟨9000, 0⟩] :=
  ⟨by simp [Ordered], by decide +kernel⟩

end Pacer

end Norr
