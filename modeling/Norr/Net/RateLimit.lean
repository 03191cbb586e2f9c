import Mathlib.Data.Rat.Cast.Order
import Mathlib.Logic.Function.Basic
import Norr.Lib.Bucket
import Norr.Net.Address

/-! The limiters of `rate_limit.cpp`, with exact rationals for their doubles. -/

namespace Norr

/-- A time of the steady clock, or the time between two, in seconds. -/
def inSeconds (time : Duration) : ℚ := time / 1000000000

theorem inSeconds_sub (first second : Instant) :
    inSeconds (first - second) = inSeconds first - inSeconds second := by
  rw [inSeconds, inSeconds, inSeconds, Int.cast_sub, sub_div]

theorem inSeconds_le {first second : Instant} : inSeconds first ≤ inSeconds second ↔ first ≤ second := by
  rw [inSeconds, inSeconds, div_le_div_iff_of_pos_right (by norm_num)]
  exact Int.cast_le

structure TokenBucket where
  capacity : ℚ := 0
  refillPerSecond : ℚ := 0
  tokens : ℚ := 0
  last : Instant := 0
  initialized : Bool := false

namespace TokenBucket

def create (capacity refillPerSecond : ℚ) (now : Instant) : TokenBucket where
  capacity
  refillPerSecond
  tokens := capacity
  last := now
  initialized := true

def refill (bucket : TokenBucket) (now : Instant) : TokenBucket :=
  if now ≤ bucket.last then bucket
  else
    let elapsed := inSeconds (now - bucket.last)
    { bucket with
      tokens := min bucket.capacity (bucket.tokens + elapsed * bucket.refillPerSecond)
      last := now }

def consume (bucket : TokenBucket) (now : Instant) (tokens : ℚ) : Bool × TokenBucket :=
  let bucket := bucket.refill now
  if bucket.tokens < tokens then (false, bucket)
  else (true, { bucket with tokens := bucket.tokens - tokens })

end TokenBucket

def hashEndpoint (endpoint : Endpoint) : UInt64 :=
  endpoint.address.bytes.foldl (fun hash octet => (hash ^^^ octet.toUInt64) * 1099511628211)
    1469598103934665603

structure SourceRateLimiter where
  burst : ℚ := 8
  perSecond : ℚ := 2
  buckets : ℕ → TokenBucket := fun _ => {}
  allowed : ℕ := 0
  rejected : ℕ := 0

namespace SourceRateLimiter

def kBucketCount : ℕ := 4096

def indexOf (source : Endpoint) : ℕ := (hashEndpoint source).toNat % kBucketCount

/-- What one call does to the bucket of its source. -/
def draw (burst perSecond : ℚ) (bucket : TokenBucket) (now : Instant) : Bool × TokenBucket :=
  (if bucket.initialized then bucket else .create burst perSecond now).consume now 1

def allow (limiter : SourceRateLimiter) (source : Endpoint) (now : Instant) : Bool × SourceRateLimiter :=
  let (granted, bucket) := draw limiter.burst limiter.perSecond (limiter.buckets (indexOf source)) now
  let limiter := { limiter with buckets := Function.update limiter.buckets (indexOf source) bucket }
  if granted then (true, { limiter with allowed := limiter.allowed + 1 })
  else (false, { limiter with rejected := limiter.rejected + 1 })

/-- A call of allow. -/
structure Attempt where
  source : Endpoint
  now : Instant
  deriving DecidableEq

/-- The attempts that were allowed. -/
def granted : SourceRateLimiter → List Attempt → List Attempt
  | _, [] => []
  | limiter, attempt :: attempts =>
    match limiter.allow attempt.source attempt.now with
    | (true, limiter) => attempt :: granted limiter attempts
    | (false, limiter) => granted limiter attempts

/-- How many attempts of an address were allowed. -/
def grantedFor (limiter : SourceRateLimiter) (address : Address) (attempts : List Attempt) : ℕ :=
  (limiter.granted attempts).countP (·.source.address = address)

/-- The second sequence is the first with attempts of other addresses inserted. -/
inductive Inserted (address : Address) : List Attempt → List Attempt → Prop
  | nil : Inserted address [] []
  | keep (attempt : Attempt) {attempts more : List Attempt} :
      Inserted address attempts more → Inserted address (attempt :: attempts) (attempt :: more)
  | insert {attempt : Attempt} {attempts more : List Attempt} (other : attempt.source.address ≠ address) :
      Inserted address attempts more → Inserted address attempts (attempt :: more)

/-- The times never decrease. -/
def Ordered (attempts : List Attempt) : Prop := attempts.Pairwise (·.now ≤ ·.now)

/-- The attempts that one bucket, taken alone, allows. -/
def drawn (burst perSecond : ℚ) : TokenBucket → List Attempt → List Attempt
  | _, [] => []
  | bucket, attempt :: attempts =>
    (if (draw burst perSecond bucket attempt.now).1 then [attempt] else []) ++
      drawn burst perSecond (draw burst perSecond bucket attempt.now).2 attempts

def usesBucket (index : ℕ) (attempt : Attempt) : Bool := indexOf attempt.source = index

/-- A bucket sees only the attempts of its own sources. -/
theorem granted_bucket (limiter : SourceRateLimiter) (index : ℕ) (attempts : List Attempt) :
    (limiter.granted attempts).filter (usesBucket index) =
      drawn limiter.burst limiter.perSecond (limiter.buckets index) (attempts.filter (usesBucket index)) := by
  induction attempts generalizing limiter with
  | nil => rfl
  | cons attempt attempts ih =>
    rw [granted, allow]
    by_cases own : usesBucket index attempt = true
    · have same : indexOf attempt.source = index := by simpa [usesBucket] using own
      rw [List.filter_cons_of_pos own, drawn, same]
      rcases draw limiter.burst limiter.perSecond (limiter.buckets index) attempt.now with ⟨_ | _, bucket⟩ <;>
        simp [ih, own]
    · have other : index ≠ indexOf attempt.source := by simpa [usesBucket, eq_comm] using own
      rw [List.filter_cons_of_neg own]
      rcases draw limiter.burst limiter.perSecond (limiter.buckets (indexOf attempt.source)) attempt.now with
        ⟨_ | _, bucket⟩ <;> simp [ih, own, other]

section Level

variable {burst perSecond : ℚ}

/-- The bucket of the library this bucket is. -/
def view (bucket : TokenBucket) : Bucket ℚ := ⟨bucket.tokens, inSeconds bucket.last⟩

/-- The bucket as a call at `now` meets it; one that was never used is full. -/
def settled (burst perSecond : ℚ) (bucket : TokenBucket) (now : Instant) : Bucket ℚ :=
  if bucket.initialized then (view bucket).refill burst perSecond (inSeconds now) else ⟨burst, inSeconds now⟩

/-- A bucket in use has the limiter's parameters and a level within them. -/
structure Filled (burst perSecond : ℚ) (bucket : TokenBucket) : Prop where
  capacity : bucket.initialized → bucket.capacity = burst
  rate : bucket.initialized → bucket.refillPerSecond = perSecond
  nonneg : bucket.initialized → 0 ≤ bucket.tokens
  bounded : bucket.initialized → bucket.tokens ≤ burst

theorem filled_unused (burst perSecond : ℚ) : Filled burst perSecond {} := by
  constructor <;> simp

variable {bucket other : TokenBucket} {attempts : List Attempt} {now since : Instant} {excess : ℕ}

theorem settled_nonneg (room : 0 ≤ burst) (positive : 0 ≤ perSecond) (filled : Filled burst perSecond bucket)
    (now : Instant) : 0 ≤ (settled burst perSecond bucket now).level := by
  unfold settled
  split
  next used => exact Bucket.refill_nonneg room positive (filled.nonneg used) _
  next => exact room

theorem settled_le (filled : Filled burst perSecond bucket) (now : Instant) :
    (settled burst perSecond bucket now).level ≤ burst := by
  unfold settled
  split
  next used => exact Bucket.refill_le_capacity (filled.bounded used) _
  next => exact le_rfl

theorem view_refill (bucket : TokenBucket) (now : Instant) :
    view (bucket.refill now) = (view bucket).refill bucket.capacity bucket.refillPerSecond (inSeconds now) := by
  have early : inSeconds now ≤ (view bucket).last ↔ now ≤ bucket.last := inSeconds_le
  simp only [TokenBucket.refill, Bucket.refill, early, inSeconds_sub]
  split <;> rfl

theorem refill_fields (bucket : TokenBucket) (now : Instant) :
    (bucket.refill now).capacity = bucket.capacity ∧
      (bucket.refill now).refillPerSecond = bucket.refillPerSecond ∧
      (bucket.refill now).initialized = bucket.initialized := by
  unfold TokenBucket.refill
  split <;> exact ⟨rfl, rfl, rfl⟩

/-- The bucket a call draws from, filled up to its time. -/
theorem refilled_spec (filled : Filled burst perSecond bucket) (now : Instant) :
    ∃ refilled, (if bucket.initialized then bucket else .create burst perSecond now).refill now = refilled ∧
      refilled.capacity = burst ∧ refilled.refillPerSecond = perSecond ∧ refilled.initialized = true ∧
      view refilled = settled burst perSecond bucket now := by
  refine ⟨_, rfl, ?_⟩
  unfold settled
  split
  next used =>
    obtain ⟨capacity, rate, initialized⟩ := refill_fields bucket now
    rw [view_refill, capacity, rate, initialized, filled.capacity used, filled.rate used]
    exact ⟨rfl, rfl, used, rfl⟩
  next =>
    have same : (TokenBucket.create burst perSecond now).refill now = .create burst perSecond now := if_pos le_rfl
    rw [same]
    exact ⟨rfl, rfl, rfl, rfl⟩

/-- One call: it is granted when a token is there, and then takes it. -/
theorem draw_spec (room : 0 ≤ burst) (positive : 0 ≤ perSecond) (filled : Filled burst perSecond bucket)
    (now : Instant) :
    ∃ granted after, draw burst perSecond bucket now = (granted, after) ∧
      Filled burst perSecond after ∧ after.initialized = true ∧
      (granted = true ↔ 1 ≤ (settled burst perSecond bucket now).level) ∧
      view after = ⟨(settled burst perSecond bucket now).level - (if granted then 1 else 0),
        (settled burst perSecond bucket now).last⟩ := by
  obtain ⟨refilled, same, capacity, rate, initialized, viewed⟩ := refilled_spec filled now
  have nonneg : 0 ≤ refilled.tokens := by
    have level := settled_nonneg room positive filled now
    rwa [← viewed] at level
  have bounded : refilled.tokens ≤ burst := by
    have level := settled_le filled now
    rwa [← viewed] at level
  simp only [draw, TokenBucket.consume, same, ← viewed]
  split
  next short =>
    refine ⟨false, refilled, rfl, ?_, initialized, ?_, by simp [view]⟩
    · exact ⟨fun _ => capacity, fun _ => rate, fun _ => nonneg, fun _ => bounded⟩
    · simpa [view] using short
  next enough =>
    refine ⟨true, _, rfl, ?_, initialized, ?_, by simp [view]⟩
    · refine ⟨fun _ => capacity, fun _ => rate, fun _ => sub_nonneg.mpr (not_lt.mp enough), fun _ => ?_⟩
      exact (sub_le_self _ zero_le_one).trans bounded
    · simpa [view] using enough

/-- Whatever the order of the times, a bucket in use gives no more than its tokens and the rate over
the time to the latest call. -/
theorem drawn_length_le (room : 0 ≤ burst) (positive : 0 ≤ perSecond) (filled : Filled burst perSecond bucket)
    (used : bucket.initialized = true) {latest : Instant} (reached : bucket.last ≤ latest)
    (before : ∀ attempt ∈ attempts, attempt.now ≤ latest) :
    ((drawn burst perSecond bucket attempts).length : ℚ) ≤
      bucket.tokens + perSecond * (inSeconds latest - inSeconds bucket.last) := by
  induction attempts generalizing bucket with
  | nil =>
    have level := filled.nonneg used
    have elapsed : 0 ≤ perSecond * (inSeconds latest - inSeconds bucket.last) :=
      mul_nonneg positive (sub_nonneg.mpr (inSeconds_le.mpr reached))
    simp [drawn]
    linarith
  | cons attempt attempts ih =>
    obtain ⟨granted, after, result, filled_after, used_after, -, viewed⟩ :=
      draw_spec room positive filled attempt.now
    have now_le := before attempt List.mem_cons_self
    have settles : settled burst perSecond bucket attempt.now =
        (view bucket).refill burst perSecond (inSeconds attempt.now) := if_pos used
    have tokens : after.tokens = (settled burst perSecond bucket attempt.now).level - if granted then 1 else 0 :=
      congrArg Bucket.level viewed
    have last : inSeconds after.last = (settled burst perSecond bucket attempt.now).last :=
      congrArg Bucket.last viewed
    have reached_after : after.last ≤ latest := by
      rw [← inSeconds_le, last, settles, Bucket.refill_last]
      exact max_le (inSeconds_le.mpr reached) (inSeconds_le.mpr now_le)
    have rest := ih filled_after used_after reached_after fun later member =>
      before later (List.mem_cons_of_mem _ member)
    have grown : (settled burst perSecond bucket attempt.now).level ≤
        bucket.tokens + (inSeconds after.last - inSeconds bucket.last) * perSecond := by
      rw [last, settles]
      exact Bucket.refill_level_le _
    have counted : ((if granted then [attempt] else []).length : ℚ) = if granted then 1 else 0 := by
      cases granted <;> simp
    rw [drawn, result, List.length_append, Nat.cast_add, counted]
    linarith

/-- The same for a bucket that its first call creates. -/
theorem drawn_unused_length_le (room : 0 ≤ burst) (positive : 0 ≤ perSecond) {first : Attempt} {latest : Instant}
    (before : ∀ attempt ∈ first :: attempts, attempt.now ≤ latest) :
    ((drawn burst perSecond {} (first :: attempts)).length : ℚ) ≤
      burst + perSecond * (inSeconds latest - inSeconds first.now) := by
  have filled : Filled burst perSecond (.create burst perSecond first.now) :=
    ⟨fun _ => rfl, fun _ => rfl, fun _ => room, fun _ => le_rfl⟩
  have created : draw burst perSecond {} first.now =
      draw burst perSecond (.create burst perSecond first.now) first.now := by
    simp [draw, TokenBucket.create]
  have bound := drawn_length_le room positive filled rfl (before first List.mem_cons_self) before
  rw [drawn, ← created] at bound
  rw [drawn]
  exact bound

/-- From `since` on the second bucket holds at most `excess` tokens more than the first. -/
structure Behind (burst perSecond : ℚ) (since : Instant) (excess : ℕ) (bucket other : TokenBucket) : Prop where
  filled : Filled burst perSecond bucket
  otherFilled : Filled burst perSecond other
  reached : bucket.initialized → bucket.last ≤ since
  otherReached : other.initialized → other.last ≤ since
  level : ∀ now, since ≤ now →
    (settled burst perSecond other now).level ≤ (settled burst perSecond bucket now).level + excess

theorem settled_last (reached : bucket.initialized → bucket.last ≤ now) :
    (settled burst perSecond bucket now).last = inSeconds now := by
  unfold settled
  split
  next used =>
    rw [Bucket.refill_last]
    exact max_eq_right (inSeconds_le.mpr (reached used))
  next => rfl

/-- A call in order leaves the bucket filled up to its time, less what it took. -/
theorem draw_ordered (room : 0 ≤ burst) (positive : 0 ≤ perSecond) (filled : Filled burst perSecond bucket)
    (reached : bucket.initialized → bucket.last ≤ now) :
    ∃ granted after, draw burst perSecond bucket now = (granted, after) ∧
      Filled burst perSecond after ∧ after.last = now ∧
      (granted = true ↔ 1 ≤ (settled burst perSecond bucket now).level) ∧
      ∀ later, settled burst perSecond after later =
        (Bucket.mk ((settled burst perSecond bucket now).level - if granted then 1 else 0) (inSeconds now)).refill
          burst perSecond (inSeconds later) := by
  obtain ⟨granted, after, result, filled_after, used, grants, viewed⟩ := draw_spec room positive filled now
  rw [settled_last reached] at viewed
  have last : inSeconds after.last = inSeconds now := congrArg Bucket.last viewed
  refine ⟨granted, after, result, filled_after, ?_, grants, fun later => by rw [settled, if_pos used, viewed]⟩
  exact le_antisymm (inSeconds_le.mp last.le) (inSeconds_le.mp last.ge)

/-- Filling a bucket up on the way makes no difference later. -/
theorem settled_on_the_way (positive : 0 ≤ perSecond) {later : Instant} (order : now ≤ later) :
    ((settled burst perSecond bucket now).refill burst perSecond (inSeconds later)).level =
      (settled burst perSecond bucket later).level := by
  unfold settled
  split
  next used => rw [Bucket.refill_refill positive (inSeconds_le.mpr order)]
  next =>
    have elapsed : 0 ≤ (inSeconds later - inSeconds now) * perSecond :=
      mul_nonneg (sub_nonneg.mpr (inSeconds_le.mpr order)) positive
    rw [Bucket.refill]
    split
    next => rfl
    next => exact min_eq_left (le_add_of_nonneg_right elapsed)

/-- A call that only the second bucket sees leaves it behind. -/
theorem Behind.inserted (room : 0 ≤ burst) (positive : 0 ≤ perSecond)
    (behind : Behind burst perSecond since excess bucket other) (order : since ≤ now) :
    Behind burst perSecond now excess bucket (draw burst perSecond other now).2 := by
  have reached := fun used => (behind.otherReached used).trans order
  obtain ⟨granted, after, result, filled, last, -, later_level⟩ :=
    draw_ordered room positive behind.otherFilled reached
  rw [result]
  refine ⟨behind.filled, filled, fun used => (behind.reached used).trans order, fun _ => last.le, ?_⟩
  intro later after_now
  have cost : (0 : ℚ) ≤ if granted then 1 else 0 := by split <;> norm_num
  have same : (settled burst perSecond other now).last = inSeconds now := settled_last reached
  have drop : (Bucket.refill burst perSecond ⟨(settled burst perSecond other now).level - if granted then 1 else 0,
        inSeconds now⟩ (inSeconds later)).level ≤
      ((settled burst perSecond other now).refill burst perSecond (inSeconds later)).level + 0 :=
    Bucket.refill_level_le_add same.symm le_rfl (by simpa using cost) _
  calc (settled burst perSecond after later).level
      ≤ ((settled burst perSecond other now).refill burst perSecond (inSeconds later)).level := by
        rw [later_level]
        simpa using drop
    _ = (settled burst perSecond other later).level := settled_on_the_way positive after_now
    _ ≤ (settled burst perSecond bucket later).level + excess := behind.level later (order.trans after_now)

/-- A call that both buckets see: what one grants and the other does not goes into the excess. -/
theorem Behind.kept (room : 0 ≤ burst) (positive : 0 ≤ perSecond)
    (behind : Behind burst perSecond since excess bucket other) (order : since ≤ now) :
    ∃ excess', Behind burst perSecond now excess' (draw burst perSecond bucket now).2
        (draw burst perSecond other now).2 ∧
      excess' + (if (draw burst perSecond other now).1 then 1 else 0) =
        excess + if (draw burst perSecond bucket now).1 then 1 else 0 := by
  have reached := fun used => (behind.reached used).trans order
  have other_reached := fun used => (behind.otherReached used).trans order
  obtain ⟨granted, after, result, filled, last, grants, level⟩ := draw_ordered room positive behind.filled reached
  obtain ⟨other_granted, other_after, other_result, other_filled, other_last, other_grants, other_level⟩ :=
    draw_ordered room positive behind.otherFilled other_reached
  have near := behind.level now order
  -- the excess is a whole number, so a token that only the second bucket has counts in it
  have owed : other_granted = true → granted = false → 1 ≤ excess := by
    intro has lacks
    have full := other_grants.mp has
    have short : ¬ 1 ≤ (settled burst perSecond bucket now).level := by
      rw [← grants, lacks]
      simp
    have positive_excess : (0 : ℚ) < excess := by linarith
    exact Nat.cast_pos.mp positive_excess
  obtain ⟨rest, balance⟩ : ∃ rest : ℕ,
      rest + (if other_granted then 1 else 0) = excess + if granted then 1 else 0 := by
    refine ⟨excess + (if granted then 1 else 0) - (if other_granted then 1 else 0), ?_⟩
    cases granted <;> cases other_granted <;> simp_all
  have exactly : (rest : ℚ) + (if other_granted then 1 else 0) = excess + if granted then 1 else 0 := by
    exact_mod_cast balance
  rw [result, other_result]
  refine ⟨rest, ⟨filled, other_filled, fun _ => last.le, fun _ => other_last.le, ?_⟩, balance⟩
  intro later after_now
  rw [level, other_level]
  refine Bucket.refill_level_le_add ?_ (Nat.cast_nonneg rest) ?_ _
  · rfl
  · simp only
    linarith

theorem behind_unused (burst perSecond : ℚ) (since : Instant) : Behind burst perSecond since 0 {} {} :=
  ⟨filled_unused _ _, filled_unused _ _, by simp, by simp, by simp⟩

/-- With the attempts of one address alone in the bucket, others between them never help it. -/
theorem drawn_inserted (room : 0 ≤ burst) (positive : 0 ≤ perSecond) {address : Address} {more : List Attempt}
    (inserted : Inserted address attempts more) (alone : ∀ attempt ∈ attempts, attempt.source.address = address)
    (ordered : Ordered more) (after : ∀ attempt ∈ more, since ≤ attempt.now)
    (behind : Behind burst perSecond since excess bucket other) :
    (drawn burst perSecond other more).countP (·.source.address = address) ≤
      (drawn burst perSecond bucket attempts).length + excess := by
  induction inserted generalizing since excess bucket other with
  | nil => simp [drawn]
  | keep attempt inserted ih =>
    obtain ⟨own, alone⟩ := List.forall_mem_cons.mp alone
    obtain ⟨excess', behind', balance⟩ := behind.kept room positive (after attempt List.mem_cons_self)
    have later := ih alone (List.pairwise_cons.mp ordered).2 (List.pairwise_cons.mp ordered).1 behind'
    have counted : (if (draw burst perSecond other attempt.now).1 then [attempt] else []).countP
        (·.source.address = address) = if (draw burst perSecond other attempt.now).1 then 1 else 0 := by
      split <;> simp [own]
    have length : (if (draw burst perSecond bucket attempt.now).1 then [attempt] else []).length =
        if (draw burst perSecond bucket attempt.now).1 then 1 else 0 := by
      split <;> rfl
    rw [drawn, drawn, List.countP_append, List.length_append, counted, length]
    omega
  | @insert attempt attempts more different inserted ih =>
    have behind' := behind.inserted room positive (after attempt List.mem_cons_self)
    have later := ih alone (List.pairwise_cons.mp ordered).2 (List.pairwise_cons.mp ordered).1 behind'
    have ignored : (if (draw burst perSecond other attempt.now).1 then [attempt] else []).countP
        (·.source.address = address) = 0 := by
      split <;> simp [different]
    rw [drawn, List.countP_append, ignored, Nat.zero_add]
    exact later

end Level

theorem Inserted.filter {address : Address} {attempts more : List Attempt}
    (inserted : Inserted address attempts more) (index : ℕ) :
    Inserted address (attempts.filter (usesBucket index)) (more.filter (usesBucket index)) := by
  induction inserted with
  | nil => exact .nil
  | keep attempt inserted ih =>
    by_cases own : usesBucket index attempt = true
    · rw [List.filter_cons_of_pos own, List.filter_cons_of_pos own]
      exact .keep attempt ih
    · rw [List.filter_cons_of_neg own, List.filter_cons_of_neg own]
      exact ih
  | @insert attempt attempts more other inserted ih =>
    by_cases own : usesBucket index attempt = true
    · rw [List.filter_cons_of_pos own]
      exact .insert other ih
    · rw [List.filter_cons_of_neg own]
      exact ih

theorem indexOf_congr {first second : Endpoint} (same : first.address = second.address) :
    indexOf first = indexOf second := by
  rw [indexOf, indexOf, hashEndpoint, hashEndpoint, same]

/-- What an address is granted is what its bucket grants it. -/
theorem grantedFor_eq (limiter : SourceRateLimiter) (source : Endpoint) (attempts : List Attempt) :
    limiter.grantedFor source.address attempts =
      (drawn limiter.burst limiter.perSecond (limiter.buckets (indexOf source))
        (attempts.filter (usesBucket (indexOf source)))).countP (·.source.address = source.address) := by
  rw [grantedFor, ← granted_bucket, List.countP_filter]
  apply List.countP_congr
  intro attempt _
  simp only [usesBucket, decide_eq_true_eq, Bool.and_eq_true]
  exact ⟨fun same => ⟨same, indexOf_congr same⟩, And.left⟩

theorem drawn_sublist (burst perSecond : ℚ) (bucket : TokenBucket) (attempts : List Attempt) :
    (drawn burst perSecond bucket attempts).Sublist attempts := by
  induction attempts generalizing bucket with
  | nil => exact .slnil
  | cons attempt attempts ih =>
    rw [drawn]
    split
    next => exact (ih _).cons_cons attempt
    next => exact (ih _).cons attempt

theorem Ordered.bounded {attempts : List Attempt} (ordered : Ordered attempts) :
    ∃ since, ∀ attempt ∈ attempts, since ≤ attempt.now := by
  cases attempts with
  | nil => exact ⟨0, by simp⟩
  | cons attempt attempts =>
    exact ⟨attempt.now, List.forall_mem_cons.mpr ⟨le_rfl, (List.pairwise_cons.mp ordered).1⟩⟩

def fresh (burst perSecond : ℚ) : SourceRateLimiter := { burst, perSecond }

/-- What the limiter promises a source. The bucket of its address bounds what it is granted, whatever the
order of the times; and in order, attempts of others never help it, if none of them already shared its
bucket. -/
theorem source_limited {burst perSecond : ℚ} (atLeastOne : 1 ≤ burst) (positive : 0 ≤ perSecond) (source : Endpoint)
    (attempts : List Attempt) :
    (∀ first latest, attempts.find? (usesBucket (indexOf source)) = some first →
      (∀ attempt ∈ attempts, attempt.now ≤ latest) →
        ((fresh burst perSecond).grantedFor source.address attempts : ℚ) ≤
          burst + perSecond * inSeconds (latest - first.now)) ∧
    ∀ more, Inserted source.address attempts more → Ordered more →
      (∀ attempt ∈ attempts, indexOf attempt.source = indexOf source → attempt.source.address = source.address) →
        (fresh burst perSecond).grantedFor source.address more ≤
          (fresh burst perSecond).grantedFor source.address attempts := by
  have room : 0 ≤ burst := zero_le_one.trans atLeastOne
  constructor
  · intro first latest found before
    rw [← List.head?_filter, List.head?_eq_some_iff] at found
    obtain ⟨rest, own⟩ := found
    have early : ∀ attempt ∈ first :: rest, attempt.now ≤ latest := by
      rw [← own]
      exact fun attempt member => before attempt (List.mem_of_mem_filter member)
    have bound := drawn_unused_length_le room positive early
    rw [grantedFor_eq, own, inSeconds_sub]
    refine le_trans ?_ bound
    exact_mod_cast List.countP_le_length
  · intro more inserted ordered alone
    have own : ∀ attempt ∈ attempts.filter (usesBucket (indexOf source)),
        attempt.source.address = source.address := by
      intro attempt member
      obtain ⟨member, uses⟩ := List.mem_filter.mp member
      exact alone attempt member (of_decide_eq_true uses)
    have all : (drawn burst perSecond {} (attempts.filter (usesBucket (indexOf source)))).countP
        (·.source.address = source.address) =
        (drawn burst perSecond {} (attempts.filter (usesBucket (indexOf source)))).length := by
      rw [List.countP_eq_length]
      intro attempt member
      exact decide_eq_true (own attempt ((drawn_sublist _ _ _ _).subset member))
    obtain ⟨since, after⟩ : ∃ since, ∀ attempt ∈ more, since ≤ attempt.now := ordered.bounded
    rw [grantedFor_eq, grantedFor_eq]
    refine (drawn_inserted room positive (inserted.filter _) own (ordered.filter _) ?_
      (behind_unused burst perSecond since)).trans_eq all.symm
    exact fun attempt member => after attempt (List.mem_of_mem_filter member)

/-- Two IPv4 addresses that share a bucket. -/
def knocker : Endpoint := ⟨.fromBytes .ipv4 [10, 0, 0, 1], 4000⟩

def neighbour : Endpoint := ⟨.fromBytes .ipv4 [10, 0, 36, 109], 4000⟩

theorem knocker_limited :
    ((fresh 8 2).grantedFor knocker.address (List.replicate 9 ⟨knocker, 0⟩) : ℚ) ≤ 8 + 2 * inSeconds (0 - 0) :=
  (source_limited (by norm_num) (by norm_num) knocker _).1 ⟨knocker, 0⟩ 0 (by decide +kernel)
    (fun attempt member => (congrArg Attempt.now (List.eq_of_mem_replicate member)).le)

/-- An earlier attempt of the neighbour makes its second one fail, and the token goes to the other source. -/
theorem neighbour_helps :
    Inserted knocker.address [⟨neighbour, seconds 2⟩, ⟨knocker, seconds 2 + milliseconds 500⟩]
        [⟨neighbour, seconds 1 + milliseconds 500⟩, ⟨neighbour, seconds 2⟩,
          ⟨knocker, seconds 2 + milliseconds 500⟩] ∧
      Ordered [⟨neighbour, seconds 1 + milliseconds 500⟩, ⟨neighbour, seconds 2⟩,
        ⟨knocker, seconds 2 + milliseconds 500⟩] ∧
      (fresh 1 1).grantedFor knocker.address [⟨neighbour, seconds 2⟩, ⟨knocker, seconds 2 + milliseconds 500⟩] = 0 ∧
      (fresh 1 1).grantedFor knocker.address [⟨neighbour, seconds 1 + milliseconds 500⟩, ⟨neighbour, seconds 2⟩,
        ⟨knocker, seconds 2 + milliseconds 500⟩] = 1 := by
  refine ⟨.insert (by decide) (.keep _ (.keep _ .nil)), ?_, by decide +kernel, by decide +kernel⟩
  simp [Ordered, seconds, milliseconds]

end SourceRateLimiter

end Norr
