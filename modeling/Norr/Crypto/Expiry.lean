import Norr.Crypto.Cookie
import Norr.Lib.Rotation

/-! How long a cookie is good for: whole runs of a CookieIssuer. -/

namespace Norr

open Rotation

inductive CookieCall
  | computeCookie (source : Endpoint)
  | buildReply (source : Endpoint) (receiverIndex : UInt32) (receivedMac1 : Mac) (nonce : CookieNonce)
  | verifyMac2 (source : Endpoint) (message : Bytes) (mac2 : Mac)

/-- A call, the time it is made at and the secret it draws if it has to. -/
structure TimedCall where
  call : CookieCall
  drawn : Octets 32
  now : Instant

def TimedCall.draw (timed : TimedCall) : Draw (Octets 32) := ⟨timed.drawn, timed.now⟩

namespace CookieIssuer

variable (crypto : Crypto)

def perform (issuer : CookieIssuer) (timed : TimedCall) : CookieIssuer :=
  match timed.call with
  | .computeCookie source => (issuer.computeCookie crypto source timed.drawn timed.now).2
  | .buildReply source receiverIndex receivedMac1 nonce =>
    (issuer.buildReply crypto source receiverIndex receivedMac1 timed.drawn nonce timed.now).2
  | .verifyMac2 source message mac2 => (issuer.verifyMac2 crypto source message mac2 timed.drawn timed.now).2

def performAll (issuer : CookieIssuer) (calls : List TimedCall) : CookieIssuer :=
  calls.foldl (perform crypto) issuer

/-- The secrets verify_mac2 compares with, and when the current one was made. -/
def slots (issuer : CookieIssuer) : Slots (Octets 32) :=
  ⟨issuer.secret, if issuer.hasPrevious then some issuer.previousSecret else none, issuer.secretCreated⟩

variable {crypto}

theorem perform_eq (issuer : CookieIssuer) (timed : TimedCall) :
    issuer.perform crypto timed = issuer.refresh timed.drawn timed.now := by
  unfold perform
  split
  · rfl
  · simp only [buildReply, computeCookie]
    split <;> rfl
  · rfl

theorem performAll_concat (issuer : CookieIssuer) (calls : List TimedCall) (timed : TimedCall) :
    issuer.performAll crypto (calls ++ [timed]) =
      (issuer.performAll crypto calls).refresh timed.drawn timed.now := by
  rw [performAll, List.foldl_append, List.foldl_cons, List.foldl_nil, perform_eq]
  rfl

theorem refresh_created (issuer : CookieIssuer) (drawn : Octets 32) (now : Instant) :
    (issuer.refresh drawn now).secretCreated = issuer.secretCreated ∨
      (issuer.refresh drawn now).secretCreated = now := by
  unfold refresh
  split_ifs
  · exact .inr rfl
  · exact .inr rfl
  · exact .inl rfl

/-- Once a secret has been made the two fields rotate; the epoch stands for no secret. -/
theorem refresh_slots (issuer : CookieIssuer) (drawn : Octets 32) (now : Instant)
    (made : issuer.secretCreated ≠ 0) :
    (issuer.refresh drawn now).slots = Rotation.refresh kCookieSecretLifetime issuer.slots ⟨drawn, now⟩ := by
  simp only [refresh, made, false_or, ne_eq, not_false_eq_true, if_true, Rotation.refresh]
  by_cases aged : kCookieSecretLifetime ≤ now - issuer.secretCreated
  · rw [if_pos aged, if_pos (show kCookieSecretLifetime ≤ now - issuer.slots.created from aged)]
    rfl
  · rw [if_neg aged, if_neg (show ¬ kCookieSecretLifetime ≤ now - issuer.slots.created from aged)]

theorem performAll_slots (issuer : CookieIssuer) (calls : List TimedCall) (made : 0 < issuer.secretCreated)
    (later : ∀ timed ∈ calls, 0 < timed.now) :
    (issuer.performAll crypto calls).slots =
      Rotation.run kCookieSecretLifetime issuer.slots (calls.map TimedCall.draw) := by
  induction calls generalizing issuer with
  | nil => rfl
  | cons timed calls ih =>
    obtain ⟨first, rest⟩ := List.forall_mem_cons.mp later
    have still : 0 < (issuer.perform crypto timed).secretCreated := by
      rw [perform_eq]
      rcases issuer.refresh_created timed.drawn timed.now with same | fresh
      · rw [same]
        exact made
      · rw [fresh]
        exact first
    have stepped := ih (issuer.perform crypto timed) still rest
    rw [perform_eq, refresh_slots issuer _ _ made.ne'] at stepped
    exact (congrArg (fun issuer => (performAll crypto issuer calls).slots)
      (perform_eq issuer timed)).trans stepped

theorem refresh_forgotten {issuer : CookieIssuer} {secret drawn : Octets 32} (now : Instant)
    (unknown : ¬ issuer.slots.Knows secret ∨ issuer.secretCreated = 0 ∧ issuer.slots.previous ≠ some secret)
    (fresh : drawn ≠ secret) : ¬ (issuer.refresh drawn now).slots.Knows secret := by
  by_cases epoch : issuer.secretCreated = 0
  · have previous : issuer.slots.previous ≠ some secret := by
      rcases unknown with unknown | ⟨-, previous⟩
      · exact fun kept => unknown (.inr kept)
      · exact previous
    rintro (current | kept)
    · rw [refresh, if_pos (.inl epoch)] at current
      exact fresh current
    · simp only [refresh, epoch, true_or, if_true, ne_eq, not_true_eq_false, if_false] at kept
      exact previous kept
  · rw [refresh_slots issuer drawn now epoch]
    rcases unknown with unknown | ⟨zero, -⟩
    · exact refresh_unknown unknown fresh
    · exact absurd zero epoch

theorem performAll_forgotten {issuer : CookieIssuer} {secret : Octets 32} (calls : List TimedCall)
    (unknown : ¬ issuer.slots.Knows secret) (fresh : ∀ timed ∈ calls, timed.drawn ≠ secret) :
    ¬ (issuer.performAll crypto calls).slots.Knows secret := by
  induction calls generalizing issuer with
  | nil => exact unknown
  | cons timed calls ih =>
    obtain ⟨first, rest⟩ := List.forall_mem_cons.mp fresh
    apply ih _ rest
    rw [perform_eq]
    exact refresh_forgotten timed.now (.inl unknown) first

/-- The secrets of the issuer are among those drawn, and differ. -/
structure Drawn (history : List (Octets 32)) (issuer : CookieIssuer) : Prop where
  started : issuer.secretCreated ≠ 0 → history ≠ []
  secret : history ≠ [] → issuer.secret ∈ history
  previous : ∀ previous, issuer.slots.previous = some previous → previous ∈ history ∧ previous ≠ issuer.secret

theorem drawn_create (localStatic : PublicKey) : (create crypto localStatic).Drawn [] where
  started := fun made => absurd rfl made
  secret := fun some => absurd rfl some
  previous := fun _ kept => by cases kept

theorem Drawn.refresh {history : List (Octets 32)} {issuer : CookieIssuer} (known : issuer.Drawn history)
    {drawn : Octets 32} (fresh : drawn ∉ history) (now : Instant) :
    (issuer.refresh drawn now).Drawn (history ++ [drawn]) := by
  have last : drawn ∈ history ++ [drawn] := List.mem_append_right _ List.mem_cons_self
  have apart {other : Octets 32} (member : other ∈ history) : other ∈ history ++ [drawn] ∧ other ≠ drawn :=
    ⟨List.mem_append_left _ member, fun same => fresh (same ▸ member)⟩
  by_cases epoch : issuer.secretCreated = 0
  · have stepped : issuer.refresh drawn now = { issuer with secret := drawn, secretCreated := now } := by
      simp [CookieIssuer.refresh, epoch]
    rw [stepped]
    exact ⟨fun _ => by simp, fun _ => last, fun previous kept => apart (known.previous previous kept).1⟩
  · by_cases aged : kCookieSecretLifetime ≤ now - issuer.secretCreated
    · have stepped : issuer.refresh drawn now = { issuer with
          previousSecret := issuer.secret, hasPrevious := true, secret := drawn, secretCreated := now } := by
        simp [CookieIssuer.refresh, epoch, aged]
      rw [stepped]
      refine ⟨fun _ => by simp, fun _ => last, fun previous kept => ?_⟩
      cases kept
      exact apart (known.secret (known.started epoch))
    · have stepped : issuer.refresh drawn now = issuer := by
        simp [CookieIssuer.refresh, epoch, aged]
      rw [stepped]
      refine ⟨fun _ => by simp, fun _ => (apart (known.secret (known.started epoch))).1, ?_⟩
      intro previous kept
      obtain ⟨member, differs⟩ := known.previous previous kept
      exact ⟨(apart member).1, differs⟩

theorem Drawn.performAll {history : List (Octets 32)} {issuer : CookieIssuer} (known : issuer.Drawn history)
    (calls : List TimedCall) (distinct : (history ++ calls.map TimedCall.drawn).Nodup) :
    (issuer.performAll crypto calls).Drawn (history ++ calls.map TimedCall.drawn) := by
  induction calls generalizing history issuer with
  | nil =>
    rw [List.map_nil, List.append_nil]
    exact known
  | cons timed calls ih =>
    have split : history ++ (timed :: calls).map TimedCall.drawn =
        (history ++ [timed.drawn]) ++ calls.map TimedCall.drawn := by simp
    rw [split] at distinct ⊢
    have fresh : timed.drawn ∉ history := by
      have front := (List.nodup_append.mp distinct).1
      exact fun member => (List.nodup_append.mp front).2.2 _ member _ List.mem_cons_self rfl
    have stepped := known.refresh fresh timed.now
    rw [← perform_eq] at stepped
    exact ih stepped distinct

theorem performAll_created (issuer : CookieIssuer) (calls : List TimedCall) :
    (issuer.performAll crypto calls).secretCreated = issuer.secretCreated ∨
      ∃ timed ∈ calls, (issuer.performAll crypto calls).secretCreated = timed.now := by
  induction calls generalizing issuer with
  | nil => exact .inl rfl
  | cons timed calls ih =>
    rcases ih (issuer.perform crypto timed) with same | ⟨other, member, made⟩
    · rw [perform_eq] at same
      rcases issuer.refresh_created timed.drawn timed.now with kept | fresh
      · exact .inl (by rw [performAll, List.foldl_cons, perform_eq]; exact same.trans kept)
      · refine .inr ⟨timed, List.mem_cons_self, ?_⟩
        rw [performAll, List.foldl_cons, perform_eq]
        exact same.trans fresh
    · exact .inr ⟨other, List.mem_cons_of_mem _ member, made⟩

/-- verify_mac2 compares with the cookies of the secrets it knows. -/
theorem verifyMac2_iff (issuer : CookieIssuer) (source : Endpoint) (message : Bytes) (mac2 : Mac)
    (drawn : Octets 32) (now : Instant) :
    (issuer.verifyMac2 crypto source message mac2 drawn now).1 = true ↔
      ∃ secret, (issuer.refresh drawn now).slots.Knows secret ∧
        keyedMac crypto (cookieFor crypto secret source).toList message = mac2 := by
  simp only [verifyMac2, Bool.or_eq_true, Bool.and_eq_true, decide_eq_true_eq]
  constructor
  · rintro (current | ⟨has, previous⟩)
    · exact ⟨_, .inl rfl, current⟩
    · exact ⟨_, .inr (by simp [slots, has]), previous⟩
  · rintro ⟨secret, current | previous, same⟩
    · rw [← current] at same
      exact .inl same
    · simp only [slots, Option.ite_none_right_eq_some, Option.some.injEq] at previous
      exact .inr ⟨previous.1, previous.2 ▸ same⟩

end CookieIssuer

/-- A run of an issuer around one cookie: the calls before it is issued, the calls until a mac2 made
with it is verified, and the surroundings of those two calls. -/
structure CookieRun where
  localStatic : PublicKey
  before : List TimedCall
  source : Endpoint
  secret : Octets 32
  issuedAt : Instant
  after : List TimedCall
  message : Bytes
  drawn : Octets 32
  now : Instant

namespace CookieRun

variable (crypto : Crypto)

/-- The cookie compute_cookie returns, also inside build_reply, and the issuer then. -/
def issue (run : CookieRun) : Cookie × CookieIssuer :=
  ((CookieIssuer.create crypto run.localStatic).performAll crypto run.before).computeCookie crypto
    run.source run.secret run.issuedAt

def verdict (run : CookieRun) : Bool :=
  (((run.issue crypto).2.performAll crypto run.after).verifyMac2 crypto run.source run.message
    (keyedMac crypto (run.issue crypto).1.toList run.message) run.drawn run.now).1

/-- The mac2 that the cookie of a secret gives. -/
def mac2 (run : CookieRun) (secret : Octets 32) : Mac :=
  keyedMac crypto (CookieIssuer.cookieFor crypto secret run.source).toList run.message

/-- The calls up to the cookie, and those from there to the verification. -/
def head (run : CookieRun) : List TimedCall :=
  run.before ++ [⟨.computeCookie run.source, run.secret, run.issuedAt⟩]

def tail (run : CookieRun) : List TimedCall :=
  run.after ++ [⟨.verifyMac2 run.source run.message
    (keyedMac crypto (run.issue crypto).1.toList run.message), run.drawn, run.now⟩]

/-- Times do not decrease and start at the epoch, secrets are distinct, and so are their mac2. -/
structure Fair (run : CookieRun) : Prop where
  ordered : (run.head ++ run.tail crypto).Pairwise fun first second => first.now ≤ second.now
  started : ∀ timed ∈ run.head ++ run.tail crypto, 0 ≤ timed.now
  distinct : (run.head.map TimedCall.drawn ++ (run.tail crypto).map TimedCall.drawn).Nodup
  collisionFree : ∀ first ∈ run.head ++ run.tail crypto, ∀ second ∈ run.head ++ run.tail crypto,
    run.mac2 crypto first.drawn = run.mac2 crypto second.drawn → first.drawn = second.drawn

variable {crypto} {run : CookieRun}

theorem issue_performed : (run.issue crypto).2 =
    (CookieIssuer.create crypto run.localStatic).performAll crypto run.head := by
  rw [head, CookieIssuer.performAll_concat]
  rfl

theorem issue_drawn (fair : run.Fair crypto) :
    (run.issue crypto).2.Drawn (run.head.map TimedCall.drawn) := by
  rw [issue_performed]
  have distinct : ([] ++ run.head.map TimedCall.drawn).Nodup := (List.nodup_append.mp fair.distinct).1
  exact (CookieIssuer.drawn_create run.localStatic).performAll run.head distinct

theorem secret_mem (fair : run.Fair crypto) :
    (run.issue crypto).2.secret ∈ run.head.map TimedCall.drawn :=
  (issue_drawn fair).secret (by simp [head])

theorem tail_fresh (fair : run.Fair crypto) (timed : TimedCall) (member : timed ∈ run.tail crypto) :
    timed.drawn ≠ (run.issue crypto).2.secret := by
  have apart := (List.nodup_append.mp fair.distinct).2.2 _ (secret_mem fair) _ (List.mem_map_of_mem member)
  exact apart.symm

/-- The cookie passes exactly when its secret is still one of the two the issuer holds. -/
theorem verdict_iff (fair : run.Fair crypto) :
    run.verdict crypto = true ↔
      ((run.issue crypto).2.performAll crypto (run.tail crypto)).slots.Knows (run.issue crypto).2.secret := by
  have performed : ((run.issue crypto).2.performAll crypto (run.tail crypto)).Drawn _ :=
    (issue_drawn fair).performAll (run.tail crypto) fair.distinct
  have final : (run.issue crypto).2.performAll crypto (run.tail crypto) =
      ((run.issue crypto).2.performAll crypto run.after).refresh run.drawn run.now :=
    CookieIssuer.performAll_concat _ run.after _
  rw [verdict, CookieIssuer.verifyMac2_iff, ← final]
  constructor
  · rintro ⟨secret, known, same⟩
    have drawn : secret ∈ run.head.map TimedCall.drawn ++ (run.tail crypto).map TimedCall.drawn := by
      rcases known with current | previous
      · exact current ▸ performed.secret (by simp [head])
      · exact (performed.previous secret previous).1
    have own := List.mem_append_left ((run.tail crypto).map TimedCall.drawn) (secret_mem fair)
    rw [← List.map_append] at drawn own
    obtain ⟨first, member, rfl⟩ := List.mem_map.mp drawn
    obtain ⟨second, otherMember, issued⟩ := List.mem_map.mp own
    have equal := fair.collisionFree first member second otherMember (issued ▸ same)
    rwa [equal, issued] at known
  · exact fun known => ⟨_, known, rfl⟩

theorem created_bounds (fair : run.Fair crypto) :
    0 ≤ (run.issue crypto).2.secretCreated ∧ (run.issue crypto).2.secretCreated ≤ run.issuedAt := by
  have inside (timed : TimedCall) (member : timed ∈ run.head) : 0 ≤ timed.now ∧ timed.now ≤ run.issuedAt := by
    refine ⟨fair.started timed (List.mem_append_left _ member), ?_⟩
    rcases List.mem_append.mp member with before | last
    · have ordered := (List.pairwise_append.mp fair.ordered).1
      exact (List.pairwise_append.mp ordered).2.2 timed before _ List.mem_cons_self
    · rw [List.mem_singleton.mp last]
  have last := inside ⟨.computeCookie run.source, run.secret, run.issuedAt⟩ (by simp [head])
  rw [issue_performed]
  rcases (CookieIssuer.create crypto run.localStatic).performAll_created run.head with
    same | ⟨timed, member, made⟩
  · rw [same]
    exact ⟨le_rfl, last.1⟩
  · rw [made]
    exact inside timed member

/-- A secret made at the epoch is replaced by the next call without being kept. -/
theorem epoch_forgotten (fair : run.Fair crypto) (epoch : (run.issue crypto).2.secretCreated = 0) :
    ¬ ((run.issue crypto).2.performAll crypto (run.tail crypto)).slots.Knows (run.issue crypto).2.secret := by
  have previous : (run.issue crypto).2.slots.previous ≠ some (run.issue crypto).2.secret :=
    fun kept => ((issue_drawn fair).previous _ kept).2 rfl
  have fresh := tail_fresh fair
  cases calls : run.tail crypto with
  | nil => simp [tail] at calls
  | cons timed rest =>
    rw [calls] at fresh
    obtain ⟨first, others⟩ := List.forall_mem_cons.mp fresh
    apply CookieIssuer.performAll_forgotten rest _ others
    rw [CookieIssuer.perform_eq]
    exact CookieIssuer.refresh_forgotten timed.now (.inr ⟨epoch, previous⟩) first

/-- Otherwise it is forgotten after two calls a lifetime apart, the first a lifetime after it was made. -/
theorem knows_iff (fair : run.Fair crypto) (made : (run.issue crypto).2.secretCreated ≠ 0) :
    ((run.issue crypto).2.performAll crypto (run.tail crypto)).slots.Knows (run.issue crypto).2.secret ↔
      ∀ first ∈ run.tail crypto,
        (run.issue crypto).2.secretCreated + kCookieSecretLifetime ≤ first.now →
          ∀ second ∈ run.tail crypto, second.now < first.now + kCookieSecretLifetime := by
  obtain ⟨nonnegative, before⟩ := created_bounds fair
  have positive : 0 < (run.issue crypto).2.secretCreated := lt_of_le_of_ne nonnegative made.symm
  obtain ⟨-, ordered, apart⟩ := List.pairwise_append.mp fair.ordered
  have later : ∀ timed ∈ run.tail crypto, 0 < timed.now := by
    intro timed member
    have issued := apart ⟨.computeCookie run.source, run.secret, run.issuedAt⟩ (by simp [head]) timed member
    exact positive.trans_le (before.trans issued)
  have phase : Rotation.Current (run.issue crypto).2.secret (run.issue crypto).2.secretCreated
      (run.issue crypto).2.slots :=
    ⟨rfl, fun kept => ((issue_drawn fair).previous _ kept).2 rfl, rfl⟩
  rw [CookieIssuer.performAll_slots _ _ positive later,
    Rotation.run_knows_iff (by decide) _ phase (by simpa [TimedCall.draw] using tail_fresh fair)
      (List.pairwise_map.mpr ordered)]
  simp [TimedCall.draw]

/-- However late it comes, a mac2 made with a cookie is refused exactly when some call has fallen between
a lifetime after the cookie's secret was made and a lifetime before the verification: without such a
call the rotation of the verification itself keeps the secret. -/
theorem verdict_refused_iff (fair : run.Fair crypto) :
    run.verdict crypto = false ↔
      (run.issue crypto).2.secretCreated = 0 ∨
        ∃ timed ∈ run.after,
          (run.issue crypto).2.secretCreated + kCookieSecretLifetime ≤ timed.now ∧
            timed.now + kCookieSecretLifetime ≤ run.now := by
  have lifetime : (0 : ℤ) < kCookieSecretLifetime := by decide
  rw [← Bool.not_eq_true, verdict_iff fair]
  by_cases epoch : (run.issue crypto).2.secretCreated = 0
  · exact iff_of_true (epoch_forgotten fair epoch) (.inl epoch)
  rw [knows_iff fair epoch, or_iff_right epoch]
  have final : (⟨.verifyMac2 run.source run.message (keyedMac crypto (run.issue crypto).1.toList run.message),
      run.drawn, run.now⟩ : TimedCall) ∈ run.tail crypto := List.mem_append_right _ List.mem_cons_self
  have latest (timed : TimedCall) (member : timed ∈ run.tail crypto) : timed.now ≤ run.now := by
    have ordered := (List.pairwise_append.mp fair.ordered).2.1
    rcases List.mem_append.mp member with inside | last
    · exact (List.pairwise_append.mp ordered).2.2 timed inside _ List.mem_cons_self
    · rw [List.mem_singleton.mp last]
  constructor
  · intro forgotten
    push Not at forgotten
    obtain ⟨first, member, aged, second, otherMember, apart⟩ := forgotten
    have close := apart.trans (latest second otherMember)
    rcases List.mem_append.mp member with inside | last
    · exact ⟨first, inside, aged, close⟩
    · rw [List.mem_singleton.mp last] at close
      exact absurd close (not_le.mpr (lt_add_of_pos_right _ lifetime))
  · rintro ⟨timed, member, aged, close⟩ near
    exact absurd (near timed (List.mem_append_left _ member) aged _ final) (not_lt.mpr close)

/-- A MAC that shows its key, so that no two cookies of a run collide. -/
def openMac : Crypto := { Crypto.plain with mac := fun key _ => Octets.ofBytes 16 key }

/-- A cookie issued after one second and no call until the verification four minutes later. -/
def idleRun : CookieRun where
  localStatic := (Crypto.plainPair 1).publicKey
  before := []
  source := {}
  secret := Vector.replicate 32 2
  issuedAt := seconds 1
  after := []
  message := [1]
  drawn := Vector.replicate 32 3
  now := seconds 241

theorem idleRun_fair : idleRun.Fair openMac := by
  refine ⟨by decide +kernel, by decide +kernel, by decide +kernel, by decide +kernel⟩

theorem verdict_refused_iff_idle : idleRun.verdict openMac = false ↔
    (idleRun.issue openMac).2.secretCreated = 0 ∨
      ∃ timed ∈ idleRun.after,
        (idleRun.issue openMac).2.secretCreated + kCookieSecretLifetime ≤ timed.now ∧
          timed.now + kCookieSecretLifetime ≤ idleRun.now :=
  verdict_refused_iff idleRun_fair

theorem idle_cookie_passes : idleRun.Fair openMac ∧
    idleRun.issuedAt + 2 * kCookieSecretLifetime ≤ idleRun.now ∧ idleRun.verdict openMac = true :=
  ⟨idleRun_fair, by decide +kernel, by decide +kernel⟩

end CookieRun

end Norr
