import Mathlib.Algebra.Order.Field.Rat
import Norr.Session.Session

/-! The loss that a session reports: the counters since the last sample, and what is made of them. The fractions
are rational numbers. -/

namespace Norr

open ReplayWindow

namespace Session

structure LossSample where
  raw : ℚ
  residual : ℚ
  expected : UInt64
  deriving DecidableEq, Repr

def fractionMissing (expected arrived : UInt64) : ℚ :=
  if expected ≤ arrived then 0 else 1 - arrived.toNat / expected.toNat

def lateCounted (session : Session) : UInt64 :=
  if session.sampleLate ≤ session.sampleRecovered then session.sampleLate else session.sampleRecovered

def directArrivals (session : Session) : UInt64 :=
  session.sampleReceived - session.sampleRecovered + session.lateCounted

def expectedSince (session : Session) : UInt64 :=
  if session.sampleBase < session.replay.highest then session.replay.highest - session.sampleBase else 0

def restartSample (session : Session) : Session :=
  { session with
    samplePrimed := true
    sampleBase := session.replay.highest
    sampleReceived := 0
    sampleRecovered := 0
    sampleLate := 0 }

def takeLossSample (session : Session) : Option LossSample × Session :=
  if session.samplePrimed then
    if session.expectedSince < 64 then (none, session)
    else
      (some ⟨fractionMissing session.expectedSince session.directArrivals,
        fractionMissing session.expectedSince session.sampleReceived, session.expectedSince⟩, session.restartSample)
  else if session.received = 0 then (none, session)
  else (none, session.restartSample)

/-- The counters of a session beside the packets it has accepted. Before the first sample nothing is said of those
that it resets. -/
structure Counts (session : Session) (history : List UInt64) : Prop where
  holds : ReplayWindow.Holds session.replay history
  distinct : history.Nodup
  received : session.received = UInt64.ofNat history.length
  sampled : session.samplePrimed = true → session.sampleReceived.toNat < history.length
  recovered : session.samplePrimed = true → session.sampleRecovered ≤ session.sampleReceived

def Metered (session : Session) : Prop := ∃ history, session.Counts history

/-- The part of a session that is metered. -/
def meter (session : Session) : ReplayWindow × UInt64 × Bool × UInt64 × UInt64 :=
  (session.replay, session.received, session.samplePrimed, session.sampleReceived, session.sampleRecovered)

variable {session after : Session} {history : List UInt64} {counter : UInt64} {now : Instant}

theorem Metered.of_meter (metered : session.Metered) (same : after.meter = session.meter) : after.Metered := by
  obtain ⟨history, counts⟩ := metered
  simp only [meter, Prod.mk.injEq] at same
  obtain ⟨replay, received, primed, sampled, recovered⟩ := same
  refine ⟨history, replay ▸ counts.holds, counts.distinct, received ▸ counts.received, ?_, ?_⟩
  · rw [primed, sampled]
    exact counts.sampled
  · rw [primed, recovered, sampled]
    exact counts.recovered

theorem metered_fresh (fresh : session.replay = {}) (received : session.received = 0)
    (unprimed : session.samplePrimed = false) : session.Metered := by
  refine ⟨[], fresh ▸ holds_fresh, List.nodup_nil, received, ?_, ?_⟩
  · simp [unprimed]
  · simp [unprimed]

/-- There are no more distinct counters than there are counters. -/
theorem length_le_of_nodup (distinct : history.Nodup) : history.length ≤ 2 ^ 64 := by
  have values : (history.map UInt64.toNat).Nodup := distinct.map fun _ _ => UInt64.toNat_inj.mp
  have inside : history.map UInt64.toNat ⊆ List.range (2 ^ 64) := by
    intro value member
    obtain ⟨counter, -, rfl⟩ := List.mem_map.mp member
    exact List.mem_range.mpr counter.toNat_lt
  simpa using (values.subperm inside).length_le

theorem toNat_succ {value : UInt64} (below : value.toNat + 1 < 2 ^ 64) : (value + 1).toNat = value.toNat + 1 := by
  rw [UInt64.toNat_add]
  exact Nat.mod_eq_of_lt below

/-- One more packet, counted as recovered or not. No counter wraps: the packets since a sample are fewer than
those accepted, and these are distinct. -/
theorem Counts.accepted (counts : session.Counts history) (holds : Holds after.replay (counter :: history))
    (distinct : (counter :: history).Nodup) (received : after.received = session.received + 1)
    (primed : after.samplePrimed = session.samplePrimed)
    (sampled : after.sampleReceived = session.sampleReceived + 1)
    (recovered : after.sampleRecovered = session.sampleRecovered ∨
      after.sampleRecovered = session.sampleRecovered + 1) : after.Counts (counter :: history) := by
  have bound := length_le_of_nodup distinct
  rw [List.length_cons] at bound
  refine ⟨holds, distinct, ?_, fun known => ?_, fun known => ?_⟩
  · rw [received, counts.received, List.length_cons, UInt64.ofNat_add]
    rfl
  · have before := counts.sampled (primed ▸ known)
    rw [sampled, toNat_succ (by omega), List.length_cons]
    omega
  · have before := counts.sampled (primed ▸ known)
    have fewer := UInt64.le_iff_toNat_le.mp (counts.recovered (primed ▸ known))
    rw [UInt64.le_iff_toNat_le, sampled, toNat_succ (by omega)]
    rcases recovered with same | more
    · rw [same]
      omega
    · rw [more, toNat_succ (by omega)]
      omega

/-- What commit counts, and what note_recovered adds to it. -/
theorem Metered.commit {outcome : Except SessionError Unit} (metered : session.Metered)
    (committed : session.commit counter now = (outcome, after)) :
    after.Metered ∧ (outcome = .ok () → after.noteRecovered.Metered) := by
  obtain ⟨history, counts⟩ := metered
  have holds := holds_receive counts.holds counter
  have distinct := receive_nodup counts.holds counts.distinct counter
  unfold Session.commit at committed
  simp only [receive] at holds distinct
  split at committed <;> rename_i verdict <;> rw [verdict] at holds distinct <;> cases committed
  · exact ⟨⟨history, { counts with holds }⟩, nofun⟩
  · exact ⟨⟨history, { counts with holds }⟩, nofun⟩
  · exact ⟨⟨_, counts.accepted holds distinct rfl rfl rfl (.inl rfl)⟩,
      fun _ => ⟨_, counts.accepted holds distinct rfl rfl rfl (.inr rfl)⟩⟩

theorem Metered.takeLossSample (metered : session.Metered) : session.takeLossSample.2.Metered := by
  obtain ⟨history, counts⟩ := metered
  have restarted (some : 0 < history.length) : session.restartSample.Metered :=
    ⟨history, counts.holds, counts.distinct, counts.received, fun _ => some, fun _ => UInt64.le_refl 0⟩
  unfold Session.takeLossSample
  split_ifs with primed few silent
  · exact ⟨history, counts⟩
  · exact restarted (Nat.zero_lt_of_lt (counts.sampled primed))
  · exact ⟨history, counts⟩
  · refine restarted (Nat.pos_of_ne_zero fun none => silent ?_)
    rw [counts.received, none]
    rfl

theorem fractionMissing_bounds (expected arrived : UInt64) :
    0 ≤ fractionMissing expected arrived ∧ fractionMissing expected arrived ≤ 1 := by
  unfold fractionMissing
  split_ifs with enough
  · exact ⟨le_rfl, zero_le_one⟩
  · have share : (arrived.toNat : ℚ) / expected.toNat ≤ 1 := by
      apply div_le_one_of_le₀
      · exact_mod_cast (UInt64.lt_iff_toNat_lt.mp (UInt64.not_le.mp enough)).le
      · exact Nat.cast_nonneg _
    exact ⟨sub_nonneg.mpr share, sub_le_self 1 (div_nonneg (Nat.cast_nonneg _) (Nat.cast_nonneg _))⟩

theorem fractionMissing_anti (expected : UInt64) {fewer more : UInt64} (le : fewer ≤ more) :
    fractionMissing expected more ≤ fractionMissing expected fewer := by
  by_cases enough : expected ≤ more
  · rw [fractionMissing, if_pos enough]
    exact (fractionMissing_bounds expected fewer).1
  · have short : ¬ expected ≤ fewer := fun reached => enough (UInt64.le_trans reached le)
    rw [fractionMissing, fractionMissing, if_neg enough, if_neg short]
    have counts : (fewer.toNat : ℚ) ≤ more.toNat := by exact_mod_cast UInt64.le_iff_toNat_le.mp le
    gcongr

/-- What the samples of a session rest on: the subtraction does not wrap, and recovery only lowers the loss. -/
structure Accounted (session : Session) : Prop where
  recovered : session.samplePrimed = true → session.sampleRecovered ≤ session.sampleReceived
  direct : session.samplePrimed = true → session.directArrivals.toNat =
    session.sampleReceived.toNat - session.sampleRecovered.toNat +
      min session.sampleLate.toNat session.sampleRecovered.toNat
  fewer : session.samplePrimed = true → session.directArrivals ≤ session.sampleReceived
  sample : ∀ sample, session.takeLossSample.1 = some sample →
    0 ≤ sample.residual ∧ sample.residual ≤ sample.raw ∧ sample.raw ≤ 1

theorem Metered.accounted (metered : session.Metered) : session.Accounted := by
  obtain ⟨history, counts⟩ := metered
  have direct (primed : session.samplePrimed = true) : session.directArrivals.toNat =
      session.sampleReceived.toNat - session.sampleRecovered.toNat +
        min session.sampleLate.toNat session.sampleRecovered.toNat := by
    have below := UInt64.le_iff_toNat_le.mp (counts.recovered primed)
    have late : session.lateCounted.toNat = min session.sampleLate.toNat session.sampleRecovered.toNat := by
      rw [lateCounted, min_def]
      simp only [UInt64.le_iff_toNat_le]
      split_ifs <;> rfl
    have limit := session.sampleReceived.toNat_lt
    rw [directArrivals, UInt64.toNat_add, UInt64.toNat_sub_of_le _ _ (counts.recovered primed), late]
    exact Nat.mod_eq_of_lt (by omega)
  have fewer (primed : session.samplePrimed = true) : session.directArrivals ≤ session.sampleReceived := by
    have below := UInt64.le_iff_toNat_le.mp (counts.recovered primed)
    rw [UInt64.le_iff_toNat_le, direct primed]
    omega
  refine ⟨counts.recovered, direct, fewer, fun sample taken => ?_⟩
  unfold Session.takeLossSample at taken
  split_ifs at taken with primed
  cases taken
  exact ⟨(fractionMissing_bounds _ _).1, fractionMissing_anti _ (fewer primed), (fractionMissing_bounds _ _).2⟩

end Session

end Norr
