import Mathlib.Data.Nat.Bitwise
import Norr.Lib.SlidingWindow

/-! The anti-replay window of a session: a circular bitmap of 128 words. -/

namespace Norr

open SlidingWindow

inductive ReplayResult
  | accepted
  | replayed
  | tooOld
  deriving DecidableEq, Repr

structure ReplayWindow where
  initialized : Bool := false
  highest : UInt64 := 0
  seen : Vector UInt64 128 := Vector.replicate 128 0
  deriving DecidableEq, Repr

namespace ReplayWindow

def kWindowSize : UInt64 := 8192

def wordOf (counter : UInt64) : Nat := ((counter / 64) % (kWindowSize / 64)).toNat

theorem wordOf_lt (counter : UInt64) : wordOf counter < 128 := by
  simp only [wordOf, kWindowSize, UInt64.toNat_mod, UInt64.toNat_div]
  exact Nat.mod_lt _ (by decide)

def bitOf (counter : UInt64) : UInt64 := 1 <<< (counter % 64)

def word (window : ReplayWindow) (counter : UInt64) : UInt64 :=
  window.seen.get ⟨wordOf counter, wordOf_lt counter⟩

def setWord (window : ReplayWindow) (counter value : UInt64) : ReplayWindow :=
  { window with seen := window.seen.set (wordOf counter) value (wordOf_lt counter) }

def test (window : ReplayWindow) (counter : UInt64) : Bool :=
  (window.word counter &&& bitOf counter) != 0

def set (window : ReplayWindow) (counter : UInt64) : ReplayWindow :=
  window.setWord counter (window.word counter ||| bitOf counter)

def clear (window : ReplayWindow) (counter : UInt64) : ReplayWindow :=
  window.setWord counter (window.word counter &&& ~~~bitOf counter)

/-- The body of the loop of `clear_range`, with its early exit at `last`. -/
def clearLoop (last : UInt64) : Nat → UInt64 → ReplayWindow → ReplayWindow
  | 0, _, window => window
  | fuel + 1, counter, window =>
    if counter ≤ last then
      let cleared := window.clear counter
      if counter = last then cleared else clearLoop last fuel (counter + 1) cleared
    else window

def clearRange (window : ReplayWindow) (first last : UInt64) : ReplayWindow :=
  if kWindowSize ≤ last - first + 1 then { window with seen := Vector.replicate 128 0 }
  -- below the guard the loop runs fewer than `kWindowSize` times
  else clearLoop last kWindowSize.toNat first window

def accept (window : ReplayWindow) (counter : UInt64) : ReplayResult × ReplayWindow :=
  if window.initialized = false then
    (.accepted, { window with initialized := true, highest := counter }.set counter)
  else if window.highest < counter then
    (.accepted, { window.clearRange (window.highest + 1) counter with highest := counter }.set counter)
  else if kWindowSize ≤ window.highest - counter then (.tooOld, window)
  else if window.test counter then (.replayed, window)
  else (.accepted, window.set counter)

/-- The bit a slot of the ring holds, read through the words of the bitmap. -/
def bit (window : ReplayWindow) (slot : ℕ) : Bool :=
  (window.seen.get (Fin.ofNat 128 (slot / 64))).toNat.testBit (slot % 64)

def toRing (window : ReplayWindow) : SlidingWindow.Ring :=
  ⟨window.initialized, window.highest.toNat, fun slot => decide (slot < 8192) && window.bit slot⟩

theorem wordOf_eq (counter : UInt64) : wordOf counter = counter.toNat % 8192 / 64 := by
  simp only [wordOf, kWindowSize, UInt64.toNat_mod, UInt64.toNat_div]
  change counter.toNat / 64 % 128 = counter.toNat % 8192 / 64
  omega

theorem bitOf_toNat (counter : UInt64) : (bitOf counter).toNat = 2 ^ (counter.toNat % 64) := by
  have small : counter.toNat % 64 < 64 := Nat.mod_lt _ (by decide)
  have power : 2 ^ (counter.toNat % 64) < 2 ^ 64 := Nat.pow_lt_pow_right (by decide) small
  simp only [bitOf, UInt64.toNat_shiftLeft, UInt64.toNat_mod]
  change 1 <<< (counter.toNat % 64 % 64) % 2 ^ 64 = 2 ^ (counter.toNat % 64)
  rw [Nat.mod_mod, Nat.one_shiftLeft, Nat.mod_eq_of_lt power]

theorem not_bitOf_testBit (counter : UInt64) (index : ℕ) (bound : index < 64) :
    (~~~bitOf counter).toNat.testBit index = !decide (index = counter.toNat % 64) := by
  have value : (bitOf counter).toBitVec.getLsbD index = decide (index = counter.toNat % 64) := by
    rw [BitVec.getLsbD, UInt64.toNat_toBitVec, bitOf_toNat, Nat.testBit_two_pow]
    simp [eq_comm]
  have same : (~~~bitOf counter).toNat.testBit index = (~~~(bitOf counter).toBitVec).getLsbD index := by
    rw [BitVec.getLsbD, ← UInt64.toBitVec_not, UInt64.toNat_toBitVec]
  rw [same, BitVec.getLsbD_not, value]
  simp [bound]

theorem word_eq (window : ReplayWindow) (counter : UInt64) :
    window.word counter = window.seen.get (Fin.ofNat 128 (counter.toNat % 8192 / 64)) := by
  unfold word
  congr 1
  apply Fin.ext
  have bound : counter.toNat % 8192 / 64 < 128 := by omega
  simp [wordOf_eq, Fin.ofNat, Nat.mod_eq_of_lt bound]

theorem test_eq_bit (window : ReplayWindow) (counter : UInt64) :
    window.test counter = window.bit (counter.toNat % 8192) := by
  have index : counter.toNat % 8192 % 64 = counter.toNat % 64 := by omega
  rw [test, bit, ← word_eq, index, Bool.eq_iff_iff, bne_iff_ne, ne_eq, ← UInt64.toNat_inj,
    UInt64.toNat_and, bitOf_toNat, Nat.and_two_pow]
  change ¬_ = 0 ↔ _
  cases (window.word counter).toNat.testBit (counter.toNat % 64) <;> simp

theorem setWord_bit (window : ReplayWindow) (counter value : UInt64) (slot : ℕ) (bound : slot < 8192) :
    (window.setWord counter value).bit slot =
      if slot / 64 = wordOf counter then value.toNat.testBit (slot % 64) else window.bit slot := by
  have small : slot / 64 < 128 := by omega
  have index : (Fin.ofNat 128 (slot / 64)).val = slot / 64 := Nat.mod_eq_of_lt small
  unfold bit setWord
  change ((window.seen.set (wordOf counter) value
    (wordOf_lt counter))[(Fin.ofNat 128 (slot / 64)).val]).toNat.testBit (slot % 64) = _
  rw [Vector.getElem_set]
  by_cases same : slot / 64 = wordOf counter
  · rw [if_pos same, if_pos (index.trans same).symm]
  · rw [if_neg same, if_neg (fun equal => same (index ▸ equal.symm))]
    rfl

theorem slot_split (slot : ℕ) (counter : UInt64) :
    slot = counter.toNat % 8192 ↔ slot / 64 = wordOf counter ∧ slot % 64 = counter.toNat % 64 := by
  rw [wordOf_eq]
  omega

theorem word_slot (window : ReplayWindow) {counter : UInt64} {slot : ℕ} (same : slot / 64 = wordOf counter) :
    window.word counter = window.seen.get (Fin.ofNat 128 (slot / 64)) := by
  rw [word_eq, same, wordOf_eq]

theorem set_bit (window : ReplayWindow) (counter : UInt64) (slot : ℕ) (bound : slot < 8192) :
    (window.set counter).bit slot = (window.bit slot || decide (slot = counter.toNat % 8192)) := by
  rw [set, setWord_bit _ _ _ _ bound]
  simp only [slot_split slot counter]
  by_cases same : slot / 64 = wordOf counter
  · rw [if_pos same, UInt64.toNat_or, Nat.testBit_or, bitOf_toNat, Nat.testBit_two_pow, bit, word_slot window same]
    simp [same, eq_comm]
  · simp [same]

theorem clear_bit (window : ReplayWindow) (counter : UInt64) (slot : ℕ) (bound : slot < 8192) :
    (window.clear counter).bit slot = (window.bit slot && !decide (slot = counter.toNat % 8192)) := by
  rw [clear, setWord_bit _ _ _ _ bound]
  simp only [slot_split slot counter]
  by_cases same : slot / 64 = wordOf counter
  · have small : slot % 64 < 64 := Nat.mod_lt _ (by decide)
    rw [if_pos same, UInt64.toNat_and, Nat.testBit_and, not_bitOf_testBit _ _ small, bit, word_slot window same]
    simp [same]
  · simp [same]

@[simp]
theorem clear_initialized (window : ReplayWindow) (counter : UInt64) :
    (window.clear counter).initialized = window.initialized := rfl

theorem clearLoop_initialized (last : UInt64) (fuel : ℕ) (counter : UInt64) (window : ReplayWindow) :
    (clearLoop last fuel counter window).initialized = window.initialized := by
  induction fuel generalizing counter window with
  | zero => rfl
  | succ fuel ih =>
    simp only [clearLoop]
    split_ifs
    · rfl
    · rw [ih, clear_initialized]
    · rfl

theorem clearLoop_bit (last : UInt64) (fuel : ℕ) (first : UInt64) (window : ReplayWindow)
    (enough : last.toNat < first.toNat + fuel) (slot : ℕ) (bound : slot < 8192) :
    (clearLoop last fuel first window).bit slot = true ↔
      window.bit slot = true ∧
        ∀ value, first.toNat ≤ value → value ≤ last.toNat → value % 8192 ≠ slot := by
  induction fuel generalizing first window with
  | zero =>
    simp only [clearLoop, iff_self_and]
    intro _ value lower upper
    omega
  | succ fuel ih =>
    simp only [clearLoop]
    have cleared := clear_bit window first slot bound
    by_cases inside : first ≤ last
    · rw [if_pos inside]
      by_cases final : first = last
      · subst final
        rw [if_pos rfl, cleared]
        simp only [Bool.and_eq_true, Bool.not_eq_true', decide_eq_false_iff_not]
        refine and_congr_right fun _ => ⟨?_, fun clear => (clear _ le_rfl le_rfl).symm⟩
        intro differs value lower upper
        rw [le_antisymm upper lower]
        exact fun same => differs same.symm
      · have strict : first.toNat < last.toNat :=
          lt_of_le_of_ne (UInt64.le_iff_toNat_le.mp inside) (fun same => final (UInt64.toNat_inj.mp same))
        have next : (first + 1).toNat = first.toNat + 1 := by
          rw [UInt64.toNat_add]
          change (first.toNat + 1) % 2 ^ 64 = _
          exact Nat.mod_eq_of_lt (by have := last.toNat_lt; omega)
        rw [if_neg final, ih (first + 1) _ (by omega), next, cleared]
        simp only [Bool.and_eq_true, Bool.not_eq_true', decide_eq_false_iff_not, and_assoc]
        refine and_congr_right fun _ => ⟨?_, fun clear => ⟨?_, ?_⟩⟩
        · rintro ⟨differs, clear⟩ value lower upper
          rcases lower.eq_or_lt with rfl | lower
          · exact fun same => differs same.symm
          · exact clear value lower upper
        · exact fun same => clear _ le_rfl strict.le same.symm
        · exact fun value lower upper => clear value (by omega) upper
    · rw [if_neg inside, iff_self_and]
      intro _ value lower upper
      rw [UInt64.le_iff_toNat_le] at inside
      omega

theorem clearRange_initialized (window : ReplayWindow) (first last : UInt64) :
    (window.clearRange first last).initialized = window.initialized := by
  unfold clearRange
  split_ifs
  · rfl
  · exact clearLoop_initialized _ _ _ _

/-- A window that has accepted nothing is at zero. -/
def Blank (window : ReplayWindow) : Prop := window.initialized = false → window.highest = 0

theorem accept_initialized (window : ReplayWindow) (counter : UInt64) :
    (window.accept counter).2.initialized = true := by
  unfold accept
  split_ifs with fresh
  · rfl
  all_goals
    have initialized : window.initialized = true := Bool.eq_true_of_not_eq_false fresh
  · exact (clearRange_initialized _ _ _).trans initialized
  all_goals exact initialized

theorem accept_blank (window : ReplayWindow) (counter : UInt64) : (window.accept counter).2.Blank := by
  intro fresh
  rw [accept_initialized] at fresh
  cases fresh

/-- The window has accepted no counter from `position` on. -/
def FreshFrom (window : ReplayWindow) (position : ℕ) : Prop :=
  window.Blank ∧ (window.initialized = true → window.highest.toNat < position)

theorem FreshFrom.accept {window : ReplayWindow} {counter : UInt64} (fresh : window.FreshFrom counter.toNat) :
    (window.accept counter).1 = .accepted ∧ (window.accept counter).2.FreshFrom (counter.toNat + 1) := by
  suffices taken : (window.accept counter).1 = .accepted ∧ (window.accept counter).2.highest = counter by
    refine ⟨taken.1, accept_blank window counter, fun _ => ?_⟩
    rw [taken.2]
    exact Nat.lt_succ_self _
  unfold ReplayWindow.accept
  cases started : window.initialized with
  | false => exact ⟨rfl, rfl⟩
  | true =>
    have above : window.highest < counter := UInt64.lt_iff_toNat_lt.mpr (fresh.2 started)
    rw [if_neg (by simp), if_pos above]
    exact ⟨rfl, rfl⟩

theorem highest_le_accept {window : ReplayWindow} (blank : window.Blank) (counter : UInt64) :
    window.highest ≤ (window.accept counter).2.highest := by
  unfold accept
  split_ifs with fresh above
  · rw [blank fresh]
    exact UInt64.le_iff_toNat_le.mpr (Nat.zero_le _)
  · exact UInt64.le_of_lt above
  all_goals exact UInt64.le_refl _

theorem replicate_bit (initialized : Bool) (highest : UInt64) (slot : ℕ) :
    (ReplayWindow.mk initialized highest (Vector.replicate 128 0)).bit slot = false := by
  unfold bit
  change ((Vector.replicate 128 (0 : UInt64))[(Fin.ofNat 128 (slot / 64)).val]).toNat.testBit _ = false
  rw [Vector.getElem_replicate]
  exact Nat.zero_testBit _

/-- Bulk clearing and the loop both sweep exactly the range they are given. -/
theorem clearRange_bit (window : ReplayWindow) (first last : UInt64) (nonempty : first ≤ last)
    (positive : 0 < first.toNat) (slot : ℕ) (bound : slot < 8192) :
    (window.clearRange first last).bit slot = true ↔
      window.bit slot = true ∧
        ∀ value, first.toNat ≤ value → value ≤ last.toNat → value % 8192 ≠ slot := by
  have order := UInt64.le_iff_toNat_le.mp nonempty
  have below := last.toNat_lt
  have length : (last - first + 1).toNat = last.toNat - first.toNat + 1 := by
    rw [UInt64.toNat_add, UInt64.toNat_sub_of_le _ _ nonempty]
    change (last.toNat - first.toNat + 1) % 2 ^ 64 = _
    exact Nat.mod_eq_of_lt (by omega)
  unfold clearRange
  by_cases whole : kWindowSize ≤ last - first + 1
  · have wide : 8192 ≤ last.toNat - first.toNat + 1 := by
      rw [← length]
      exact UInt64.le_iff_toNat_le.mp whole
    rw [if_pos whole, replicate_bit]
    simp only [Bool.false_eq_true, false_iff, not_and, not_forall]
    intro _
    -- the first value from `first` on that lands in the slot lies in the range
    refine ⟨first.toNat + (slot + 8192 - first.toNat % 8192) % 8192, by omega, by omega, ?_⟩
    omega
  · rw [if_neg whole]
    apply clearLoop_bit
    · have narrow : last.toNat - first.toNat + 1 < 8192 := by
        rw [← length]
        exact not_le.mp (fun wide => whole (UInt64.le_iff_toNat_le.mpr wide))
      change last.toNat < first.toNat + 8192
      omega
    · exact bound

theorem toRing_bit (window : ReplayWindow) (slot : ℕ) :
    window.toRing.bit slot = true ↔ slot < 8192 ∧ window.bit slot = true := by
  simp [toRing]

theorem set_toRing (window : ReplayWindow) (counter : UInt64) :
    (window.set counter).toRing =
      ⟨window.initialized, window.highest.toNat,
        Ring.mark 8192 window.toRing.bit counter.toNat⟩ := by
  unfold toRing
  congr 1
  funext slot
  have inside := Nat.mod_lt counter.toNat (show 0 < 8192 by decide)
  by_cases bound : slot < 8192
  · simp [Ring.mark, set_bit _ _ _ bound, bound, Bool.beq_eq_decide_eq]
  · simp [Ring.mark, bound]
    omega

theorem clearRange_toRing_bit (window : ReplayWindow) (counter : UInt64)
    (beyond : window.highest < counter) :
    (window.clearRange (window.highest + 1) counter).toRing.bit =
      Ring.sweep 8192 window.toRing.bit (window.highest.toNat + 1) counter.toNat := by
  have strict := UInt64.lt_iff_toNat_lt.mp beyond
  have next : (window.highest + 1).toNat = window.highest.toNat + 1 := by
    rw [UInt64.toNat_add]
    change (window.highest.toNat + 1) % 2 ^ 64 = _
    exact Nat.mod_eq_of_lt (by have := counter.toNat_lt; omega)
  funext slot
  rw [Bool.eq_iff_iff, sweep_at, toRing_bit, toRing_bit, and_assoc]
  refine and_congr_right fun bound => ?_
  rw [← next]
  exact clearRange_bit window _ counter (UInt64.le_iff_toNat_le.mpr (by omega)) (by omega) slot bound

end ReplayWindow

def ReplayResult.verdict : ReplayResult → SlidingWindow.Verdict
  | .accepted => .accepted
  | .replayed => .replayed
  | .tooOld => .tooOld

namespace ReplayWindow

/-- The bitmap of words is a ring of 8192 bits and decides as the ring does. -/
theorem accept_toRing (window : ReplayWindow) (counter : UInt64) :
    ((window.accept counter).1.verdict, (window.accept counter).2.toRing) =
      window.toRing.accept 8192 counter.toNat := by
  have started : window.toRing.started = window.initialized := rfl
  have highest : window.toRing.highest = window.highest.toNat := rfl
  unfold accept Ring.accept
  rw [started, highest]
  simp only [UInt64.lt_iff_toNat_lt]
  by_cases fresh : window.initialized = false
  · rw [if_pos fresh, if_pos fresh, set_toRing]
    rfl
  have running : window.initialized = true := by simpa using fresh
  rw [if_neg fresh, if_neg fresh]
  by_cases beyond : window.highest.toNat < counter.toNat
  · have cleared := clearRange_toRing_bit window counter (UInt64.lt_iff_toNat_lt.mpr beyond)
    rw [if_pos beyond, if_pos beyond, set_toRing, ← cleared]
    simp only [clearRange_initialized, running]
    rfl
  have order : counter ≤ window.highest := UInt64.le_iff_toNat_le.mpr (not_lt.mp beyond)
  have distance : kWindowSize ≤ window.highest - counter ↔ 8192 ≤ window.highest.toNat - counter.toNat := by
    rw [UInt64.le_iff_toNat_le, UInt64.toNat_sub_of_le _ _ order]
    rfl
  have tested : window.toRing.bit (counter.toNat % 8192) = window.test counter := by
    rw [test_eq_bit]
    simp [toRing, Nat.mod_lt]
  rw [if_neg beyond, if_neg beyond, tested]
  simp only [distance]
  split_ifs
  · rfl
  · rfl
  · rw [set_toRing, running]
    rfl

/-- One counter of a run, with the counters accepted so far, the latest first. -/
def receive (state : ReplayWindow × List UInt64) (counter : UInt64) : ReplayWindow × List UInt64 :=
  let (result, window) := state.1.accept counter
  (window, if result = .accepted then counter :: state.2 else state.2)

def receiveAll (counters : List UInt64) : ReplayWindow × List UInt64 :=
  counters.foldl receive ({}, [])

def accepted (counters : List UInt64) : List UInt64 := (receiveAll counters).2

def highestAccepted (counters : List UInt64) : ℕ :=
  SlidingWindow.top ((accepted counters).map UInt64.toNat)

def Holds (window : ReplayWindow) (history : List UInt64) : Prop :=
  SlidingWindow.Tracks 8192 window.toRing (history.map UInt64.toNat)

theorem holds_fresh : Holds {} [] := by
  have blank : toRing {} = ⟨false, 0, fun _ => false⟩ := by
    unfold toRing
    congr 1
    funext slot
    rw [replicate_bit, Bool.and_false]
  unfold Holds
  rw [blank]
  exact tracks_empty 8192

theorem verdict_accepted_iff (result : ReplayResult) : result.verdict = .accepted ↔ result = .accepted := by
  cases result <;> simp [ReplayResult.verdict]

theorem verdict_tooOld_iff (result : ReplayResult) : result.verdict = .tooOld ↔ result = .tooOld := by
  cases result <;> simp [ReplayResult.verdict]

variable {window : ReplayWindow} {history : List UInt64}

theorem accept_judged (holds : Holds window history) (counter : UInt64) :
    (window.accept counter).1.verdict =
      judge 8192 (history.map UInt64.toNat) counter.toNat := by
  have refined := (accept_refines holds counter.toNat).1
  rw [← accept_toRing] at refined
  exact refined

theorem holds_receive (holds : Holds window history) (counter : UInt64) :
    Holds (receive (window, history) counter).1 (receive (window, history) counter).2 := by
  have refined := (accept_refines holds counter.toNat).2
  have judged := accept_judged holds counter
  rw [← accept_toRing] at refined
  unfold record at refined
  rw [← judged] at refined
  simp only [verdict_accepted_iff] at refined
  unfold receive Holds
  by_cases taken : (window.accept counter).1 = .accepted
  · simpa [taken] using refined
  · simpa [taken] using refined

theorem accept_accepted_iff (holds : Holds window history) (counter : UInt64) :
    (window.accept counter).1 = .accepted ↔
      counter ∉ history ∧
        (history = [] ∨ top (history.map UInt64.toNat) < counter.toNat ∨
          top (history.map UInt64.toNat) - counter.toNat < 8192) := by
  rw [← verdict_accepted_iff, accept_judged holds, judge_accepted_iff]
  simp only [List.mem_map, UInt64.toNat_inj, exists_eq_right, List.map_eq_nil_iff]

theorem accept_tooOld_iff (holds : Holds window history) (counter : UInt64) :
    (window.accept counter).1 = .tooOld ↔
      history ≠ [] ∧ counter.toNat ≤ top (history.map UInt64.toNat) ∧
        8192 ≤ top (history.map UInt64.toNat) - counter.toNat := by
  rw [← verdict_tooOld_iff, accept_judged holds, judge_tooOld_iff]
  simp only [ne_eq, List.map_eq_nil_iff]

theorem receive_nodup (holds : Holds window history) (distinct : history.Nodup) (counter : UInt64) :
    (receive (window, history) counter).2.Nodup := by
  unfold receive
  by_cases taken : (window.accept counter).1 = .accepted
  · have fresh := ((accept_accepted_iff holds counter).mp taken).1
    simpa [taken] using ⟨fresh, distinct⟩
  · simpa [taken] using distinct

theorem receiveAll_holds (counters : List UInt64) :
    Holds (receiveAll counters).1 (accepted counters) ∧ (accepted counters).Nodup := by
  have general : ∀ state : ReplayWindow × List UInt64, Holds state.1 state.2 → state.2.Nodup →
      Holds (counters.foldl receive state).1 (counters.foldl receive state).2 ∧
        (counters.foldl receive state).2.Nodup := by
    induction counters with
    | nil => exact fun state holds distinct => ⟨holds, distinct⟩
    | cons head tail ih =>
      intro state holds distinct
      exact ih _ (holds_receive holds head) (receive_nodup holds distinct head)
  exact general _ holds_fresh List.nodup_nil

/-- What the sequence so far calls a fresh counter, with no reference to the bitmap. -/
def Fresh (before : List UInt64) (counter : UInt64) : Prop :=
  counter ∉ accepted before ∧
    (accepted before = [] ∨ highestAccepted before < counter.toNat ∨
      highestAccepted before - counter.toNat < 8192)

def Stale (before : List UInt64) (counter : UInt64) : Prop :=
  accepted before ≠ [] ∧ counter.toNat ≤ highestAccepted before ∧
    8192 ≤ highestAccepted before - counter.toNat

/-- Over any sequence of counters the window answers as the set of accepted counters does. -/
theorem accept_decides (before : List UInt64) (counter : UInt64) :
    (((receiveAll before).1.accept counter).1 = .accepted ↔ Fresh before counter) ∧
      (((receiveAll before).1.accept counter).1 = .tooOld ↔ Stale before counter) ∧
      (((receiveAll before).1.accept counter).1 = .replayed ↔
        ¬ Fresh before counter ∧ ¬ Stale before counter) ∧
      (((receiveAll before).1.accept counter).1 = .replayed → counter ∈ accepted before) ∧
      (accepted before).Nodup := by
  obtain ⟨holds, distinct⟩ := receiveAll_holds before
  have taken : ((receiveAll before).1.accept counter).1 = .accepted ↔ Fresh before counter :=
    accept_accepted_iff holds counter
  have late : ((receiveAll before).1.accept counter).1 = .tooOld ↔ Stale before counter :=
    accept_tooOld_iff holds counter
  have other : ((receiveAll before).1.accept counter).1 = .replayed ↔
      ¬ Fresh before counter ∧ ¬ Stale before counter := by
    rw [← taken, ← late]
    cases ((receiveAll before).1.accept counter).1 <;> simp
  refine ⟨taken, late, other, ?_, distinct⟩
  intro replayed
  by_contra absent
  obtain ⟨notFresh, notStale⟩ := other.mp replayed
  refine notFresh ⟨absent, ?_⟩
  by_cases empty : accepted before = []
  · exact .inl empty
  · refine .inr ?_
    by_contra outside
    rw [not_or] at outside
    exact notStale ⟨empty, by omega, by omega⟩

end ReplayWindow

end Norr
