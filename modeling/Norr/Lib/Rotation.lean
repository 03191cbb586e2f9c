import Mathlib.Data.List.Sort
import Mathlib.Tactic

/-! Two generations of a secret with lazy rotation: a call draws a new secret once the lifetime of the
current one is over, and keeps the old one for comparison until the next rotation. -/

namespace Rotation

variable {α : Type*}

structure Slots (α : Type*) where
  current : α
  previous : Option α
  created : ℤ

/-- A call: its time and the secret it would draw. -/
structure Draw (α : Type*) where
  drawn : α
  now : ℤ

def refresh (lifetime : ℤ) (slots : Slots α) (draw : Draw α) : Slots α :=
  if lifetime ≤ draw.now - slots.created then ⟨draw.drawn, some slots.current, draw.now⟩ else slots

def run (lifetime : ℤ) (slots : Slots α) (draws : List (Draw α)) : Slots α :=
  draws.foldl (refresh lifetime) slots

def Slots.Knows (slots : Slots α) (secret : α) : Prop :=
  slots.current = secret ∨ slots.previous = some secret

variable {lifetime : ℤ} {secret : α} {slots : Slots α}

structure Current (secret : α) (created : ℤ) (slots : Slots α) : Prop where
  current : slots.current = secret
  previous : slots.previous ≠ some secret
  created : slots.created = created

structure Retained (secret : α) (rotated : ℤ) (slots : Slots α) : Prop where
  current : slots.current ≠ secret
  previous : slots.previous = some secret
  created : slots.created = rotated

theorem knows_current {created : ℤ} (phase : Current secret created slots) : slots.Knows secret :=
  .inl phase.current

theorem knows_retained {rotated : ℤ} (phase : Retained secret rotated slots) : slots.Knows secret :=
  .inr phase.previous

theorem refresh_current (lifetime : ℤ) {created : ℤ} {draw : Draw α} (phase : Current secret created slots)
    (fresh : draw.drawn ≠ secret) :
    (draw.now < created + lifetime ∧ Current secret created (refresh lifetime slots draw)) ∨
      (created + lifetime ≤ draw.now ∧ Retained secret draw.now (refresh lifetime slots draw)) := by
  unfold refresh
  rw [phase.created]
  by_cases aged : lifetime ≤ draw.now - created
  · rw [if_pos aged]
    exact .inr ⟨by omega, fresh, congrArg some phase.current, rfl⟩
  · rw [if_neg aged]
    exact .inl ⟨by omega, phase⟩

theorem refresh_retained (lifetime : ℤ) {rotated : ℤ} {draw : Draw α} (phase : Retained secret rotated slots)
    (fresh : draw.drawn ≠ secret) :
    (draw.now < rotated + lifetime ∧ Retained secret rotated (refresh lifetime slots draw)) ∨
      (rotated + lifetime ≤ draw.now ∧ ¬ (refresh lifetime slots draw).Knows secret) := by
  unfold refresh
  rw [phase.created]
  by_cases aged : lifetime ≤ draw.now - rotated
  · rw [if_pos aged]
    refine .inr ⟨by omega, ?_⟩
    rintro (drawn | kept)
    · exact fresh drawn
    · exact phase.current (Option.some.inj kept)
  · rw [if_neg aged]
    exact .inl ⟨by omega, phase⟩

theorem refresh_unknown {draw : Draw α} (unknown : ¬ slots.Knows secret) (fresh : draw.drawn ≠ secret) :
    ¬ (refresh lifetime slots draw).Knows secret := by
  unfold refresh
  split_ifs
  · rintro (drawn | kept)
    · exact fresh drawn
    · exact unknown (.inl (Option.some.inj kept))
  · exact unknown

theorem run_unknown (draws : List (Draw α)) (unknown : ¬ slots.Knows secret)
    (fresh : ∀ draw ∈ draws, draw.drawn ≠ secret) : ¬ (run lifetime slots draws).Knows secret := by
  induction draws generalizing slots with
  | nil => exact unknown
  | cons draw draws ih =>
    obtain ⟨first, rest⟩ := List.forall_mem_cons.mp fresh
    exact ih (refresh_unknown unknown first) rest

/-- A retained secret is forgotten by the first call a lifetime after its rotation. -/
theorem run_retained {rotated : ℤ} (draws : List (Draw α)) (phase : Retained secret rotated slots)
    (fresh : ∀ draw ∈ draws, draw.drawn ≠ secret) :
    (run lifetime slots draws).Knows secret ↔ ∀ draw ∈ draws, draw.now < rotated + lifetime := by
  induction draws generalizing slots with
  | nil => simpa [run] using knows_retained phase
  | cons draw draws ih =>
    obtain ⟨first, rest⟩ := List.forall_mem_cons.mp fresh
    rw [List.forall_mem_cons]
    rcases refresh_retained lifetime phase first with ⟨early, kept⟩ | ⟨late, dropped⟩
    · exact (ih kept rest).trans (by simp [early])
    · refine iff_of_false (run_unknown draws dropped rest) ?_
      rintro ⟨early, -⟩
      omega

/-- A secret is forgotten exactly when one call falls at least a lifetime after its creation and another
at least a lifetime after that one. -/
theorem run_knows_iff {created : ℤ} (positive : 0 < lifetime) (draws : List (Draw α))
    (phase : Current secret created slots) (fresh : ∀ draw ∈ draws, draw.drawn ≠ secret)
    (ordered : draws.Pairwise fun first second => first.now ≤ second.now) :
    (run lifetime slots draws).Knows secret ↔
      ∀ first ∈ draws, created + lifetime ≤ first.now → ∀ second ∈ draws,
        second.now < first.now + lifetime := by
  induction draws generalizing slots with
  | nil => simpa [run] using knows_current phase
  | cons draw draws ih =>
    obtain ⟨first, rest⟩ := List.forall_mem_cons.mp fresh
    obtain ⟨earliest, ordered⟩ := List.pairwise_cons.mp ordered
    rcases refresh_current lifetime phase first with ⟨early, kept⟩ | ⟨late, rotated⟩
    · refine (ih kept rest ordered).trans ?_
      constructor
      · intro near other member aged second secondMember
        rcases List.mem_cons.mp member with rfl | member
        · omega
        · rcases List.mem_cons.mp secondMember with rfl | secondMember
          · omega
          · exact near other member aged second secondMember
      · intro near other member aged second secondMember
        exact near other (List.mem_cons_of_mem _ member) aged second (List.mem_cons_of_mem _ secondMember)
    · refine (run_retained draws rotated rest).trans ?_
      constructor
      · intro near other member aged second secondMember
        have after : draw.now ≤ other.now := by
          rcases List.mem_cons.mp member with rfl | member
          · exact le_rfl
          · exact earliest other member
        rcases List.mem_cons.mp secondMember with rfl | secondMember
        · omega
        · have := near second secondMember
          omega
      · intro near other member
        exact near draw List.mem_cons_self late other (List.mem_cons_of_mem _ member)

end Rotation
