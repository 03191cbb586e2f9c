import Mathlib.Tactic

/-! Computations that change a state and may fail; a failure keeps the state it reached. -/

abbrev Fallible (σ ε : Type) := ExceptT ε (StateM σ)

namespace Fallible

variable {σ ε α β : Type}

def refuseWhen (condition : Prop) [Decidable condition] (error : ε) : Fallible σ ε Unit :=
  if condition then throw error else pure ()

def exec (action : Fallible σ ε α) (state : σ) : Except ε α × σ := action.run.run state

@[simp]
theorem exec_pure (value : α) (state : σ) :
    exec (pure value : Fallible σ ε α) state = (.ok value, state) := rfl

@[simp]
theorem exec_get (state : σ) : exec (get : Fallible σ ε σ) state = (.ok state, state) := rfl

@[simp]
theorem exec_modify (change : σ → σ) (state : σ) :
    exec (modify change : Fallible σ ε PUnit) state = (.ok ⟨⟩, change state) := rfl

theorem exec_refuseWhen {condition : Prop} [Decidable condition] (met : ¬ condition) (error : ε)
    (state : σ) : exec (refuseWhen condition error : Fallible σ ε Unit) state = (.ok (), state) := by
  rw [refuseWhen, if_neg met, exec_pure]

theorem exec_bind (action : Fallible σ ε α) (next : α → Fallible σ ε β) (state : σ) :
    exec (action >>= next) state =
      match exec action state with
      | (.ok value, after) => exec (next value) after
      | (.error error, after) => (.error error, after) := by
  simp only [exec, ExceptT.run, StateT.run, bind, ExceptT.bind, ExceptT.mk, StateT.bind]
  rcases action state with ⟨_ | _, _⟩ <;> rfl

theorem exec_bind_ok {action : Fallible σ ε α} {next : α → Fallible σ ε β} {state after : σ}
    {value : α} (ran : exec action state = (.ok value, after)) :
    exec (action >>= next) state = exec (next value) after := by
  rw [exec_bind, ran]

theorem exec_tryCatch (action : Fallible σ ε α) (handler : ε → Fallible σ ε α) (state : σ) :
    exec (tryCatch action handler) state =
      match exec action state with
      | (.ok value, after) => (.ok value, after)
      | (.error error, after) => exec (handler error) after := by
  simp only [exec, ExceptT.run, StateT.run, tryCatch, tryCatchThe, MonadExceptOf.tryCatch,
    ExceptT.tryCatch, ExceptT.mk, bind, StateT.bind]
  rcases action state with ⟨_ | _, _⟩ <;> rfl

theorem exec_tryCatch_ok {action : Fallible σ ε α} {handler : ε → Fallible σ ε α} {state after : σ}
    {value : α} (ran : exec action state = (.ok value, after)) :
    exec (tryCatch action handler) state = (.ok value, after) := by
  rw [exec_tryCatch, ran]

/-- Run from the two states, the two computations end alike, in related states. -/
structure AgreesAt (related : σ → σ → Prop) (first second : Fallible σ ε α) (left right : σ) : Prop where
  outcome : (exec first left).1 = (exec second right).1
  state : related (exec first left).2 (exec second right).2

variable {related : σ → σ → Prop} {left right : σ}

theorem AgreesAt.pure (start : related left right) (value : α) :
    AgreesAt related (pure value : Fallible σ ε α) (pure value) left right := ⟨rfl, start⟩

theorem AgreesAt.throw (start : related left right) (error : ε) :
    AgreesAt related (throw error : Fallible σ ε α) (throw error) left right := ⟨rfl, start⟩

theorem AgreesAt.modify {change other : σ → σ} (keeps : related (change left) (other right)) :
    AgreesAt related (modify change : Fallible σ ε PUnit) (modify other) left right := ⟨rfl, keeps⟩

theorem AgreesAt.refuseWhen {condition : Prop} [Decidable condition] (start : related left right)
    (error : ε) : AgreesAt related (refuseWhen condition error) (refuseWhen condition error) left right := by
  unfold Fallible.refuseWhen
  split_ifs
  · exact .throw start error
  · exact .pure start ()

theorem AgreesAt.bind {first second : Fallible σ ε α} {next other : α → Fallible σ ε β}
    (early : AgreesAt related first second left right)
    (late : ∀ value left right, related left right → AgreesAt related (next value) (other value) left right) :
    AgreesAt related (first >>= next) (second >>= other) left right := by
  obtain ⟨outcome, state⟩ := early
  rcases ranFirst : exec first left with ⟨result, reached⟩
  rcases ranSecond : exec second right with ⟨other, arrived⟩
  rw [ranFirst, ranSecond] at outcome state
  dsimp only at outcome state
  subst outcome
  cases result with
  | error error =>
    constructor
    · rw [exec_bind, exec_bind, ranFirst, ranSecond]
    · rw [exec_bind, exec_bind, ranFirst, ranSecond]
      exact state
  | ok value =>
    constructor
    · rw [exec_bind_ok ranFirst, exec_bind_ok ranSecond]
      exact (late value reached arrived state).outcome
    · rw [exec_bind_ok ranFirst, exec_bind_ok ranSecond]
      exact (late value reached arrived state).state

theorem AgreesAt.get {next other : σ → Fallible σ ε β}
    (late : AgreesAt related (next left) (other right) left right) :
    AgreesAt related (get >>= next) (get >>= other) left right := by
  constructor
  · rw [exec_bind_ok (exec_get left), exec_bind_ok (exec_get right)]
    exact late.outcome
  · rw [exec_bind_ok (exec_get left), exec_bind_ok (exec_get right)]
    exact late.state

/-- Wherever the computation ends, the frame still holds. -/
def Within (frame : σ → Prop) (action : Fallible σ ε α) : Prop :=
  ∀ state, frame state → frame (exec action state).2

/-- If the computation fails, the frame still holds. -/
def FailsWithin (frame : σ → Prop) (action : Fallible σ ε α) : Prop :=
  ∀ state, frame state → ∀ error after, exec action state = (.error error, after) → frame after

variable {frame : σ → Prop}

theorem Within.throw (error : ε) : Within frame (throw error : Fallible σ ε α) := fun _ start => start

theorem Within.modify {change : σ → σ} (keeps : ∀ state, frame state → frame (change state)) :
    Within frame (modify change : Fallible σ ε PUnit) := keeps

theorem Within.refuseWhen {condition : Prop} [Decidable condition] (error : ε) :
    Within frame (refuseWhen condition error : Fallible σ ε Unit) := by
  unfold Fallible.refuseWhen
  split_ifs <;> exact fun _ start => start

theorem Within.bind {first : Fallible σ ε α} {next : α → Fallible σ ε β} (early : Within frame first)
    (late : ∀ value, Within frame (next value)) : Within frame (first >>= next) := by
  intro state start
  have middle := early state start
  rw [exec_bind]
  rcases stopped : exec first state with ⟨failure | value, reached⟩
  · rw [stopped] at middle
    exact middle
  · rw [stopped] at middle
    exact late value reached middle

theorem Within.get {next : σ → Fallible σ ε β} (late : ∀ state, frame state → frame (exec (next state) state).2) :
    Within frame (get >>= next) := fun state start => late state start

theorem FailsWithin.bind {first : Fallible σ ε α} {next : α → Fallible σ ε β} (early : Within frame first)
    (late : ∀ value, FailsWithin frame (next value)) : FailsWithin frame (first >>= next) := by
  intro state start error after ran
  have middle := early state start
  rw [exec_bind] at ran
  rcases stopped : exec first state with ⟨failure | value, reached⟩
  · rw [stopped] at ran middle
    cases ran
    exact middle
  · rw [stopped] at ran middle
    exact late value reached middle error after ran

end Fallible
