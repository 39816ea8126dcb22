/-
# Runs of a guarded transition function

A component is given by a total transition function `step : σ → α → σ`; an
action that is refused leaves the state where it was. `Along` says that every
action of a finite schedule is taken in a state where it meets a guard. The
rules below turn what one step preserves into what a whole run preserves, so
that no later proof repeats the induction over the schedule.
-/

import Mathlib

namespace OpenXJ380.Protocol

universe u v

variable {σ : Type u} {α : Type v} (step : σ → α → σ)

/-- Execute a finite schedule of actions from the left. -/
def run : σ → List α → σ
  | state, [] => state
  | state, action :: rest => run (step state action) rest

variable (state : σ)

@[simp]
theorem run_nil : run step state [] = state := rfl

@[simp]
theorem run_cons (action : α) (rest : List α) :
    run step state (action :: rest) = run step (step state action) rest := rfl

theorem run_append (first second : List α) :
    run step state (first ++ second) = run step (run step state first) second := by
  induction first generalizing state with
  | nil => rfl
  | cons action rest ih => exact ih (step state action)

/-- Every action of the schedule is taken in a state that admits it. -/
def Along (guard : σ → α → Prop) : σ → List α → Prop
  | _, [] => True
  | state, action :: rest => guard state action ∧ Along guard (step state action) rest

instance decidableAlong {guard : σ → α → Prop} [∀ state action, Decidable (guard state action)] :
    ∀ (state : σ) (schedule : List α), Decidable (Along step guard state schedule)
  | _, [] => isTrue trivial
  | state, action :: rest => @instDecidableAnd _ _ _ (decidableAlong (step state action) rest)

/-- A predicate that every admitted step preserves survives every admitted run. -/
theorem invariant_run {guard : σ → α → Prop} (inv : σ → Prop)
    (preserved : ∀ state action, guard state action → inv state → inv (step state action))
    {state : σ} {schedule : List α} (admitted : Along step guard state schedule)
    (initially : inv state) : inv (run step state schedule) := by
  induction schedule generalizing state with
  | nil => exact initially
  | cons action rest ih =>
    obtain ⟨here, later⟩ := admitted
    exact ih later (preserved state action here initially)

/-- The unguarded case: a predicate that every step preserves holds after every
schedule. -/
theorem invariant_run_of_step (inv : σ → Prop)
    (preserved : ∀ state action, inv state → inv (step state action))
    {state : σ} (initially : inv state) (schedule : List α) :
    inv (run step state schedule) := by
  induction schedule generalizing state with
  | nil => exact initially
  | cons action rest ih => exact ih (preserved state action initially)

end OpenXJ380.Protocol
