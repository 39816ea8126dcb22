/-
# Searching a run

A search for `length` neighbouring positions that satisfy a predicate reads the positions in
order and counts the satisfying ones just read. `Scanned` is what such a search knows at a
position: the run that ends there, and that every run long enough still lies ahead or begins
with it. The rules extend the run, or drop it at a position that does not satisfy the predicate.
-/

import Mathlib

namespace OpenXJ380.Data

/-- The positions from `i` on satisfy the predicate. -/
def Run (f : Nat → Prop) (i length : Nat) : Prop := ∀ j, i ≤ j → j < i + length → f j

/-- A search from `lower` for a run of the given length has come to the position `p`. -/
structure Scanned (f : Nat → Prop) (lower length p count start : Nat) : Prop where
  short : count < length
  low : lower + count ≤ p
  run : Run f (p - count) count
  start_eq : count ≠ 0 → start = p - count
  ahead : ∀ i, lower ≤ i → Run f i length → p ≤ i + count

namespace Scanned

variable {f : Nat → Prop} {lower length p count start : Nat}

theorem init (hlength : 0 < length) (start : Nat) : Scanned f lower length lower 0 start where
  short := hlength
  low := Nat.le_refl _
  run j hlow hhigh := absurd hhigh (by omega)
  start_eq h := absurd rfl h
  ahead i hlower _ := hlower

variable {k : Nat} (h : Scanned f lower length p count start)
include h

theorem run_extend (hrun : Run f p k) : Run f (p - count) (count + k) := by
  intro j hlow hhigh
  have hfit := h.low
  by_cases hj : j < p
  · exact h.run j hlow (by omega)
  · exact hrun j (by omega) (by omega)

theorem start_extend : (if count = 0 then p else start) = p - count := by
  split
  next hzero => rw [hzero, Nat.sub_zero]
  next hpositive => exact h.start_eq hpositive

theorem extend (hrun : Run f p k) (hshort : count + k < length) :
    Scanned f lower length (p + k) (count + k) (if count = 0 then p else start) where
  short := hshort
  low := by
    have := h.low
    omega
  run := by
    rw [Nat.add_sub_add_right]
    exact h.run_extend hrun
  start_eq _ := by rw [Nat.add_sub_add_right, h.start_extend]
  ahead i hlower hlong := by
    have := h.ahead i hlower hlong
    omega

/-- A run that is complete is the first one. -/
theorem complete (hrun : Run f p k) (hlong : length ≤ count + k) :
    IsLeast {i | lower ≤ i ∧ Run f i length} (p - count) := by
  have hfit := h.low
  refine ⟨⟨by omega, fun j hlow hhigh => h.run_extend hrun j hlow (by omega)⟩, ?_⟩
  rintro i ⟨hlower, hlater⟩
  have := h.ahead i hlower hlater
  omega

theorem drop (hp : ¬f p) (start : Nat) : Scanned f lower length (p + 1) 0 start where
  short := Nat.lt_of_le_of_lt (Nat.zero_le _) h.short
  low := by
    have := h.low
    omega
  run j hlow hhigh := absurd hhigh (by omega)
  start_eq h := absurd rfl h
  ahead i hlower hlong := by
    have hahead := h.ahead i hlower hlong
    have hshort := h.short
    -- A run that begins no later than here contains this position.
    by_contra hbefore
    exact hp (hlong p (by omega) (by omega))

theorem drop_many (hp : ∀ j, p ≤ j → j < p + (k + 1) → ¬f j) (start : Nat) :
    Scanned f lower length (p + (k + 1)) 0 start := by
  induction k with
  | zero => exact h.drop (hp p (Nat.le_refl _) (by omega)) start
  | succ k ih =>
    exact (ih fun j hlow hhigh => hp j hlow (by omega)).drop (hp _ (by omega) (by omega)) start

theorem none {i : Nat} (hlower : lower ≤ i) (hfit : i + length ≤ p) : ¬Run f i length := by
  intro hlong
  have hahead := h.ahead i hlower hlong
  have hshort := h.short
  omega

end Scanned

end OpenXJ380.Data
