/-
# The time of the event timer

`hpet_read_counter` and `nanoTime` (`src/kernel/intr/hpet.cpp`). An attempt that
finds the upper half of the counter changed has seen it grow, so that the loop ends; one that does
not has read a value the counter had.
-/

import Mathlib

namespace OpenXJ380.Hpet

open Function

/-- `hpet_read_counter`, whose `i`-th access finds the counter at `reads i`: the value, and the
number of the next access. -/
def hpetReadCounter (reads : ℕ → ℕ) : ℕ → ℕ → Option (ℕ × ℕ)
  | 0, _ => none
  | fuel + 1, i =>
    let highBefore := reads i / 2 ^ 32
    let low := reads (i + 1) % 2 ^ 32
    let highAfter := reads (i + 2) / 2 ^ 32
    if highBefore ≠ highAfter then hpetReadCounter reads fuel (i + 3)
    else some (highBefore <<< 32 ||| low, i + 3)

def nanoseconds (hpetPeriodFs mcv : ℕ) : ℕ :=
  (mcv / 10 ^ 6 * hpetPeriodFs % 2 ^ 64 + mcv % 10 ^ 6 * hpetPeriodFs % 2 ^ 64 / 10 ^ 6) % 2 ^ 64

def nanoTime (info : Bool) (hpetPeriodFs : ℕ) (reads : ℕ → ℕ) (fuel i : ℕ) : Option (ℕ × ℕ) :=
  if info then (hpetReadCounter reads fuel i).map (Prod.map (nanoseconds hpetPeriodFs) id)
  else some (0, i)

variable {reads : ℕ → ℕ} {fuel i next value period : ℕ}

/-- The upper half is the same before and after the lower one is read, hence also with it. -/
theorem hpetReadCounter_eq (increases : Monotone reads)
    (h : hpetReadCounter reads fuel i = some (value, next)) :
    i + 3 ≤ next ∧ value = reads (next - 2) := by
  induction fuel generalizing i with
  | zero => cases h
  | succ fuel ih =>
    simp only [hpetReadCounter] at h
    split at h
    · obtain ⟨hnext, hvalue⟩ := ih h
      exact ⟨by omega, hvalue⟩
    · have hbefore : reads i ≤ reads (i + 1) := increases (by omega)
      have hafter : reads (i + 1) ≤ reads (i + 2) := increases (by omega)
      rw [← Nat.shiftLeft_add_eq_or_of_lt (Nat.mod_lt _ (by decide)), Nat.shiftLeft_eq] at h
      cases h
      exact ⟨le_rfl, by rw [show i + 3 - 2 = i + 1 by omega]; omega⟩

theorem hpetReadCounter_returns (increases : Monotone reads) (bounded : ∀ i, reads i < 2 ^ 64)
    (h : 2 ^ 32 ≤ reads i / 2 ^ 32 + fuel) : (hpetReadCounter reads fuel i).isSome := by
  induction fuel generalizing i with
  | zero =>
    have := bounded i
    omega
  | succ fuel ih =>
    simp only [hpetReadCounter]
    split
    · have hgrown : reads i ≤ reads (i + 2) := increases (by omega)
      have hlater : reads (i + 2) ≤ reads (i + 3) := increases (by omega)
      exact ih (by omega)
    · rfl

theorem nanoseconds_eq {mcv : ℕ} (hperiod : period < 2 ^ 32) (h : mcv * period / 10 ^ 6 < 2 ^ 64) :
    nanoseconds period mcv = mcv * period / 10 ^ 6 := by
  have hsplit : mcv * period / 10 ^ 6 =
      mcv / 10 ^ 6 * period + mcv % 10 ^ 6 * period / 10 ^ 6 := by
    rw [← Nat.mul_add_div (by decide), ← mul_assoc, ← add_mul, Nat.div_add_mod]
  have hrest : mcv % 10 ^ 6 * period < 10 ^ 6 * 2 ^ 32 :=
    Nat.mul_lt_mul_of_lt_of_le (Nat.mod_lt _ (by decide)) hperiod.le (by decide)
  rw [hsplit] at h ⊢
  rw [nanoseconds, Nat.mod_eq_of_lt (a := mcv / _ * _) (by omega),
    Nat.mod_eq_of_lt (a := mcv % _ * _) (by omega), Nat.mod_eq_of_lt h]

/-- A call returns a value that the counter had during it. -/
theorem hpetReadCounter_moment {counter moment : ℕ → ℕ} (increases : Monotone counter)
    (bounded : ∀ t, counter t < 2 ^ 64) (later : Monotone moment) (hfuel : 2 ^ 32 ≤ fuel) (i : ℕ) :
    ∃ t next, moment i ≤ t ∧ t ≤ moment (next - 1) ∧
      hpetReadCounter (counter ∘ moment) fuel i = some (counter t, next) := by
  have hreads : Monotone (counter ∘ moment) := increases.comp later
  obtain ⟨⟨value, next⟩, hread⟩ := Option.isSome_iff_exists.mp <|
    hpetReadCounter_returns hreads (fun i => bounded (moment i)) (i := i) (le_add_left hfuel)
  obtain ⟨hnext, rfl⟩ := hpetReadCounter_eq hreads hread
  exact ⟨moment (next - 2), next, later (by omega), later (by omega), hread⟩

/-- The counter is read at a moment of the call, the time is the exact one of that moment where it
fits, and it never goes back. -/
theorem nanoTime_exact {counter moment : ℕ → ℕ} (increases : Monotone counter)
    (bounded : ∀ t, counter t < 2 ^ 64) (later : Monotone moment) (hperiod : period < 2 ^ 32) :
    (∀ i, ∀ fuel ≥ 2 ^ 32, ∃ t next, moment i ≤ t ∧ t ≤ moment (next - 1) ∧
      hpetReadCounter (counter ∘ moment) fuel i = some (counter t, next) ∧
      (counter t * period / 10 ^ 6 < 2 ^ 64 →
        nanoTime true period (counter ∘ moment) fuel i = some (counter t * period / 10 ^ 6, next))) ∧
    ((∀ t, counter t * period / 10 ^ 6 < 2 ^ 64) → ∀ fuel i first next j second last,
      nanoTime true period (counter ∘ moment) fuel i = some (first, next) → next ≤ j →
      nanoTime true period (counter ∘ moment) fuel j = some (second, last) → first ≤ second) := by
  constructor
  · intro i fuel hfuel
    obtain ⟨t, next, hbegin, hend, hread⟩ := hpetReadCounter_moment increases bounded later hfuel i
    refine ⟨t, next, hbegin, hend, hread, fun hfits => ?_⟩
    rw [nanoTime, if_pos rfl, hread, Option.map_some, Prod.map_apply, nanoseconds_eq hperiod hfits, id]
  · intro hfits fuel i first next j second last hfirst hj hsecond
    have hreads : Monotone (counter ∘ moment) := increases.comp later
    simp only [nanoTime, if_true, Option.map_eq_some_iff, Prod.exists, Prod.map_apply, id,
      Prod.mk.injEq] at hfirst hsecond
    obtain ⟨mcv, next, hmcv, rfl, rfl⟩ := hfirst
    obtain ⟨mcv', last, hmcv', rfl, rfl⟩ := hsecond
    obtain ⟨hnext, rfl⟩ := hpetReadCounter_eq hreads hmcv
    obtain ⟨hlast, rfl⟩ := hpetReadCounter_eq hreads hmcv'
    have horder : counter (moment (next - 2)) ≤ counter (moment (last - 2)) := hreads (by omega)
    rw [comp_apply, comp_apply, nanoseconds_eq hperiod (hfits _), nanoseconds_eq hperiod (hfits _)]
    exact Nat.div_le_div_right (Nat.mul_le_mul_right _ horder)

/-- The upper half changes during the first attempt, so the second one counts. -/
theorem nanoTime_exact_carry :
    let counter := fun t => min (2 ^ 32 - 2 + t) (2 ^ 32 + 3)
    nanoTime true 10000000 counter (2 ^ 32) 0 = some (42949672980, 6) := by
  have hcounter : Monotone fun t => min (2 ^ 32 - 2 + t) (2 ^ 32 + 3) := fun _ _ _ => by grind
  have hvalue : hpetReadCounter (fun t => min (2 ^ 32 - 2 + t) (2 ^ 32 + 3)) (2 ^ 32) 0 =
      some (2 ^ 32 + 2, 6) := by decide +kernel
  obtain ⟨t, next, -, -, hread, htime⟩ := (nanoTime_exact hcounter (fun t => by grind) monotone_id
    (show 10000000 < 2 ^ 32 by decide)).1 0 _ le_rfl
  obtain ⟨hcount, rfl⟩ := Prod.mk.inj (Option.some.inj (hvalue.symm.trans hread))
  rw [← hcount] at htime
  exact htime (by decide)

end OpenXJ380.Hpet
