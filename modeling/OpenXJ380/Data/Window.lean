/-
# The used part of an array

An array with a count of used elements stands for the list of those elements. Storing
behind them, lowering the count and moving the rest to the front are the list operations
one expects.
-/

import Mathlib

namespace OpenXJ380.Data

open Function

universe u

variable {α : Type u} {array : ℕ → α} {count : ℕ}

/-- The first elements of an array. -/
def window (array : ℕ → α) (count : ℕ) : List α := (List.range count).map array

@[simp]
theorem length_window (array : ℕ → α) (count : ℕ) : (window array count).length = count := by
  simp [window]

theorem window_getElem? {index : ℕ} (below : index < count) :
    (window array count)[index]? = some (array index) := by
  simp [window, below]

theorem window_congr {other : ℕ → α} (same : ∀ index < count, array index = other index) :
    window array count = window other count :=
  List.map_congr_left fun index member => same index (List.mem_range.mp member)

/-- Store an element behind the used ones. -/
theorem window_store (array : ℕ → α) (count : ℕ) (item : α) :
    window (update array count item) (count + 1) = window array count ++ [item] := by
  have before : window (update array count item) count = window array count :=
    window_congr fun index below => update_of_ne (Nat.ne_of_lt below) _ _
  rw [← before, window, window, List.range_succ, List.map_append, List.map_singleton, update_self]

/-- Lower the count. -/
theorem window_take {kept : ℕ} (below : kept ≤ count) :
    window array kept = (window array count).take kept := by
  rw [window, window, ← List.map_take, List.take_range, Nat.min_eq_left below]

/-- Move the elements behind some to the front. -/
theorem window_drop {moved : ℕ → α} {dropped : ℕ} (below : dropped ≤ count)
    (shifted : ∀ index < count - dropped, moved index = array (index + dropped)) :
    window moved (count - dropped) = (window array count).drop dropped := by
  refine List.ext_getElem? fun index => ?_
  rw [List.getElem?_drop]
  by_cases inside : index < count - dropped
  · rw [window_getElem? inside, window_getElem? (by omega), shifted index inside, Nat.add_comm]
  · rw [List.getElem?_eq_none (by rw [length_window]; omega),
      List.getElem?_eq_none (by rw [length_window]; omega)]

end OpenXJ380.Data
