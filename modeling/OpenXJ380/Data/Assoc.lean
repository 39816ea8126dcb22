/-
# Lists of bindings

A list of keys and values is read as the partial function that takes a key to its first
value. Where no key stands twice, putting a binding anywhere into the list or taking one
out changes this function at one key.
-/

import Mathlib

namespace OpenXJ380.Data

open List Function

universe u v

variable {κ : Type u} {υ : Type v} [DecidableEq κ] {before after entries : List (κ × υ)} {key : κ}
  {value : υ}

def bindings (entries : List (κ × υ)) (key : κ) : Option υ := entries.lookup key

theorem bindings_eq_none : bindings entries key = none ↔ key ∉ entries.map Prod.fst := by
  rw [bindings, lookup_eq_none_iff]
  constructor
  · intro h hmem
    obtain ⟨entry, hentry, rfl⟩ := mem_map.mp hmem
    simpa using h entry hentry
  · intro h entry hentry
    rw [bne_iff_ne]
    rintro rfl
    exact h (mem_map_of_mem hentry)

theorem mem_of_bindings (h : bindings entries key = some value) : (key, value) ∈ entries := by
  obtain ⟨-, -, rfl, -⟩ := lookup_eq_some_iff.mp h
  simp

theorem bindings_insert (h : key ∉ before.map Prod.fst) :
    bindings (before ++ (key, value) :: after) =
      update (bindings (before ++ after)) key (some value) := by
  funext other
  simp only [bindings, lookup_append, lookup_cons]
  by_cases hsame : other = key
  · obtain rfl := hsame
    have hbefore : before.lookup other = none := bindings_eq_none.mpr h
    simp [hbefore]
  · have hother : (other == key) = false := by simpa using hsame
    rw [hother, update_of_ne hsame, bindings, lookup_append]

/-- The first of several bindings of a key decides. -/
theorem bindings_middle (h : key ∉ before.map Prod.fst) :
    bindings (before ++ (key, value) :: after) key = some value := by
  rw [bindings_insert h, update_self]

theorem bindings_remove (h : key ∉ (before ++ after).map Prod.fst) : bindings (before ++ after) =
      update (bindings (before ++ (key, value) :: after)) key none := by
  have hbefore : key ∉ before.map Prod.fst := fun hmem => h (by simp [hmem])
  rw [bindings_insert hbefore, update_idem, ← bindings_eq_none.mpr h, update_eq_self]

theorem bindings_eq_some (hnodup : (entries.map Prod.fst).Nodup) :
    bindings entries key = some value ↔ (key, value) ∈ entries := by
  refine ⟨mem_of_bindings, fun hmem => ?_⟩
  obtain ⟨before, after, rfl⟩ := append_of_mem hmem
  rw [map_append, map_cons] at hnodup
  have hbefore := nodup_middle.mp hnodup
  exact bindings_middle fun hkey => (nodup_cons.mp hbefore).1 (mem_append_left _ hkey)

end OpenXJ380.Data
