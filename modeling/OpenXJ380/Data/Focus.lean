/-
# Pointers into a list

A program that walks a linked list until a test succeeds holds a pointer to one
node. `focus` is that pointer: the nodes before it, the node itself and the
nodes after it. Editing the node in place, splitting it or unlinking it then
only rebuilds the list around the focus.
-/

import Mathlib

namespace OpenXJ380.Data

open List

universe u

variable {α : Type u}

/-- The first element that meets a test, with what stands before and after it. -/
def focus (test : α → Bool) : List α → Option (List α × α × List α)
  | [] => none
  | x :: rest =>
    if test x then some ([], x, rest)
    else (focus test rest).map fun (before, y, after) => (x :: before, y, after)

variable {test : α → Bool} {before after : List α} {x : α}

theorem focus_eq_some {list : List α} (h : focus test list = some (before, x, after)) :
    list = before ++ x :: after ∧ test x = true ∧ ∀ y ∈ before, test y = false := by
  induction list generalizing before with
  | nil => simp [focus] at h
  | cons y rest ih =>
    rw [focus] at h
    by_cases hy : test y = true
    · rw [if_pos hy] at h
      cases h
      exact ⟨rfl, hy, by simp⟩
    · rw [if_neg hy, Option.map_eq_some_iff] at h
      rcases h with ⟨⟨before', z, after'⟩, hfound, heq⟩
      cases heq
      rcases ih hfound with ⟨hlist, htest, hbefore⟩
      refine ⟨by rw [hlist, cons_append], htest, fun w hw => ?_⟩
      rcases mem_cons.mp hw with rfl | hw
      · simpa using hy
      · exact hbefore w hw

theorem focus_append_of_false (hbefore : ∀ y ∈ before, test y = false) (hx : test x = true) :
    focus test (before ++ x :: after) = some (before, x, after) := by
  induction before with
  | nil => simp [focus, hx]
  | cons y rest ih =>
    have hy : test y = false := hbefore y (by simp)
    simp [focus, hy, ih fun z hz => hbefore z (by simp [hz])]

section Key

variable {κ : Type*} {key : α → κ} {list : List α} {x y : α}

theorem eq_of_key_eq (h : list.Pairwise fun x y => key x ≠ key y) (hx : x ∈ list) (hy : y ∈ list)
    (hkey : key x = key y) : x = y := by
  induction list with
  | nil => simp at hx
  | cons z rest ih =>
    rcases pairwise_cons.mp h with ⟨hfirst, hrest⟩
    rcases mem_cons.mp hx with rfl | hxrest
    · rcases mem_cons.mp hy with rfl | hyrest
      · rfl
      · exact absurd hkey (hfirst y hyrest)
    · rcases mem_cons.mp hy with rfl | hyrest
      · exact absurd hkey.symm (hfirst x hxrest)
      · exact ih hrest hxrest hyrest

theorem mem_eraseP_key [BEq κ] [LawfulBEq κ] (h : list.Pairwise fun x y => key x ≠ key y)
    (hx : x ∈ list) :
    y ∈ list.eraseP (fun z => key z == key x) ↔ y ∈ list ∧ y ≠ x := by
  induction list with
  | nil => simp at hx
  | cons z rest ih =>
    rcases pairwise_cons.mp h with ⟨hfirst, hrest⟩
    by_cases hz : key z = key x
    · -- The first node carries the key, so it is `x` and occurs nowhere else.
      have hzx : z = x := eq_of_key_eq h mem_cons_self hx hz
      subst hzx
      have hnot : z ∉ rest := fun hmem => hfirst z hmem rfl
      rw [eraseP_cons_of_pos (by simp), mem_cons]
      exact ⟨fun hy => ⟨.inr hy, fun heq => hnot (heq ▸ hy)⟩, fun hy => hy.1.resolve_left hy.2⟩
    · have hne : z ≠ x := fun heq => hz (by rw [heq])
      have hx' : x ∈ rest := (mem_cons.mp hx).resolve_left hne.symm
      rw [eraseP_cons_of_neg (by simpa using hz), mem_cons, mem_cons, ih hrest hx']
      refine ⟨fun hy => ?_, fun hy => ?_⟩
      · rcases hy with rfl | hy
        · exact ⟨.inl rfl, hne⟩
        · exact ⟨.inr hy.1, hy.2⟩
      · exact hy.1.imp id fun hmem => ⟨hmem, hy.2⟩

end Key

end OpenXJ380.Data
