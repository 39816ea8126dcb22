/-
# Lists threaded in both directions

A list whose nodes know their neighbours is described by two tables of links. `Threaded` says
that neighbours in a list are linked in both directions; a list with a head and an end is
`null :: nodes ++ [null]`, where the link forward of the null value is the head and its link
backward does not matter. A node is put between two others, or taken out from between them,
by two links.
-/

import Mathlib

namespace OpenXJ380.Data

open List Function

universe u

variable {α : Type u} {null : α} {next prev after before : α → α} {list front back : List α}
  {left node right : α}

/-- Neighbours are linked in both directions. -/
def Threaded (null : α) (next prev : α → α) : List α → Prop
  | x :: y :: rest => next x = y ∧ (y ≠ null → prev y = x) ∧ Threaded null next prev (y :: rest)
  | _ => True

namespace Threaded

variable {x y : α}

theorem cons_cons {rest : List α} : Threaded null next prev (x :: y :: rest) ↔
      next x = y ∧ (y ≠ null → prev y = x) ∧ Threaded null next prev (y :: rest) := Iff.rfl

section

variable (front : List α)

/-- Both parts of a list share the node where they meet. -/
theorem append (node : α) (back : List α) : Threaded null next prev (front ++ node :: back) ↔
      Threaded null next prev (front ++ [node]) ∧ Threaded null next prev (node :: back) := by
  induction front with
  | nil => simp [Threaded]
  | cons first rest ih =>
    cases rest with
    | nil => simp [Threaded, and_assoc]
    | cons second rest =>
      simp only [cons_append, cons_cons] at ih ⊢
      rw [ih, and_assoc, and_assoc]

/-- Only the links forward of all nodes but the last matter, and the links backward of all but
the first. -/
theorem congr (threaded : Threaded null next prev list)
    (forward : ∀ node ∈ list.dropLast, after node = next node)
    (backward : ∀ node ∈ list.tail, node ≠ null → before node = prev node) :
    Threaded null after before list := by
  induction list with
  | nil => trivial
  | cons first rest ih =>
    cases rest with
    | nil => trivial
    | cons second rest =>
      obtain ⟨hnext, hprev, hrest⟩ := threaded
      refine ⟨?_, fun proper => ?_, ih hrest (fun node member => ?_) fun node member => ?_⟩
      · rw [forward first (by simp), hnext]
      · rw [backward second (by simp) proper, hprev proper]
      · exact forward node (by exact mem_cons_of_mem _ member)
      · exact backward node (mem_cons_of_mem _ member)

variable (node : α) (back : List α)

theorem dropLast_append_cons :
    (front ++ node :: back).dropLast = front ++ (node :: back).dropLast :=
  dropLast_append_of_ne_nil (by simp)

theorem tail_append_cons : (front ++ node :: back).tail = (front ++ [node]).tail ++ back := by
  cases front <;> simp

end

variable [DecidableEq α]

/-- The parts of a list where one link of the end of the first and one link of the start of the
second have changed. -/
theorem relink (hfront : Threaded null next prev (front ++ [left]))
    (hback : Threaded null next prev (right :: back))
    (sources : (front ++ left :: right :: back).dropLast.Nodup)
    (targets : (front ++ left :: right :: back).tail.Nodup) :
    Threaded null (update next left x) (update prev right y) (front ++ [left]) ∧
      Threaded null (update next left x) (update prev right y) (right :: back) := by
  rw [dropLast_append_cons, dropLast_cons_cons] at sources
  rw [tail_append_cons] at targets
  constructor
  · refine hfront.congr (fun node member => update_of_ne ?_ _ _) fun node member _ =>
      update_of_ne ?_ _ _
    · rintro rfl
      rw [dropLast_concat] at member
      exact (nodup_append.mp sources).2.2 node member node (by simp) rfl
    · rintro rfl
      exact (nodup_append.mp targets).2.2 node member node (by simp) rfl
  · refine hback.congr (fun node member => update_of_ne ?_ _ _) fun node member _ =>
      update_of_ne ?_ _ _
    · rintro rfl
      exact (nodup_cons.mp (nodup_append.mp sources).2.1).1 member
    · rintro rfl
      exact (nodup_cons.mp (nodup_append.mp targets).2.1).1 member

theorem unlink (threaded : Threaded null next prev (front ++ left :: node :: right :: back))
    (sources : (front ++ left :: node :: right :: back).dropLast.Nodup)
    (targets : (front ++ left :: node :: right :: back).tail.Nodup) :
    Threaded null (update next left right) (update prev right left)
      (front ++ left :: right :: back) := by
  obtain ⟨hfront, -, -, -, -, hback⟩ := (append front left (node :: right :: back)).mp threaded
  have hsub : (front ++ left :: right :: back).Sublist (front ++ left :: node :: right :: back) := by simp
  have hsources : (front ++ left :: right :: back).dropLast.Nodup := by
    exact sources.sublist (by simp)
  obtain ⟨hfront', hback'⟩ := relink (x := right) (y := left) hfront hback hsources
    (targets.sublist hsub.tail)
  exact (append _ _ _).mpr ⟨hfront', update_self .., fun _ => update_self .., hback'⟩

theorem link (threaded : Threaded null next prev (front ++ left :: right :: back))
    (sources : (front ++ left :: right :: back).dropLast.Nodup)
    (targets : (front ++ left :: right :: back).tail.Nodup)
    (fresh : node ∉ front ++ left :: right :: back) :
    Threaded null (update (update next node right) left node)
      (update (update prev node left) right node)
      (front ++ left :: node :: right :: back) := by
  have hleft : node ≠ left := fun same => fresh (by simp [same])
  have hright : node ≠ right := fun same => fresh (by simp [same])
  -- The links of the new node are those of no other node.
  have hnew : Threaded null (update next node right) (update prev node left)
      (front ++ left :: right :: back) := by
    refine threaded.congr (fun other member => update_of_ne ?_ _ _) fun other member _ =>
      update_of_ne ?_ _ _
    · rintro rfl
      exact fresh (dropLast_subset _ member)
    · rintro rfl
      exact fresh (mem_of_mem_tail member)
  obtain ⟨hfront, -, -, hback⟩ := (append front left (right :: back)).mp hnew
  obtain ⟨hfront', hback'⟩ := relink (x := node) (y := node) hfront hback sources targets
  refine (append _ _ _).mpr ⟨hfront', update_self .., fun _ => ?_, ?_,
    fun _ => update_self .., hback'⟩
  · rw [update_of_ne hright, update_self]
  · rw [update_of_ne hleft, update_self]

end Threaded

end OpenXJ380.Data
