/-
# Lists threaded through a memory

A head and a table of links describe a list when a walk from the head meets its nodes
in order and then the null value. The list depends on the links of its own nodes only,
so a link elsewhere may change freely.
-/

import Mathlib

namespace OpenXJ380.Data

universe u

variable {α : Type u} {null : α} {next after : α → α} {head node : α} {nodes : List α}

/-- A walk from the head along the links finds these nodes. -/
def Linked (null : α) (next : α → α) : α → List α → Prop
  | head, [] => head = null
  | head, node :: rest => head = node ∧ node ≠ null ∧ Linked null next (next node) rest

namespace Linked

/-- Only the links of the nodes matter. -/
theorem congr (linked : Linked null next head nodes)
    (same : ∀ node ∈ nodes, after node = next node) : Linked null after head nodes := by
  induction nodes generalizing head with
  | nil => exact linked
  | cons first rest ih =>
    obtain ⟨here, proper, later⟩ := linked
    refine ⟨here, proper, ?_⟩
    rw [same first List.mem_cons_self]
    exact ih later fun node member => same node (List.mem_cons_of_mem _ member)

variable [DecidableEq α]

theorem update (linked : Linked null next head nodes) (outside : node ∉ nodes) (link : α) :
    Linked null (Function.update next node link) head nodes := by
  refine linked.congr fun other member => Function.update_of_ne ?_ _ _
  rintro rfl
  exact outside member

theorem push (linked : Linked null next head nodes) (proper : node ≠ null)
    (outside : node ∉ nodes) :
    Linked null (Function.update next node head) node (node :: nodes) := by
  refine ⟨rfl, proper, ?_⟩
  rw [Function.update_self]
  exact linked.update outside head

theorem pop {rest : List α} (linked : Linked null next head (node :: rest))
    (nodup : (node :: rest).Nodup) :
    Linked null (Function.update next node null) (next node) rest :=
  linked.2.2.update (List.nodup_cons.mp nodup).1 null

/-- A later node is taken out: the node before it takes over its link. -/
theorem unlink {front back : List α} {prev : α}
    (linked : Linked null next head (front ++ prev :: node :: back))
    (nodup : (front ++ prev :: node :: back).Nodup) :
    Linked null (Function.update (Function.update next prev (next node)) node null) head
      (front ++ prev :: back) := by
  induction front generalizing head with
  | nil =>
    obtain ⟨here, proper, -, -, later⟩ := linked
    rw [List.nil_append, List.nodup_cons, List.nodup_cons] at nodup
    obtain ⟨prevOutside, nodeOutside, -⟩ := nodup
    have different : prev ≠ node := fun same => prevOutside (same ▸ List.mem_cons_self)
    refine ⟨here, proper, ?_⟩
    rw [Function.update_of_ne different, Function.update_self]
    exact (later.update (fun member => prevOutside (List.mem_cons_of_mem _ member)) _).update
      nodeOutside _
  | cons first rest ih =>
    obtain ⟨here, proper, later⟩ := linked
    rw [List.cons_append, List.nodup_cons] at nodup
    have apart : ∀ other ∈ rest ++ prev :: node :: back, first ≠ other :=
      fun other member same => nodup.1 (same ▸ member)
    refine ⟨here, proper, ?_⟩
    rw [Function.update_of_ne (apart node (by simp)), Function.update_of_ne (apart prev (by simp))]
    exact ih later nodup.2

end Linked

end OpenXJ380.Data
