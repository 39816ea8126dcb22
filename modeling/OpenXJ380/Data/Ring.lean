/-
# Circular doubly linked lists

A ring is a pair of link functions together with the list of its nodes in order: each
node's successor and predecessor are its neighbours in the list, and the last node is
linked to the first. The list says where the ring is entered; walking on by one node
turns the list round. Inserting a node before the entry appends it to the list, and
unlinking a node removes it, for the same few assignments a program makes.
-/

import Mathlib

namespace OpenXJ380.Data

open List Function

universe u

variable {α : Type u}

/-- Two neighbouring nodes. -/
def Joined (next prev : α → α) (left right : α) : Prop := next left = right ∧ prev right = left

/-- The nodes of a circular list, from the one where it is entered. -/
structure Ring (next prev : α → α) (nodes : List α) : Prop where
  nodup : nodes.Nodup
  chain : nodes.IsChain (Joined next prev)
  closed : ∀ last ∈ nodes.getLast?, ∀ first ∈ nodes.head?, Joined next prev last first

namespace Ring

variable {next prev : α → α}

theorem nil (next prev : α → α) : Ring next prev [] :=
  ⟨nodup_nil, isChain_nil, fun _ member => by simp at member⟩

theorem single [DecidableEq α] (next prev : α → α) (node : α) :
    Ring (update next node node) (update prev node node) [node] := by
  refine ⟨nodup_singleton node, isChain_singleton node, ?_⟩
  simp [Joined]

theorem getLast?_append_cons (before behind : List α) (node : α) :
    (before ++ node :: behind).getLast? = (node :: behind).getLast? := by
  simp [List.getLast?_cons]

variable {before behind : List α}

/-- A ring may be entered anywhere. -/
theorem turn (ring : Ring next prev (before ++ behind)) : Ring next prev (behind ++ before) := by
  cases before with
  | nil => simpa using ring
  | cons a before =>
    cases behind with
    | nil => simpa using ring
    | cons b behind =>
      obtain ⟨nodup, chain, closed⟩ := ring
      obtain ⟨first, second, seam⟩ := isChain_append.mp chain
      refine ⟨nodup_append_comm.mp nodup, isChain_append.mpr ⟨second, first, ?_⟩, ?_⟩
      · rw [getLast?_append_cons] at closed
        exact closed
      · rw [getLast?_append_cons]
        exact seam

/-- A change of links along a list, where the second node of a pair is never the first of
the list. -/
theorem isChain_of_tail {first : α} {rest : List α} {relation changed : α → α → Prop}
    (step : ∀ left ∈ first :: rest, ∀ right ∈ rest, relation left right → changed left right)
    (chain : (first :: rest).IsChain relation) : (first :: rest).IsChain changed := by
  induction rest generalizing first with
  | nil => exact isChain_singleton first
  | cons second rest ih =>
    obtain ⟨here, later⟩ := isChain_cons_cons.mp chain
    refine isChain_cons_cons.mpr ⟨?_, ih (fun left leftMember right rightMember => ?_) later⟩
    · exact step first mem_cons_self second mem_cons_self here
    · exact step left (mem_cons_of_mem _ leftMember) right (mem_cons_of_mem _ rightMember)

section Entry

variable {first : α} {rest : List α}

section

variable (ring : Ring next prev (first :: rest))
include ring

/-- The predecessor of the entry is the last node. -/
theorem getLast?_eq : (first :: rest).getLast? = some (prev first) := by
  obtain ⟨last, found⟩ : ∃ last, (first :: rest).getLast? = some last := ⟨_, List.getLast?_cons⟩
  rw [found, (ring.closed last found first (by simp)).2]

theorem prev_mem : prev first ∈ first :: rest := mem_of_getLast? ring.getLast?_eq

theorem next_prev : next (prev first) = first :=
  (ring.closed (prev first) ring.getLast?_eq first (by simp)).1

end

variable [DecidableEq α] {node : α}

theorem insert (ring : Ring next prev (first :: rest)) (new : node ∉ first :: rest) :
    Ring (update (update next node first) (prev first) node)
      (update (update prev node (prev first)) first node)
      (first :: rest ++ [node]) := by
  have other : ∀ {member}, member ∈ first :: rest → member ≠ node :=
    fun member same => new (same ▸ member)
  have apart : first ∉ rest := (nodup_cons.mp ring.nodup).1
  refine ⟨?_, isChain_append.mpr ⟨?_, isChain_singleton node, ?_⟩, ?_⟩
  · exact nodup_append.mpr ⟨ring.nodup, nodup_singleton node, fun left leftMember right
      rightMember => mem_singleton.mp rightMember ▸ other leftMember⟩
  · refine isChain_of_tail (fun left leftMember right rightMember joined => ?_) ring.chain
    have rightOther := other (mem_cons_of_mem first rightMember)
    have rightLater : right ≠ first := fun same => apart (same ▸ rightMember)
    -- the left node is not the last one, which is followed by the entry
    have leftEarlier : left ≠ prev first := by
      rintro rfl
      exact rightLater (joined.1.symm.trans ring.next_prev)
    exact ⟨by simp [leftEarlier, other leftMember, joined.1],
      by simp [rightLater, rightOther, joined.2]⟩
  · intro last lastMember entry entryMember
    rw [ring.getLast?_eq] at lastMember
    obtain rfl : prev first = last := by simpa using lastMember
    obtain rfl : node = entry := by simpa using entryMember
    have different : node ≠ first := (other mem_cons_self).symm
    exact ⟨by simp, by simp [different]⟩
  · intro last lastMember entry entryMember
    rw [getLast?_append_cons] at lastMember
    obtain rfl : node = last := by simpa using lastMember
    obtain rfl : first = entry := by simpa using entryMember
    have different : node ≠ prev first := (other ring.prev_mem).symm
    exact ⟨by simp [different], by simp⟩

theorem unlink_first (ring : Ring next prev (node :: first :: rest)) :
    Ring (update next (prev node) (next node))
      (update prev (next node) (prev node)) (first :: rest) := by
  have nodup := nodup_cons.mp ring.nodup
  have apart : first ∉ rest := (nodup_cons.mp nodup.2).1
  obtain ⟨joined, chain⟩ := isChain_cons_cons.mp ring.chain
  rw [joined.1]
  refine ⟨nodup.2, isChain_of_tail (fun left leftMember right rightMember joined => ?_) chain, ?_⟩
  · have rightLater : right ≠ first := fun same => apart (same ▸ rightMember)
    have leftEarlier : left ≠ prev node := by
      rintro rfl
      have same : right = node := joined.1.symm.trans ring.next_prev
      exact nodup.1 (same ▸ mem_cons_of_mem _ rightMember)
    exact ⟨by simp [leftEarlier, joined.1], by simp [rightLater, joined.2]⟩
  · intro last lastMember entry entryMember
    have found : some (prev node) = some last := by
      rw [← ring.getLast?_eq, List.getLast?_cons_cons]
      exact lastMember
    obtain rfl := Option.some.inj found
    obtain rfl : first = entry := by simpa using entryMember
    exact ⟨by simp, by simp⟩

end Entry

variable {node : α}

theorem unlink [DecidableEq α] (ring : Ring next prev (before ++ node :: behind))
    (several : before ++ behind ≠ []) :
    Ring (update next (prev node) (next node))
      (update prev (next node) (prev node)) (before ++ behind) := by
  have entered : Ring next prev (node :: (behind ++ before)) := by simpa using ring.turn
  cases nodes : behind ++ before with
  | nil => simp_all
  | cons first rest =>
    rw [nodes] at entered
    have removed := entered.unlink_first
    rw [← nodes] at removed
    exact removed.turn

/-- A node is its own successor only in a ring of one. -/
theorem next_eq_self_iff (ring : Ring next prev (before ++ node :: behind)) :
    next node = node ↔ before ++ behind = [] := by
  have entered : Ring next prev (node :: (behind ++ before)) := by simpa using ring.turn
  rw [append_eq_nil_iff, and_comm, ← append_eq_nil_iff]
  cases nodes : behind ++ before with
  | nil =>
    rw [nodes] at entered
    simpa using (entered.closed node (by simp) node (by simp)).1
  | cons following rest =>
    rw [nodes] at entered
    have joined := (isChain_cons_cons.mp entered.chain).1
    have apart := (nodup_cons.mp entered.nodup).1
    refine iff_of_false (fun self => apart ?_) (by simp)
    exact (joined.1.symm.trans self) ▸ mem_cons_self

end Ring

end OpenXJ380.Data
