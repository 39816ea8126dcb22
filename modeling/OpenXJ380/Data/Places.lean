/-
# Tokens in places

Finitely many tokens lie in a family of places, each in at most one of them and there
only once. Moving a token from one place to another, or putting a new one somewhere,
keeps that arrangement. The order of the tokens in a place does not matter.

Where the tokens are numbers that a counter hands out, every number below the counter is
in exactly one place.
-/

import Mathlib

namespace OpenXJ380.Data

open List Function

universe u v

variable {ι : Type u} {α : Type v}

/-- No token is in two places or twice in one. -/
structure Arranged (tokens : ι → List α) : Prop where
  nodup : ∀ place, (tokens place).Nodup
  apart : ∀ {place other : ι} {token : α}, token ∈ tokens place → token ∈ tokens other →
    place = other

/-- A token goes from one place to another. -/
structure Moved (tokens after : ι → List α) (source target : ι) (token : α) : Prop where
  different : source ≠ target
  left : (tokens source).Perm (token :: after source)
  arrived : (after target).Perm (token :: tokens target)
  others : ∀ place ≠ source, place ≠ target → after place = tokens place

namespace Arranged

variable {tokens after : ι → List α} {token : α}

theorem add (arranged : Arranged tokens) (target : ι) (fresh : ∀ place, token ∉ tokens place)
    (arrived : (after target).Perm (token :: tokens target))
    (others : ∀ place ≠ target, after place = tokens place) : Arranged after := by
  have members : ∀ {place other}, other ∈ after place →
      other ∈ tokens place ∨ place = target ∧ other = token := by
    intro place other member
    by_cases same : place = target
    · subst same
      exact (mem_cons.mp (arrived.mem_iff.mp member)).symm.imp_right fun eq => ⟨rfl, eq⟩
    · exact .inl (others place same ▸ member)
  refine ⟨fun place => ?_, fun {place other found} first second => ?_⟩
  · by_cases same : place = target
    · subst same
      exact arrived.nodup_iff.mpr (nodup_cons.mpr ⟨fresh place, arranged.nodup place⟩)
    · rw [others place same]
      exact arranged.nodup place
  · rcases members first with here | ⟨rfl, rfl⟩ <;> rcases members second with there | ⟨rfl, eq⟩
    · exact arranged.apart here there
    · exact absurd (eq ▸ here) (fresh _)
    · exact absurd there (fresh _)
    · rfl

variable {source : ι}

theorem remove (arranged : Arranged tokens) (left : (tokens source).Perm (token :: after source))
    (others : ∀ place ≠ source, after place = tokens place) :
    Arranged after ∧ ∀ place, token ∉ after place := by
  have split := left.nodup_iff.mp (arranged.nodup source)
  have subset : ∀ {place other}, other ∈ after place → other ∈ tokens place := by
    intro place other member
    by_cases same : place = source
    · subst same
      exact left.mem_iff.mpr (mem_cons_of_mem _ member)
    · exact others place same ▸ member
  refine ⟨⟨fun place => ?_, fun first second => arranged.apart (subset first) (subset second)⟩, ?_⟩
  · by_cases same : place = source
    · subst same
      exact (nodup_cons.mp split).2
    · rw [others place same]
      exact arranged.nodup place
  · intro place member
    have inside : token ∈ tokens source := left.mem_iff.mpr mem_cons_self
    obtain rfl := arranged.apart (subset member) inside
    exact (nodup_cons.mp split).1 member

theorem move [DecidableEq ι] (arranged : Arranged tokens) {target : ι}
    (moved : Moved tokens after source target token) : Arranged after := by
  obtain ⟨different, left, arrived, others⟩ := moved
  -- first it leaves its place, then it is new at the other
  have leaves : (tokens source).Perm
      (token :: update tokens source (after source) source) := by simpa using left
  have arrives : (after target).Perm (token :: update tokens source (after source) target) := by
    simpa [different.symm] using arrived
  obtain ⟨removed, gone⟩ := arranged.remove leaves fun place other => update_of_ne other _ _
  refine removed.add target gone arrives fun place other => ?_
  by_cases same : place = source
  · simp [same]
  · simp [same, others place same other]

end Arranged

/-- What holds of every token still holds after one of them has moved. -/
theorem forall_move {tokens after : ι → List α} {source target : ι} {token : α} {p : α → Prop}
    (moved : Moved tokens after source target token) (h : ∀ place, ∀ other ∈ tokens place, p other)
    (place : ι) : ∀ other ∈ after place, p other := by
  obtain ⟨-, left, arrived, others⟩ := moved
  intro other member
  by_cases leaving : place = source
  · subst leaving
    exact h place other (left.mem_iff.mpr (mem_cons_of_mem _ member))
  by_cases arriving : place = target
  · subst arriving
    rcases mem_cons.mp (arrived.mem_iff.mp member) with rfl | old
    · exact h source _ (left.mem_iff.mpr mem_cons_self)
    · exact h place other old
  · exact h place other (others place leaving arriving ▸ member)

/-- The numbers below a bound, each in one place. -/
structure Numbered (tokens : ι → List ℕ) (bound : ℕ) : Prop where
  arranged : Arranged tokens
  below : ∀ place, ∀ number ∈ tokens place, number < bound
  placed : ∀ number < bound, ∃ place, number ∈ tokens place

namespace Numbered

variable {tokens after : ι → List ℕ} {bound : ℕ}

/-- The counter hands out its next number. -/
theorem add (numbered : Numbered tokens bound) (target : ι)
    (arrived : (after target).Perm (bound :: tokens target))
    (others : ∀ place ≠ target, after place = tokens place) :
    Numbered after (bound + 1) := by
  have fresh : ∀ place, bound ∉ tokens place :=
    fun place member => Nat.ne_of_lt (numbered.below place bound member) rfl
  refine ⟨numbered.arranged.add target fresh arrived others, fun place number member => ?_,
    fun number below => ?_⟩
  · by_cases same : place = target
    · subst same
      rcases mem_cons.mp (arrived.mem_iff.mp member) with rfl | old
      · exact Nat.lt_succ_self _
      · exact Nat.lt_succ_of_lt (numbered.below place number old)
    · rw [others place same] at member
      exact Nat.lt_succ_of_lt (numbered.below place number member)
  · rcases Nat.lt_succ_iff_lt_or_eq.mp below with old | rfl
    · obtain ⟨place, member⟩ := numbered.placed number old
      refine ⟨place, ?_⟩
      by_cases same : place = target
      · subst same
        exact arrived.mem_iff.mpr (mem_cons_of_mem _ member)
      · rwa [others place same]
    · exact ⟨target, arrived.mem_iff.mpr mem_cons_self⟩

theorem move [DecidableEq ι] (numbered : Numbered tokens bound) {source target : ι} {token : ℕ}
    (moved : Moved tokens after source target token) : Numbered after bound := by
  refine ⟨numbered.arranged.move moved, forall_move moved numbered.below, fun number below => ?_⟩
  · obtain ⟨-, left, arrived, others⟩ := moved
    obtain ⟨place, member⟩ := numbered.placed number below
    by_cases leaving : place = source
    · subst leaving
      rcases mem_cons.mp (left.mem_iff.mp member) with rfl | stays
      · exact ⟨target, arrived.mem_iff.mpr mem_cons_self⟩
      · exact ⟨place, stays⟩
    · by_cases arriving : place = target
      · subst arriving
        exact ⟨place, arrived.mem_iff.mpr (mem_cons_of_mem _ member)⟩
      · exact ⟨place, others place leaving arriving ▸ member⟩

end Numbered

end OpenXJ380.Data
