/-
# Overlays of writes

Writes of single blocks are atomic but stay in a cache until a flush completes, and a
power failure keeps an arbitrary part of the cache. Contents are compared after
overlaying lists of writes. The rules say what a block holds when no write names it and
when some write does.
-/

import Mathlib

namespace OpenXJ380.Storage

open Function

universe u v

variable {ι : Type u} {β : Type v} [DecidableEq ι]

/-- The contents after some writes, the last write to an address counting. -/
def overlay (writes : List (ι × β)) (contents : ι → β) : ι → β :=
  writes.foldl (fun held write => update held write.1 write.2) contents

@[simp]
theorem overlay_cons (write : ι × β) (writes : List (ι × β)) (contents : ι → β) :
    overlay (write :: writes) contents = overlay writes (update contents write.1 write.2) := rfl

variable {writes : List (ι × β)} {contents : ι → β} {address : ι}

theorem overlay_other (h : ∀ write ∈ writes, write.1 ≠ address) :
    overlay writes contents address = contents address := by
  induction writes generalizing contents with
  | nil => rfl
  | cons write writes ih =>
    rw [overlay_cons, ih fun w hw => h w (List.mem_cons_of_mem _ hw)]
    exact update_of_ne (h write List.mem_cons_self).symm _ _

/-- What an address holds after some writes is one of them, or was there before. -/
theorem overlay_cases (writes : List (ι × β)) (contents : ι → β) (address : ι) :
    overlay writes contents address = contents address ∨
      (address, overlay writes contents address) ∈ writes := by
  induction writes generalizing contents with
  | nil => exact .inl rfl
  | cons write writes ih =>
    rcases ih (update contents write.1 write.2) with h | h
    · by_cases heq : address = write.1
      · right
        rw [overlay_cons, h, heq, update_self]
        exact List.mem_cons_self
      · left
        rw [overlay_cons, h, update_of_ne heq]
    · exact .inr (List.mem_cons_of_mem _ h)

/-- An address that some write names holds one of the values written to it. -/
theorem overlay_named (h : ∃ write ∈ writes, write.1 = address) :
    (address, overlay writes contents address) ∈ writes := by
  induction writes generalizing contents with
  | nil =>
    obtain ⟨_, hmem, -⟩ := h
    cases hmem
  | cons write writes ih =>
    by_cases hlater : ∃ later ∈ writes, later.1 = address
    · exact List.mem_cons_of_mem _ (ih hlater)
    obtain ⟨named, hmem, rfl⟩ := h
    have hlast : named = write := by
      rcases List.mem_cons.mp hmem with heq | htail
      · exact heq
      · exact absurd ⟨named, htail, rfl⟩ hlater
    rw [overlay_cons, overlay_other fun later hmem heq => hlater ⟨later, hmem, heq⟩, hlast,
      update_self]
    exact List.mem_cons_self

end OpenXJ380.Storage
