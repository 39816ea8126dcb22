/-
# Logs

A run may be described by a log that grows at its end, so that an entry keeps its
position. `Justified` says that every entry was admissible when it was written, given
the entries before it; `Since` says what holds of everything written after a position.
Safety properties of the form "this happens only after that, with nothing of a third
kind in between" are conditions on what may be appended.
-/

import Mathlib

namespace OpenXJ380.Protocol

variable {α : Type} {log new : List α} {entry : α} {P : α → Prop} {i position : Nat}

theorem logged_append (h : log[i]? = some entry) : (log ++ new)[i]? = some entry := by
  obtain ⟨hlt, -⟩ := List.getElem?_eq_some_iff.mp h
  rw [List.getElem?_append_left hlt, h]

theorem logged_lt (h : log[i]? = some entry) : i < log.length := (List.getElem?_eq_some_iff.mp h).1

/-- An entry of a longer log is an old one or one of those added. -/
theorem logged_append_cases (h : (log ++ new)[i]? = some entry) :
    log[i]? = some entry ∨ (log.length ≤ i ∧ entry ∈ new) := by
  by_cases hlt : i < log.length
  · exact .inl (by rwa [List.getElem?_append_left hlt] at h)
  · rw [List.getElem?_append_right (by omega)] at h
    exact .inr ⟨by omega, List.mem_of_getElem? h⟩

/-- Everything written after a position meets a condition. -/
def Since (log : List α) (position : Nat) (P : α → Prop) : Prop :=
  ∀ later entry, position < later → log[later]? = some entry → P entry

theorem Since.append (h : Since log position P) (hnew : ∀ entry ∈ new, P entry) :
    Since (log ++ new) position P := by
  intro later entry hlater hentry
  rcases logged_append_cases hentry with hold | ⟨-, hadded⟩
  · exact h later entry hlater hold
  · exact hnew entry hadded

theorem since_of_length_le (h : log.length ≤ position + 1) : Since log position P := by
  intro later entry hlater hentry
  have hlt := logged_lt hentry
  omega

/-- A prefix of a log has the same entries up to its end. -/
theorem logged_take :
    (log.take position)[i]? = some entry ↔ i < position ∧ log[i]? = some entry := by
  rw [List.getElem?_take]
  by_cases h : i < position <;> simp

/-- Every entry was admissible when it was written. -/
def Justified (admissible : List α → α → Prop) (log : List α) : Prop :=
  ∀ (i : Nat) (entry : α), log[i]? = some entry → admissible (log.take i) entry

section Justified

variable {admissible : List α → α → Prop}

theorem justified_nil : Justified admissible [] := by
  intro i entry h
  simp at h

theorem Justified.push (h : Justified admissible log) (hentry : admissible log entry) :
    Justified admissible (log ++ [entry]) := by
  intro i other hother
  by_cases hlt : i < log.length
  · rw [List.getElem?_append_left hlt] at hother
    rw [List.take_append_of_le_length (Nat.le_of_lt hlt)]
    exact h i other hother
  · have hlen := logged_lt hother
    have hi : i = log.length := by
      simp only [List.length_append, List.length_singleton] at hlen
      omega
    subst hi
    have heq : entry = other := by simpa using hother
    rw [← heq, List.take_left]
    exact hentry

end Justified

end OpenXJ380.Protocol
