/-
# Outcomes of programs that can fail

A program returns a value or fails with an error, and in both cases leaves the state
it reached: nothing is rolled back. `Ends` is what has to hold at the start for a
postcondition to hold at a return and another one at a failure. A failure
postcondition that speaks of the state alone has to hold wherever the program may be
cut off, which is how it is proved what an interrupted program leaves behind.
-/

import Mathlib

namespace OpenXJ380.Protocol

variable {ε σ α β : Type}

/-- From the given state the program returns into `post` or fails into `fail`. -/
def Ends (program : EStateM ε σ α) (post : α → σ → Prop) (fail : ε → σ → Prop) (state : σ) : Prop :=
  match program state with
  | .ok value state' => post value state'
  | .error error state' => fail error state'

section Rules

variable {post : α → σ → Prop} {fail : ε → σ → Prop} {state : σ} {program : EStateM ε σ α}
  {value : α} {state' : σ} {error : ε} {next : α → EStateM ε σ β}

theorem Ends.of_ok (h : Ends program post fail state) (hrun : program state = .ok value state') :
    post value state' := by
  rw [Ends, hrun] at h
  exact h

theorem Ends.of_error (h : Ends program post fail state)
    (hrun : program state = .error error state') :
    fail error state' := by
  rw [Ends, hrun] at h
  exact h

theorem Ends.mono {post' : α → σ → Prop} {fail' : ε → σ → Prop} (h : Ends program post fail state)
    (hpost : ∀ value state', post value state' → post' value state')
    (hfail : ∀ error state', fail error state' → fail' error state') :
    Ends program post' fail' state := by
  unfold Ends at h ⊢
  split at h
  · exact hpost _ _ h
  · exact hfail _ _ h

theorem ends_bind {post : β → σ → Prop} : Ends (program >>= next) post fail state ↔
      Ends program (fun value state' => Ends (next value) post fail state') fail state := by
  simp only [Ends, bind, EStateM.bind]
  cases program state <;> rfl

theorem ends_ite {condition : Prop} [Decidable condition] {first second : EStateM ε σ α} :
    Ends (if condition then first else second) post fail state ↔
      (condition → Ends first post fail state) ∧ (¬condition → Ends second post fail state) := by
  by_cases h : condition <;> simp [h]

/-- What the program returns is described by one lemma, what follows by another. -/
theorem Ends.bind {middle : α → σ → Prop} {post : β → σ → Prop} (h : Ends program middle fail state)
    (hnext : ∀ value state', middle value state' → Ends (next value) post fail state') :
    Ends (program >>= next) post fail state :=
  ends_bind.mpr (h.mono hnext fun _ _ hfail => hfail)

/-- A loop over the numbers below a bound, with what holds after each of its rounds. -/
theorem ends_forM_range {body : Nat → EStateM ε σ PUnit} {bound : Nat} (inv : Nat → σ → Prop)
    (hbody : ∀ k state, k < bound → inv k state → Ends (body k) (fun _ => inv (k + 1)) fail state)
    (hstart : inv 0 state) : Ends ((List.range bound).forM body) (fun _ => inv bound) fail state := by
  have hfrom : ∀ count start state, start + count = bound → inv start state →
      Ends ((List.range' start count).forM body) (fun _ => inv bound) fail state := by
    intro count
    induction count with
    | zero =>
      rintro start state rfl hinv
      exact hinv
    | succ count ih =>
      intro start state hsum hinv
      refine (hbody start state (by omega) hinv).bind fun _ state' hinv' => ?_
      exact ih (start + 1) state' (by omega) hinv'
  rw [List.range_eq_range']
  exact hfrom bound 0 state (by omega) hstart

theorem ends_forM {body : α → EStateM ε σ PUnit} {items : List α} (inv : σ → Prop)
    (hbody : ∀ item ∈ items, ∀ state, inv state → Ends (body item) (fun _ => inv) fail state)
    (hstart : inv state) : Ends (items.forM body) (fun _ => inv) fail state := by
  induction items generalizing state with
  | nil => exact hstart
  | cons item rest ih =>
    refine (hbody item List.mem_cons_self state hstart).bind fun _ state' hinv => ?_
    exact ih (fun other hother => hbody other (List.mem_cons_of_mem _ hother)) hinv

end Rules

end OpenXJ380.Protocol
