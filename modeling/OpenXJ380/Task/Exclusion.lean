/-
# Mutual exclusion with recovery

At most one task that can still run holds the mutex, and the recursion count is the
number of acquisitions it has not matched. Ownership leaves a task by its own last
unlock, or, once the task has stopped for good, by an abort or by a single takeover.

`Effect` lists what a section can do to the mutex, to the counts of its holders and
to the record of ownership; every statement about schedules is derived from that
list. The record of ownership is a chain: each change ends the ownership that the
one before it began.
-/

import OpenXJ380.Task.Mutex

namespace OpenXJ380.Task

open Function

variable {τ π : Type} [DecidableEq τ]

namespace Change

/-- Whose ownership a change ends. -/
def ends : Change τ → Option τ
  | .acquired _ => none
  | .released task => some task
  | .recovered _ from_ _ => some from_
  | .aborted from_ => some from_

/-- Whose ownership a change begins. -/
def begins : Change τ → Option τ
  | .acquired task => some task
  | .released _ => none
  | .recovered task _ _ => some task
  | .aborted _ => none

end Change

/-- The changes lead from one owner to another, and each ends the ownership its
predecessor began: no ownership ends twice, and none begins before the last one ended. -/
def Chronicle : Option τ → List (Change τ) → Option τ → Prop
  | owner, [], last => owner = last
  | owner, change :: rest, last => change.ends = owner ∧ Chronicle change.begins rest last

omit [DecidableEq τ] in
theorem Chronicle.append {owner : Option τ} {changes : List (Change τ)} {change : Change τ}
    (chronicle : Chronicle owner changes change.ends) :
    Chronicle owner (changes ++ [change]) change.begins := by
  induction changes generalizing owner with
  | nil => exact ⟨chronicle.symm, rfl⟩
  | cons first rest ih => exact ⟨chronicle.1, ih chronicle.2⟩

namespace Mutex

section

variable (mutex : Mutex τ) (task : τ)

theorem trylock_cases :
    (∃ error, mutex.trylock task = (.error error, mutex)) ∨ (mutex.owner = some task ∧
        mutex.trylock task = (.ok (), { mutex with rcc := mutex.rcc + 1 })) ∨
      (mutex.owner ≠ some task ∧ mutex.state = .unlocked ∧ mutex.trylock task =
          (.ok (), { mutex with state := .locked, owner := some task, rcc := 1 })) := by
  unfold trylock
  by_cases destroyed : mutex.state = .destroyed
  · simp [destroyed]
  by_cases own : mutex.owner = some task
  · cases recursive : mutex.recursive <;> simp [destroyed, own]
  by_cases unlocked : mutex.state = .unlocked <;> simp [destroyed, own, unlocked]

omit [DecidableEq τ] in
theorem recover_cases (hasStopped : τ → Bool) : mutex.recover task hasStopped = (false, mutex) ∨
      ∃ owner, mutex.state = .locked ∧ mutex.owner = some owner ∧ hasStopped owner = true ∧
        mutex.recover task hasStopped =
          (true, { mutex with owner := some task, rcc := 1 }) := by
  unfold recover
  cases theirs : mutex.owner with
  | none => simp
  | some owner =>
    by_cases locked : mutex.state = .locked <;> cases stopped : hasStopped owner <;>
      simp [locked]

theorem unlock_cases : (∃ error, mutex.unlock task = (.error error, mutex)) ∨
      (mutex.owner = some task ∧ 1 < mutex.rcc ∧
        mutex.unlock task = (.ok (), { mutex with rcc := mutex.rcc - 1 })) ∨
      (mutex.owner = some task ∧ mutex.rcc = 1 ∧ mutex.unlock task =
          (.ok (), { mutex with state := .unlocked, owner := none, rcc := 0 })) := by
  unfold unlock
  by_cases destroyed : mutex.state = .destroyed
  · simp [destroyed]
  by_cases refused : mutex.owner ≠ some task ∨ mutex.state ≠ .locked ∨ mutex.rcc = 0
  · simp [destroyed, refused]
  obtain ⟨own, locked, positive⟩ : mutex.owner = some task ∧ mutex.state = .locked ∧
      mutex.rcc ≠ 0 := by simpa using refused
  by_cases last : mutex.rcc = 1
  · simp [own, locked, last]
  · have more : 1 < mutex.rcc := by omega
    have rest : mutex.rcc - 1 ≠ 0 := by omega
    simp [own, locked, positive, more, rest]

end

omit [DecidableEq τ] in
theorem abortForProcess_cases [DecidableEq π] (mutex : Mutex τ) (group : τ → π) (process : π)
    (hasStopped : τ → Bool) :
    mutex.abortForProcess group process hasStopped = (false, mutex) ∨
      ∃ owner, mutex.owner = some owner ∧ hasStopped owner = true ∧
        mutex.abortForProcess group process hasStopped =
          (true, { mutex with state := .unlocked, owner := none, rcc := 0 }) := by
  unfold abortForProcess
  cases theirs : mutex.owner with
  | none => simp
  | some owner =>
    by_cases locked : mutex.state = .locked <;> by_cases member : group owner = process <;>
      cases stopped : hasStopped owner <;> simp [locked, member]

end Mutex

namespace System

/-- What an action can do to the mutex, the holders' counts and the record. -/
inductive Effect (system : System τ) : Action τ π → Mutex τ → (τ → ℕ) → List (Change τ) → Prop
  | quiet (action : Action τ π) :
      Effect system action system.mutex system.held system.changes
  | acquired (action : Action τ π) (task : τ) (running : system.referenced task = true)
      (unlocked : system.mutex.state = .unlocked) (other : system.mutex.owner ≠ some task) :
      Effect system action
        { system.mutex with state := .locked, owner := some task, rcc := 1 }
        (update system.held task (system.held task + 1))
        (system.changes ++ [.acquired task])
  | entered (action : Action τ π) (task : τ) (own : system.mutex.owner = some task) :
      Effect system action { system.mutex with rcc := system.mutex.rcc + 1 }
        (update system.held task (system.held task + 1)) system.changes
  | recovered (task owner : τ) (scanned pointer : Bool) (running : system.referenced task = true)
      (call : system.calls task = some (.lockRecoverable pointer true))
      (locked : system.mutex.state = .locked) (theirs : system.mutex.owner = some owner)
      (stopped : system.stopped owner = true) :
      Effect system (.advance task scanned)
        { system.mutex with owner := some task, rcc := 1 }
        (update system.held task (system.held task + 1))
        (system.changes ++ [.recovered task owner pointer])
  | left (task : τ) (own : system.mutex.owner = some task) (more : 1 < system.mutex.rcc) :
      Effect system (.unlock task) { system.mutex with rcc := system.mutex.rcc - 1 }
        (update system.held task (system.held task - 1)) system.changes
  | released (task : τ) (running : system.referenced task = true)
      (own : system.mutex.owner = some task) (last : system.mutex.rcc = 1) :
      Effect system (.unlock task)
        { system.mutex with state := .unlocked, owner := none, rcc := 0 }
        (update system.held task (system.held task - 1))
        (system.changes ++ [.released task])
  | aborted (task owner : τ) (process : π) (scanned : Bool)
      (theirs : system.mutex.owner = some owner) (stopped : system.stopped owner = true) :
      Effect system (.abort task process scanned)
        { system.mutex with state := .unlocked, owner := none, rcc := 0 } system.held
        (system.changes ++ [.aborted owner])
  | destroyed (task : τ) (unlocked : system.mutex.state ≠ .locked) :
      Effect system (.destroy task)
        { system.mutex with state := .destroyed, owner := none, rcc := 0 } system.held
        system.changes

section Effects

variable {system : System τ}

omit [DecidableEq τ] in
theorem stopped_of_ownerHasStopped {scanned : Bool} {owner : τ}
    (answer : system.ownerHasStopped scanned owner = true) : system.stopped owner = true := by
  simp only [ownerHasStopped, stopped, Bool.and_eq_true, Bool.not_eq_true',
    Bool.or_eq_false_iff] at answer ⊢
  exact ⟨answer.1, answer.2.1⟩

variable {task : τ}

/-- An attempt to acquire, made with the task's bookkeeping `calls` already updated. -/
theorem effect_acquire (action : Action τ π) (running : system.referenced task = true)
    (calls : τ → Option Call) :
    let after := ({ system with calls := calls } : System τ).acquire task
      (system.mutex.trylock task)
    Effect system action after.mutex after.held after.changes := by
  rcases system.mutex.trylock_cases task with
    ⟨error, refused⟩ | ⟨own, entered⟩ | ⟨other, unlocked, acquired⟩
  · simpa [acquire, refused] using Effect.quiet action
  · simpa [acquire, entered, own] using Effect.entered action task own
  · simpa [acquire, acquired, other] using Effect.acquired action task running unlocked other

section

variable (running : system.referenced task = true)
include running

theorem effect_advance (scanned : Bool) :
    Effect system (.advance task scanned : Action τ π) (system.advance task scanned).mutex
      (system.advance task scanned).held (system.advance task scanned).changes := by
  unfold advance
  cases call : system.calls task with
  | none => exact .quiet _
  | some current =>
    cases current with
    | lock =>
      simp only
      split_ifs with busy
      · exact .quiet _
      · exact effect_acquire _ running _
    | lockRecoverable pointer tried =>
      cases tried with
      | false =>
        simp only
        split_ifs with busy
        · exact .quiet _
        · exact effect_acquire _ running _
      | true =>
        rcases system.mutex.recover_cases task (system.ownerHasStopped scanned) with
          refused | ⟨owner, locked, theirs, answer, taken⟩
        · simpa [refused] using Effect.quiet _
        · simpa [taken, theirs] using Effect.recovered task owner scanned pointer running
            call locked theirs (stopped_of_ownerHasStopped answer)

theorem effect_unlock : Effect system (.unlock task : Action τ π) (system.unlock task).mutex
      (system.unlock task).held (system.unlock task).changes := by
  unfold unlock
  rcases system.mutex.unlock_cases task with
    ⟨error, refused⟩ | ⟨own, more, left⟩ | ⟨own, last, released⟩
  · simpa [refused] using Effect.quiet _
  · simpa [left, own] using Effect.left task own more
  · simpa [released] using Effect.released task running own last

end

theorem effect_abort [DecidableEq π] (group : τ → π) (task : τ) (process : π) (scanned : Bool) :
    Effect system (.abort task process scanned) (system.abort group process scanned).mutex
      (system.abort group process scanned).held (system.abort group process scanned).changes := by
  unfold abort
  rcases system.mutex.abortForProcess_cases group process (system.ownerHasStopped scanned) with
    refused | ⟨owner, theirs, answer, dropped⟩
  · simpa [refused] using Effect.quiet _
  · simpa [dropped, theirs] using Effect.aborted task owner process scanned theirs
      (stopped_of_ownerHasStopped answer)

theorem effect_step [DecidableEq π] (group : τ → π) (action : Action τ π) :
    Effect system action (step group system action).mutex (step group system action).held
      (step group system action).changes := by
  cases action with
  | lock task | lockRecoverable task pointer =>
    simp only [step, enter]
    split_ifs <;> exact .quiet _
  | advance task scanned =>
    simp only [step]
    split_ifs with running
    · exact effect_advance running scanned
    · exact .quiet _
  | trylock task =>
    simp only [step]
    split_ifs with idle
    · simp only [free, Bool.and_eq_true] at idle
      exact effect_acquire _ idle.1 system.calls
    · exact .quiet _
  | unlock task =>
    simp only [step]
    split_ifs with idle
    · simp only [free, Bool.and_eq_true] at idle
      exact effect_unlock idle.1
    · exact .quiet _
  | destroy task =>
    simp only [step]
    split_ifs with idle
    · simp only [Mutex.destroy]
      split_ifs with locked
      · exact .quiet _
      · exact .destroyed task locked
    · exact .quiet _
  | abort task process scanned =>
    simp only [step]
    split_ifs with idle
    · exact effect_abort group task process scanned
    · exact .quiet _
  | die task | deschedule task => exact .quiet _
  | schedule task =>
    simp only [step]
    split_ifs <;> exact .quiet _

end Effects

/-- The invariant. An owner holds the lock with the count of its acquisitions; whoever
else has unmatched acquisitions has stopped; and the record leads to the owner. -/
structure Exclusive (system : System τ) : Prop where
  owner : ∀ task, system.mutex.owner = some task →
    system.mutex.state = .locked ∧ system.mutex.rcc = system.held task ∧ 0 < system.held task
  holder : ∀ task, 0 < system.held task →
    system.mutex.owner = some task ∨ system.stopped task = true
  chronicle : Chronicle none system.changes system.mutex.owner

omit [DecidableEq τ] in
theorem exclusive_initial (recursive : Bool) (referenced : τ → Bool) :
    (initial recursive referenced).Exclusive where
  owner _ owned := by cases owned
  holder _ positive := absurd positive (Nat.lt_irrefl 0)
  chronicle := rfl

section Steps

variable {system : System τ}

theorem advance_stopped (system : System τ) (task : τ) (scanned : Bool) :
    (system.advance task scanned).stopped = system.stopped := by
  simp only [advance, acquire]
  repeat' split
  all_goals rfl

variable {task : τ}

theorem stopped_step [DecidableEq π] (group : τ → π) (action : Action τ π)
    (stopped : system.stopped task = true) : (step group system action).stopped task = true := by
  cases action with
  | advance running scanned =>
    simp only [step]
    split_ifs
    · rw [advance_stopped, stopped]
    · exact stopped
  | lock | lockRecoverable | trylock | unlock | destroy | abort =>
    simp only [step, enter, acquire, unlock, abort]
    repeat' split
    all_goals exact stopped
  | die dying =>
    simp only [System.stopped, step, Bool.and_eq_true] at stopped ⊢
    refine ⟨?_, stopped.2⟩
    by_cases same : task = dying <;> simp [same, stopped.1]
  | deschedule leaving =>
    simp only [System.stopped, step, Bool.and_eq_true] at stopped ⊢
    refine ⟨stopped.1, ?_⟩
    by_cases same : task = leaving <;>
      simp_all
  | schedule coming =>
    simp only [step]
    split_ifs with terminal
    · exact stopped
    · -- a terminal task is never scheduled, so another one is
      simp only [System.stopped, Bool.and_eq_true] at stopped ⊢
      have other : task ≠ coming := fun same => terminal (same ▸ stopped.1)
      exact ⟨stopped.1, by simpa [other] using stopped.2⟩

omit [DecidableEq τ] in
/-- A running task that does not own the mutex has no unmatched acquisition. -/
theorem Exclusive.held_eq_zero (exclusive : system.Exclusive)
    (running : system.referenced task = true) (other : system.mutex.owner ≠ some task) :
    system.held task = 0 := by
  by_contra positive
  rcases exclusive.holder task (Nat.pos_of_ne_zero positive) with own | stopped
  · exact other own
  · simp [System.stopped, running] at stopped

omit [DecidableEq τ] in
theorem Exclusive.owner_eq_none (exclusive : system.Exclusive)
    (unlocked : system.mutex.state ≠ .locked) : system.mutex.owner = none := by
  cases owned : system.mutex.owner with
  | none => rfl
  | some owner => exact absurd (exclusive.owner owner owned).1 unlocked

theorem exclusive_of_owner (own : system.mutex.owner = some task)
    (locked : system.mutex.state = .locked) (count : system.mutex.rcc = system.held task)
    (positive : 0 < system.held task)
    (others : ∀ other ≠ task, 0 < system.held other → system.stopped other = true)
    (chronicle : Chronicle none system.changes (some task)) : system.Exclusive where
  owner owner owned := by
    obtain rfl : task = owner := Option.some.inj (own.symm.trans owned)
    exact ⟨locked, count, positive⟩
  holder holder held := by
    by_cases same : holder = task
    · exact .inl (same ▸ own)
    · exact .inr (others holder same held)
  chronicle := own ▸ chronicle

omit [DecidableEq τ] in
theorem exclusive_of_vacant (vacant : system.mutex.owner = none)
    (others : ∀ other, 0 < system.held other → system.stopped other = true)
    (chronicle : Chronicle none system.changes none) : system.Exclusive where
  owner owner owned := by rw [vacant] at owned; cases owned
  holder holder held := .inr (others holder held)
  chronicle := vacant ▸ chronicle

variable {action : Action τ π}

/-- The invariant after a section, with what the section did given by its effect. -/
theorem Exclusive.effect (exclusive : system.Exclusive) {after : System τ}
    (stays : ∀ task, system.stopped task = true → after.stopped task = true)
    (effect : Effect system action after.mutex after.held after.changes) : after.Exclusive := by
  obtain ⟨mutex, calls, terminal, referenced, held, changes⟩ := after
  have chronicle := exclusive.chronicle
  -- a holder that is not the owner has stopped, and stays so
  have others : ∀ other, system.mutex.owner ≠ some other → 0 < system.held other →
      System.stopped ⟨mutex, calls, terminal, referenced, held, changes⟩ other = true :=
    fun other foreign positive =>
      stays other ((exclusive.holder other positive).resolve_left foreign)
  cases effect with
  | quiet =>
    exact ⟨exclusive.owner, fun task positive => (exclusive.holder task positive).imp_right
      (stays task), chronicle⟩
  | acquired _ task running unlocked foreign =>
    have vacant := exclusive.owner_eq_none (by simp [unlocked])
    rw [vacant] at chronicle others
    have none := exclusive.held_eq_zero running foreign
    refine exclusive_of_owner rfl rfl (by simp [none]) (by simp) ?_ chronicle.append
    intro other different positive
    replace positive : 0 < system.held other := by simpa [different] using positive
    exact others other (by simp) positive
  | entered _ task own =>
    obtain ⟨locked, count, positive⟩ := exclusive.owner task own
    refine exclusive_of_owner own locked (by simp [count]) (by simp) ?_ (own ▸ chronicle)
    intro other different held
    replace held : 0 < system.held other := by simpa [different] using held
    exact others other (by simpa [own] using different.symm) held
  | recovered task owner scanned pointer running call locked theirs stopped =>
    have foreign : system.mutex.owner ≠ some task := by
      rintro own
      obtain rfl : owner = task := Option.some.inj (theirs.symm.trans own)
      simp [System.stopped, running] at stopped
    have none := exclusive.held_eq_zero running foreign
    rw [theirs] at chronicle
    refine exclusive_of_owner rfl locked (by simp [none]) (by simp) ?_ chronicle.append
    intro other different positive
    replace positive : 0 < system.held other := by simpa [different] using positive
    exact stays other ((exclusive.holder other positive).elim
      (fun owned => Option.some.inj (theirs.symm.trans owned) ▸ stopped) id)
  | left task own more =>
    obtain ⟨locked, count, positive⟩ := exclusive.owner task own
    refine exclusive_of_owner own locked (by simp [count]) (by simp; omega) ?_ (own ▸ chronicle)
    intro other different held
    replace held : 0 < system.held other := by simpa [different] using held
    exact others other (by simpa [own] using different.symm) held
  | released task running own last =>
    obtain ⟨locked, count, positive⟩ := exclusive.owner task own
    rw [own] at chronicle
    refine exclusive_of_vacant rfl ?_ chronicle.append
    intro other held
    by_cases same : other = task
    · subst same
      simp [← count, last] at held
    · replace held : 0 < system.held other := by simpa [same] using held
      exact others other (by simpa [own] using Ne.symm same) held
  | aborted task owner process scanned theirs stopped =>
    rw [theirs] at chronicle
    refine exclusive_of_vacant rfl ?_ chronicle.append
    intro other positive
    exact stays other ((exclusive.holder other positive).elim
      (fun owned => Option.some.inj (theirs.symm.trans owned) ▸ stopped) id)
  | destroyed task unlocked =>
    have vacant := exclusive.owner_eq_none unlocked
    rw [vacant] at chronicle others
    exact exclusive_of_vacant rfl (fun other => others other (by simp)) chronicle

theorem Exclusive.step [DecidableEq π] (exclusive : system.Exclusive) (group : τ → π)
    (action : Action τ π) : (step group system action).Exclusive :=
  exclusive.effect (fun _ stopped => stopped_step group action stopped) (effect_step group action)

theorem exclusive_run [DecidableEq π] (group : τ → π) (recursive : Bool) (referenced : τ → Bool)
    (schedule : List (Action τ π)) :
    (Protocol.run (System.step group) (initial recursive referenced) schedule).Exclusive :=
  Protocol.invariant_run_of_step (System.step group) Exclusive
    (fun _ action exclusive => exclusive.step group action)
    (exclusive_initial recursive referenced) schedule

/-- Ownership leaves a task by its own unlock while it can still run, or, once it has
stopped, by one abort or by one takeover. A takeover sets `recovered` for its caller if
the caller passed an address. -/
def Lost (group : τ → π) [DecidableEq π] (system : System τ) (action : Action τ π) (task : τ) :
    Prop :=
  (system.stopped task = false ∧ action = .unlock task) ∨ (system.stopped task = true ∧
      ((∃ caller process scanned, action = .abort caller process scanned ∧
          (step group system action).changes = system.changes ++ [.aborted task]) ∨
        ∃ caller scanned pointer, action = .advance caller scanned ∧
          system.calls caller = some (.lockRecoverable pointer true) ∧
          (step group system action).changes = system.changes ++ [.recovered caller task pointer]))

theorem lost_of_owner_ne [DecidableEq π] (group : τ → π) (own : system.mutex.owner = some task)
    (exclusive : system.Exclusive)
    (gone : (System.step group system action).mutex.owner ≠ some task) :
    Lost group system action task := by
  have effect : Effect system action _ _ _ := effect_step group action
  unfold Lost
  generalize (System.step group system action).mutex = mutex at effect gone
  generalize (System.step group system action).held = held at effect
  generalize (System.step group system action).changes = changes at effect ⊢
  have locked := (exclusive.owner task own).1
  cases effect with
  | quiet | entered | left => exact absurd own gone
  | acquired _ _ _ unlocked => simp [locked] at unlocked
  | destroyed _ unlocked => exact absurd locked unlocked
  | recovered caller owner scanned pointer running call _ theirs stopped =>
    obtain rfl : task = owner := Option.some.inj (own.symm.trans theirs)
    exact .inr ⟨stopped, .inr ⟨caller, scanned, pointer, rfl, call, rfl⟩⟩
  | released owner running theirs =>
    obtain rfl : task = owner := Option.some.inj (own.symm.trans theirs)
    exact .inl ⟨by simp [System.stopped, running], rfl⟩
  | aborted caller owner process scanned theirs stopped =>
    obtain rfl : task = owner := Option.some.inj (own.symm.trans theirs)
    exact .inr ⟨stopped, .inl ⟨caller, process, scanned, rfl, rfl⟩⟩

end Steps

/-- After every schedule, two holders that can still run are the same task and it is the
owner; the recursion count is the number of the owner's unmatched acquisitions; ownership
is lost as `Lost` says whatever happens next; and the record of ownership is a chain. -/
theorem exclusion_run [DecidableEq π] (group : τ → π) (recursive : Bool) (referenced : τ → Bool)
    (schedule : List (Action τ π)) :
    let final := Protocol.run (System.step group) (initial recursive referenced) schedule
    (∀ first second, 0 < final.held first → final.stopped first = false →
      0 < final.held second → final.stopped second = false → first = second) ∧
      (∀ task, 0 < final.held task → final.stopped task = false → final.mutex.owner = some task) ∧
      (∀ task, final.mutex.owner = some task → final.mutex.rcc = final.held task) ∧
      (∀ action task, final.mutex.owner = some task →
        (step group final action).mutex.owner ≠ some task → Lost group final action task) ∧
      Chronicle none final.changes final.mutex.owner := by
  intro final
  have exclusive : final.Exclusive := exclusive_run group recursive referenced schedule
  have owns : ∀ task, 0 < final.held task → final.stopped task = false →
      final.mutex.owner = some task := by
    intro task positive alive
    exact (exclusive.holder task positive).resolve_right (by simp [alive])
  refine ⟨?_, owns, fun task own => (exclusive.owner task own).2.1, ?_, exclusive.chronicle⟩
  · intro first second heldFirst aliveFirst heldSecond aliveSecond
    exact Option.some.inj ((owns first heldFirst aliveFirst).symm.trans
      (owns second heldSecond aliveSecond))
  · intro action task own gone
    exact lost_of_owner_ne group own exclusive gone

/-- A takeover without an address for `recovered` tells nobody: task `1` dies while it
owns the mutex, task `2` takes the lock over and releases it, and task `3` acquires it. -/
theorem silent_takeover : (Protocol.run (System.step fun _ : ℕ => ()) (initial false fun _ => true)
      [.trylock 1, .die 1, .deschedule 1, .lockRecoverable 2 false, .advance 2 false,
        .advance 2 false, .unlock 2, .trylock 3]).changes =
      [.acquired 1, .recovered 2 1 false, .released 2, .acquired 3] := by
  decide

end System

end OpenXJ380.Task
