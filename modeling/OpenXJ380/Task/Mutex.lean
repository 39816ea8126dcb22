/-
# The kernel mutex

`mutex.cpp` protects four fields by a spin lock: the state, the owner, the
recursion count and whether the mutex is recursive. A lock whose owner has died
can be taken over by `mutex_lock_recoverable` or dropped by
`mutex_abort_for_process`.

Every section under the spin lock is one step. A task takes steps only while a CPU
references it, and it may become terminal at any moment, also in the middle of a
call. A terminal task that is no longer referenced never runs again; that is what
the source relies on when it asks `scheduler_task_referenced`, and the answer to
that question may err on one side only.
-/

import OpenXJ380.Kernel.Errno
import OpenXJ380.Protocol.Run

namespace OpenXJ380.Task

open Function

variable {τ π : Type} [DecidableEq τ] [DecidableEq π]

/-- `mutex_state_t`. -/
inductive MutexState
  | unlocked
  | locked
  | destroyed
  deriving DecidableEq, Repr

/-- `mutex_t` without its spin lock and its unused wait queue. -/
structure Mutex (τ : Type) where
  state : MutexState
  owner : Option τ
  rcc : ℕ
  recursive : Bool
  deriving Repr

namespace Mutex

/-- `mutex_create`. -/
def create (recursive : Bool) : Mutex τ where
  state := .unlocked
  owner := none
  rcc := 0
  recursive := recursive

variable (mutex : Mutex τ)

section

variable (current : τ)

/-- `mutex_trylock`; `mutex_lock` repeats the same section for as long as it answers
`EBUSY`. -/
def trylock : Except Errno Unit × Mutex τ :=
  if mutex.state = .destroyed then (.error .einval, mutex)
  else if mutex.owner = some current then
    if mutex.recursive then (.ok (), { mutex with rcc := mutex.rcc + 1 })
    else (.error .edeadlk, mutex)
  else if mutex.state = .unlocked then
    (.ok (), { mutex with state := .locked, owner := some current, rcc := 1 })
  else (.error .ebusy, mutex)

/-- The second section of `mutex_lock_recoverable`: take over a lock whose owner has
stopped. -/
def recover (hasStopped : τ → Bool) : Bool × Mutex τ :=
  if mutex.state = .locked ∧ mutex.owner.any hasStopped then
    (true, { mutex with owner := some current, rcc := 1 })
  else (false, mutex)

/-- `mutex_unlock`. -/
def unlock : Except Errno Unit × Mutex τ :=
  if mutex.state = .destroyed then (.error .einval, mutex)
  else if mutex.owner ≠ some current ∨ mutex.state ≠ .locked ∨ mutex.rcc = 0 then
    (.error .eperm, mutex)
  else
    let rcc := mutex.rcc - 1
    if rcc = 0 then (.ok (), { mutex with state := .unlocked, owner := none, rcc := rcc })
    else (.ok (), { mutex with rcc := rcc })

end

/-- `mutex_destroy`. -/
def destroy : Except Errno Unit × Mutex τ :=
  if mutex.state = .locked then (.error .ebusy, mutex)
  else (.ok (), { mutex with state := .destroyed, owner := none, rcc := 0 })

/-- `mutex_abort_for_process`; `group` is the `parent_group` of a task. -/
def abortForProcess (group : τ → π) (process : π) (hasStopped : τ → Bool) : Bool × Mutex τ :=
  if mutex.state = .locked ∧
      mutex.owner.any (fun owner => group owner = process && hasStopped owner) then
    (true, { mutex with state := .unlocked, owner := none, rcc := 0 })
  else (false, mutex)

end Mutex

/-- A call that may take several sections. `mutex_lock_recoverable` alternates a
try (`tried` is false) with an attempt to take the lock over; `pointer` says whether
the caller passed an address for `recovered`. -/
inductive Call
  | lock
  | lockRecoverable (pointer tried : Bool)
  deriving DecidableEq, Repr

/-- The changes of ownership, in the order of the sections that made them. A takeover
records whether `recovered` was set to true for the new owner. -/
inductive Change (τ : Type)
  | acquired (task : τ)
  | released (task : τ)
  | recovered (task from_ : τ) (reported : Bool)
  | aborted (from_ : τ)
  deriving DecidableEq, Repr

/-- The mutex and the tasks that use it. `held` counts the acquisitions a task has not
matched by an unlock. -/
structure System (τ : Type) where
  mutex : Mutex τ
  calls : τ → Option Call
  terminal : τ → Bool
  referenced : τ → Bool
  held : τ → ℕ
  changes : List (Change τ)

/-- A fresh mutex, with every task alive and none in a call. -/
def System.initial (recursive : Bool) (referenced : τ → Bool) : System τ where
  mutex := .create recursive
  calls _ := none
  terminal _ := false
  referenced := referenced
  held _ := 0
  changes := []

/-- What may happen next. `scanned` is the answer of `scheduler_task_referenced` for
an owner that is in fact unreferenced: the scan may still have seen it. -/
inductive Action (τ π : Type)
  | lock (task : τ)
  | lockRecoverable (task : τ) (pointer : Bool)
  | advance (task : τ) (scanned : Bool)
  | trylock (task : τ)
  | unlock (task : τ)
  | destroy (task : τ)
  | abort (task : τ) (process : π) (scanned : Bool)
  | die (task : τ)
  | deschedule (task : τ)
  | schedule (task : τ)

namespace System

section

variable (system : System τ) (task : τ)

/-- A task that will never run again. -/
def stopped : Bool := system.terminal task && !system.referenced task

/-- `mutex_owner_has_stopped_locked`. -/
def ownerHasStopped (scanned : Bool) (owner : τ) : Bool :=
  system.terminal owner && !(system.referenced owner || scanned)

/-- Record the end of an attempt to acquire. -/
def acquire (attempt : Except Errno Unit × Mutex τ) : System τ :=
  match attempt.1 with
  | .error _ => { system with mutex := attempt.2 }
  | .ok () =>
    { system with
      mutex := attempt.2
      held := update system.held task (system.held task + 1)
      changes := system.changes ++
        if system.mutex.owner = some task then [] else [.acquired task] }

/-- The next section of the call a task is in. -/
def advance (scanned : Bool) : System τ :=
  let continue_ (call : Option Call) : System τ :=
    { system with calls := update system.calls task call }
  let attempt := system.mutex.trylock task
  match system.calls task with
  | none => system
  | some .lock =>
    if attempt.1 = .error .ebusy then system else (continue_ none).acquire task attempt
  | some (.lockRecoverable pointer false) =>
    if attempt.1 = .error .ebusy then continue_ (some (.lockRecoverable pointer true))
    else (continue_ none).acquire task attempt
  | some (.lockRecoverable pointer true) =>
    let (abandoned, mutex) := system.mutex.recover task (system.ownerHasStopped scanned)
    if abandoned then
      { continue_ none with
        mutex := mutex
        held := update system.held task (system.held task + 1)
        changes := system.changes ++
          system.mutex.owner.toList.map fun owner => .recovered task owner pointer }
    else continue_ (some (.lockRecoverable pointer false))

/-- A successful unlock matches one acquisition. -/
def unlock : System τ :=
  let (result, mutex) := system.mutex.unlock task
  match result with
  | .error _ => system
  | .ok () =>
    { system with
      mutex := mutex
      held := update system.held task (system.held task - 1)
      changes := system.changes ++ if mutex.owner = none then [.released task] else [] }

/-- An abort that finds the owner stopped drops its ownership. -/
def abort (group : τ → π) (process : π) (scanned : Bool) : System τ :=
  let (released, mutex) :=
    system.mutex.abortForProcess group process (system.ownerHasStopped scanned)
  if released then
    { system with
      mutex := mutex
      changes := system.changes ++ system.mutex.owner.toList.map .aborted }
  else system

/-- A task acts if it is on a CPU, and starts a call only outside any other. -/
def free : Bool := system.referenced task && (system.calls task).isNone

/-- Enter a call that takes several sections. -/
def enter (call : Call) : System τ :=
  if system.free task then
    { system with calls := update system.calls task (some call) }
  else system

end

/-- One step of the tasks or of the scheduler. -/
def step (group : τ → π) (system : System τ) : Action τ π → System τ
  | .lock task => system.enter task .lock
  | .lockRecoverable task pointer => system.enter task (.lockRecoverable pointer false)
  | .advance task scanned =>
    if system.referenced task then system.advance task scanned else system
  | .trylock task =>
    if system.free task then system.acquire task (system.mutex.trylock task) else system
  | .unlock task => if system.free task then system.unlock task else system
  | .destroy task =>
    if system.free task then { system with mutex := system.mutex.destroy.2 } else system
  | .abort task process scanned =>
    if system.free task then system.abort group process scanned else system
  | .die task => { system with terminal := update system.terminal task true }
  | .deschedule task =>
    { system with referenced := update system.referenced task false }
  | .schedule task =>
    if system.terminal task then system
    else { system with referenced := update system.referenced task true }

end System

end OpenXJ380.Task
