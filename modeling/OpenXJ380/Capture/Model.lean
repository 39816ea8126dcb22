/-
# Secret windows and captures of the screen

`src/kernel/screen_capture.cpp`. A process may declare itself secret, and then nobody may
capture the screen. A capture takes the recoverable mutex `capture_gate` and keeps it until
it ends; a process becomes secret only while it holds the same mutex. A raw mapping of the
screen that was made during a capture outlives it, and keeps processes from becoming secret.

The flags of the processes, their numbers and the list of the processes that have one are
protected by `state_lock`. Each section under that lock is one step, and so is each section
of the mutex.
-/

import OpenXJ380.Task.Mutex

namespace OpenXJ380.Capture

open Function

open OpenXJ380.Task (Mutex)

variable {τ π : Type} [DecidableEq τ] [DecidableEq π]

structure Policy (π : Type) where
  secret : π → Bool
  rawMapped : π → Bool
  registered : List π
  secretProcesses : ℕ
  mappedProcesses : ℕ

namespace Policy

def empty : Policy π := ⟨fun _ => false, fun _ => false, [], 0, 0⟩

section

variable (policy : Policy π) (process : π)

def registerLocked : Policy π :=
  if policy.secret process || policy.rawMapped process then policy
  else { policy with registered := process :: policy.registered }

def releaseLocked : Policy π :=
  { policy with
    secret := update policy.secret process false
    rawMapped := update policy.rawMapped process false
    secretProcesses :=
      if policy.secret process then policy.secretProcesses - 1 else policy.secretProcesses
    mappedProcesses :=
      if policy.rawMapped process then policy.mappedProcesses - 1 else policy.mappedProcesses }

/-- Sets the flag and counts the process. -/
def markSecret : Policy π :=
  { policy with
    secret := update policy.secret process true
    secretProcesses := policy.secretProcesses + 1 }

def markMapped : Policy π :=
  { policy with
    rawMapped := update policy.rawMapped process true
    mappedProcesses := policy.mappedProcesses + 1 }

end

/-- The walk of `retire_stopped_locked` over the rest of the list, and the part of it that
stays. -/
def retireFrom (stopped : π → Bool) : List π → Policy π → List π × Policy π
  | [], policy => ([], policy)
  | process :: rest, policy =>
    if stopped process then retireFrom stopped rest (policy.releaseLocked process)
    else
      let (kept, policy) := retireFrom stopped rest policy
      (process :: kept, policy)

variable (policy : Policy π)

section

variable (stopped : π → Bool)

def retireStoppedLocked : Policy π :=
  let (kept, policy) := retireFrom stopped policy.registered policy
  { policy with registered := kept }

def blocked : Bool × Policy π :=
  let policy := policy.retireStoppedLocked stopped
  (policy.secretProcesses != 0, policy)

/-- The section of `screen_capture_set_secret`. -/
def setSecret (process : π) : Except Errno Unit × Policy π :=
  let policy := policy.retireStoppedLocked stopped
  if policy.secret process then (.ok (), policy)
  else if policy.mappedProcesses ≠ 0 then (.error .ebusy, policy)
  else (.ok (), (policy.registerLocked process).markSecret process)

end

variable (process : π)

/-- The section of `screen_capture_register_mapping`. -/
def registerMapping : Policy π :=
  if policy.rawMapped process then policy else (policy.registerLocked process).markMapped process

/-- `screen_capture_process_inherit`. -/
def inherit (parent child : π) : Policy π :=
  let registered :=
    if policy.secret parent || policy.rawMapped parent then policy.registerLocked child else policy
  let secret :=
    if registered.secret parent && !registered.secret child then registered.markSecret child
    else registered
  if secret.rawMapped parent && !secret.rawMapped child then secret.markMapped child else secret

/-- The section of `screen_capture_process_exit`. -/
def processExit : Policy π :=
  { policy with registered := policy.registered.erase process }.releaseLocked process

end Policy

inductive Purpose
  | secret
  | capture
  deriving DecidableEq, Repr

/-- Where a thread is in the functions. -/
inductive Position
  | idle
  /-- `screen_capture_begin` before it asks for the first time whether it is blocked. -/
  | check
  /-- `mutex_lock_recoverable`, before a try or before an attempt to take the lock over. -/
  | lock (purpose : Purpose) (tried : Bool)
  | held (purpose : Purpose)
  /-- Before the mutex is unlocked and the result returned. -/
  | leave (result : Except Errno Unit)
  | capturing
  | mapping
  deriving DecidableEq

/-- A process is made by its parent, or by the kernel, and published when it can run. -/
inductive Stage
  | unborn
  | created
  | published
  deriving DecidableEq, Repr

/-- `screen_capture_process_exit`. -/
inductive Exit
  | waiting
  | aborting
  | releasing
  | finished
  deriving DecidableEq, Repr

structure System (τ π : Type) where
  policy : Policy π
  gate : Mutex τ
  position : τ → Position
  /-- The result that a thread got last. -/
  result : τ → Option (Except Errno Unit)
  /-- The queue of the threads of a process. -/
  threads : π → List τ
  /-- The thread is the current task of a CPU. -/
  current : τ → Bool
  /-- A CPU is about to run the thread, or has just run it. -/
  selected : τ → Bool
  /-- The status of the thread is `DEATH` or `OUT`. -/
  dead : τ → Bool
  /-- The status of the process is `DEATH`, `OUT` or `ZOMBIE`. -/
  terminal : π → Bool
  stage : π → Stage
  exit : π → Option Exit
  /-- The process was in a terminal state and on no CPU, or its creation failed. -/
  halted : π → Bool
  /-- The process was declared secret, or inherited that from one that was. -/
  granted : π → Bool
  /-- The process registered a raw mapping, or inherited one. -/
  mapped : π → Bool

inductive Action (τ π : Type)
  | setSecret (thread : τ)
  | begin (thread : τ)
  | finish (thread : τ)
  | registerMapping (thread : τ)
  /-- The next section of the call that a thread is in. `scanned` is the answer of
  `scheduler_task_referenced` for an owner that no CPU refers to any more. -/
  | advance (thread : τ) (scanned : Bool)
  | create (child : π)
  | fork (thread : τ) (child : π)
  | publish (child : π)
  | addThread (thread : τ)
  | select (thread : τ)
  | deselect (thread : τ)
  | dispatch (thread : τ)
  | park (thread : τ)
  | kill (thread : τ)
  | terminate (process : π)
  /-- A waiting parent changes the status of a zombie to `WAIT`. -/
  | claim (process : π)
  | exit (process : π) (scanned : Bool)
  deriving DecidableEq, Repr

namespace System

def initial : System τ π where
  policy := .empty
  gate := .create false
  position _ := .idle
  result _ := none
  threads _ := []
  current _ := false
  selected _ := false
  dead _ := false
  terminal _ := false
  stage _ := .unborn
  exit _ := none
  halted _ := false
  granted _ := false
  mapped _ := false

section

variable (system : System τ π)

def processOnCpu (process : π) : Bool := (system.threads process).any system.current

/-- The test of `retire_stopped_locked`. -/
def stoppedProcess (process : π) : Bool := system.terminal process && !system.processOnCpu process

variable (thread : τ)

/-- A thread that will never run again. -/
def stopped : Bool := system.dead thread && !(system.current thread || system.selected thread)

/-- `mutex_owner_has_stopped_locked` -/
def ownerHasStopped (scanned : Bool) (owner : τ) : Bool :=
  system.dead owner && !(system.current owner || system.selected owner || scanned)

def move (position : Position) : System τ π :=
  { system with position := update system.position thread position }

/-- The thread returns from its call. -/
def return_ (result : Except Errno Unit) : System τ π :=
  { system.move thread .idle with result := update system.result thread (some result) }

end

variable (group : τ → π) (system : System τ π)

section

variable (thread : τ)

/-- A call begins with `caller_process`. -/
def call (position : Position) : System τ π :=
  if system.terminal (group thread) then system.return_ thread (.error .esrch)
  else system.move thread position

def lockSection (purpose : Purpose) (tried scanned : Bool) : System τ π :=
  if tried then
    let (taken, gate) := system.gate.recover thread (system.ownerHasStopped scanned)
    if taken then { system.move thread (.held purpose) with gate }
    else system.move thread (.lock purpose false)
  else
    match system.gate.trylock thread with
    | (.ok (), gate) => { system.move thread (.held purpose) with gate }
    | (.error error, _) =>
      if error = .ebusy then system.move thread (.lock purpose true)
      else system.return_ thread (.error error)

def setSecretSection : System τ π :=
  let (result, policy) := system.policy.setSecret system.stoppedProcess (group thread)
  { system.move thread (.leave result) with
    policy
    granted :=
      match result with
      | .ok () => update system.granted (group thread) true
      | .error _ => system.granted }

/-- `screen_capture_begin` asks whether it is blocked. -/
def checkSection (refused allowed : System τ π → System τ π) : System τ π :=
  let (blocked, policy) := system.policy.blocked system.stoppedProcess
  if blocked then refused { system with policy } else allowed { system with policy }

def unlock : System τ π :=
  { system with gate := (system.gate.unlock thread).2 }

def advance (scanned : Bool) : System τ π :=
  match system.position thread with
  | .idle | .capturing => system
  | .check =>
    system.checkSection (·.return_ thread (.error .eacces)) (·.move thread (.lock .capture false))
  | .lock purpose tried => system.lockSection thread purpose tried scanned
  | .held .secret => system.setSecretSection group thread
  | .held .capture =>
    system.checkSection (·.move thread (.leave (.error .eacces))) fun system =>
      { system.move thread .capturing with result := update system.result thread (some (.ok ())) }
  | .leave result => (system.unlock thread).return_ thread result
  | .mapping =>
    { system.move thread .capturing with
      policy := system.policy.registerMapping (group thread)
      mapped := update system.mapped (group thread) true }

/-- A process that is made has no flags; one that is made by a fork inherits those of its
parent. -/
def create (child : π) : System τ π :=
  { system with stage := update system.stage child .created }

def fork (child : π) : System τ π :=
  { system.create child with
    policy := system.policy.inherit (group thread) child
    granted := update system.granted child (system.granted (group thread))
    mapped := update system.mapped child (system.mapped (group thread)) }

/-- The teardown of a process waits until it is on no CPU. -/
def exitStep (process : π) (scanned : Bool) : System τ π :=
  let at_ (phase : Exit) : System τ π :=
    { system with exit := update system.exit process (some phase) }
  match system.exit process with
  | none =>
    if system.stage process = .created then
      { at_ .waiting with halted := update system.halted process true }
    else if system.stage process = .published ∧ system.terminal process then at_ .waiting
    else system
  | some .waiting => if system.processOnCpu process then system else at_ .aborting
  | some .aborting =>
    { at_ .releasing with
      gate := (system.gate.abortForProcess group process (system.ownerHasStopped scanned)).2 }
  | some .releasing => { at_ .finished with policy := system.policy.processExit process }
  | some .finished => system

/-- A process in a terminal state that is on no CPU never runs again. -/
def settle : System τ π :=
  { system with halted := fun process => system.halted process || system.stoppedProcess process }

/-- The thread runs and is in none of the calls. -/
def free : Bool := system.current thread && (system.position thread = .idle)

end

def act : Action τ π → System τ π
  | .setSecret thread =>
    if system.free thread then system.call group thread (.lock .secret false) else system
  | .begin thread => if system.free thread then system.call group thread .check else system
  | .finish thread =>
    if system.current thread ∧ system.position thread = .capturing then
      (system.unlock thread).move thread .idle
    else system
  | .registerMapping thread =>
    if system.current thread ∧ system.position thread = .capturing ∧
        ¬ system.terminal (group thread) then
      system.move thread .mapping
    else system
  | .advance thread scanned =>
    if system.current thread then system.advance group thread scanned else system
  | .create child => if system.stage child = .unborn then system.create child else system
  | .fork thread child =>
    if system.free thread ∧ system.stage child = .unborn then system.fork group thread child else system
  | .publish child =>
    if system.stage child = .created ∧ system.exit child = none then
      { system with stage := update system.stage child .published }
    else system
  | .addThread thread =>
    { system with
      threads := update system.threads (group thread) (thread :: system.threads (group thread)) }
  | .select thread =>
    if system.dead thread then system
    else { system with selected := update system.selected thread true }
  | .deselect thread => { system with selected := update system.selected thread false }
  | .dispatch thread =>
    if system.selected thread ∧ thread ∈ system.threads (group thread) ∧
        system.stage (group thread) = .published ∧ ¬ system.halted (group thread) then
      { system with current := update system.current thread true }
    else system
  | .park thread => { system with current := update system.current thread false }
  | .kill thread => { system with dead := update system.dead thread true }
  | .terminate process => { system with terminal := update system.terminal process true }
  | .claim process =>
    if system.exit process = none then
      { system with terminal := update system.terminal process false }
    else system
  | .exit process scanned => system.exitStep group process scanned

def step (action : Action τ π) : System τ π := (system.act group action).settle

end System

end OpenXJ380.Capture
