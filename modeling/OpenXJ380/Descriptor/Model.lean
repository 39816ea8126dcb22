/-
# Descriptor tables and operation records

A file handle is reached through an entry of a descriptor table. A system call that
uses it holds an operation record, which pins the handle while the call is in
progress; `fd_retire_handle` gives up a handle that has been taken out of its table,
and whoever removes the last record of a retired handle finishes it.

Every critical section of `fd_lifetime.cpp` is one step. A call of `finish_handle` that a
section has decided on comes after the section, as another step of the same task, which
owes it until then. A task takes steps while a CPU references it; it can be killed at any
moment, and the records of a task that has stopped are removed by the reaper or by the
exit hook of the thread.

A handle that is in no table and has not been given up yet is *loose*: it was just
created, or a function has detached it and still has to retire it. The lists of
handles that were ever created, given up and finished are kept as a record of the
run.
-/

import OpenXJ380.Kernel.Errno
import OpenXJ380.Protocol.Run

namespace OpenXJ380.Descriptor

open Function

variable {τ π η : Type} [DecidableEq τ] [DecidableEq π] [DecidableEq η]

/-- `kBuckets`, the size of the registry. -/
abbrev buckets : ℕ := 256

/-- The largest descriptor number. -/
def maxDescriptor : ℕ := 0x7fffffff

/-- A node of a descriptor table. -/
structure Entry (η : Type) where
  index : ℕ
  handle : η
  deriving DecidableEq, Repr

/-- `FdOperationRecord`; its address is modelled by the number of its allocation. -/
structure OperationRecord (τ η : Type) where
  number : ℕ
  handle : η
  owner : Option τ
  retired : Bool
  deriving DecidableEq, Repr

/-- What the functions of `fd_lifetime.cpp` read of a handle: the bucket its address
falls into and whether it has a node. -/
structure Layout (η : Type) where
  bucket : η → Fin buckets
  hasNode : η → Bool

/-- The descriptor tables, the registry, and the tasks. -/
structure System (τ π η : Type) where
  tables : ℕ → List (Entry η)
  fileOpen : π → Option ℕ
  dead : π → Bool
  cloexec : η → Bool
  operations : Fin buckets → List (OperationRecord τ η)
  nextRecord : ℕ
  terminal : τ → Bool
  referenced : τ → Bool
  created : List η
  loose : List η
  retired : List η
  finished : List η
  /-- The handle that a task has to finish next. -/
  owes : τ → Option η

/-- Empty tables and an empty registry. -/
def System.initial (fileOpen : π → Option ℕ) (referenced : τ → Bool) : System τ π η where
  tables _ := []
  fileOpen := fileOpen
  dead _ := false
  cloexec _ := false
  operations _ := []
  nextRecord := 0
  terminal _ := false
  referenced := referenced
  created := []
  loose := []
  retired := []
  finished := []
  owes _ := none

/-- The test of `detach_locked`. -/
def matching (cloexec : η → Bool) (first last : ℕ) (onlyCloexec : Bool) (entry : Entry η) : Bool :=
  first ≤ entry.index && entry.index ≤ last && (!onlyCloexec || cloexec entry.handle)

/-- `detach_locked`: the first node that matches, and the table without it. -/
def detachLocked (entries : List (Entry η)) (test : Entry η → Bool) : Option (η × List (Entry η)) :=
  (entries.find? test).map fun entry => (entry.handle, entries.eraseP test)

/-- The search of `fd_install_handle` for the lowest free number. `fuel` counts the
numbers that are left. -/
def lowestFree (entries : List (Entry η)) : ℕ → ℕ → ℕ
  | 0, candidate => candidate
  | fuel + 1, candidate =>
    if entries.any (·.index = candidate) then lowestFree entries fuel (candidate + 1)
    else candidate

/-- The chain of a record's bucket without the record. -/
def unlinked (layout : Layout η) (operations : Fin buckets → List (OperationRecord τ η))
    (record : OperationRecord τ η) : List (OperationRecord τ η) :=
  (operations (layout.bucket record.handle)).eraseP (·.number = record.number)

/-- Mark a record if it is one of a given handle. -/
def mark (handle : η) (record : OperationRecord τ η) : OperationRecord τ η :=
  if record.handle = handle then { record with retired := true } else record

namespace System

variable (layout : Layout η) (system : System τ π η)

/-- All records of the registry. -/
def Registered (record : OperationRecord τ η) : Prop := ∃ bucket, record ∈ system.operations bucket

/-- `owner_quiescent`. `scanned` is the answer of `scheduler_task_referenced` for a task
that is not referenced. -/
def ownerQuiescent (scanned : τ → Bool) (owner : Option τ) : Bool :=
  owner.any fun task => system.terminal task && !(system.referenced task || scanned task)

/-- Take one handle out of a table. -/
def detach (table : ℕ) (test : Entry η → Bool) : System τ π η :=
  match detachLocked (system.tables table) test with
  | none => system
  | some (handle, rest) =>
    { system with
      tables := update system.tables table rest
      loose := handle :: system.loose }

/-- Put a record in front of its bucket. -/
def register (handle : η) (owner : Option τ) : System τ π η :=
  { system with
    operations := update system.operations (layout.bucket handle)
      (⟨system.nextRecord, handle, owner, false⟩ :: system.operations (layout.bucket handle))
    nextRecord := system.nextRecord + 1 }

variable (task : τ)

/-- `acquire_prepared`. -/
def acquire (process : π) (descriptor : ℕ) : System τ π η :=
  let table :=
    if system.terminal task || system.dead process then none else system.fileOpen process
  match table with
  | none => system
  | some table =>
    match (system.tables table).find? (·.index = descriptor) with
    | none => system
    | some entry =>
      if layout.hasNode entry.handle then system.register layout entry.handle (some task)
      else system

/-- `remove_record_locked`, with the handle that is left to be finished. -/
def removeRecord (record : OperationRecord τ η) : Option η × System τ π η :=
  let rest := unlinked layout system.operations record
  (if record.retired && !rest.any (·.handle = record.handle) then some record.handle else none,
    { system with operations := update system.operations (layout.bucket record.handle) rest })

section

variable (test : OperationRecord τ η → Bool)

/-- The first record that meets a test, in the order of the buckets. -/
def findRecord : Option (OperationRecord τ η) :=
  (List.finRange buckets).findSome? fun index => (system.operations index).find? test

/-- Remove the first record that meets a test. -/
def removeFirst : System τ π η :=
  match system.findRecord test with
  | none => system
  | some record =>
    let (handle, after) := system.removeRecord layout record
    { after with owes := update after.owes task handle }

end

/-- `fd_operation_release` by the owner of the record, or, for a record that belongs to
the kernel, by any task. -/
def release (number : ℕ) : System τ π η := system.removeFirst layout task fun record =>
    record.number = number && (record.owner = some task || record.owner = none)

/-- `fd_operation_transfer_to_kernel`. -/
def transferToKernel (number : ℕ) : System τ π η :=
  if system.terminal task then system
  else
    { system with
      operations := fun index => (system.operations index).map fun record =>
        if record.number = number ∧ record.owner = some task ∧ record.retired = false then
          { record with owner := none }
        else record }

/-- The section of `fd_retire_handle`: mark the records of the handle. The answer is `pinned`. -/
def retire (handle : η) : Bool × System τ π η :=
  let chain := system.operations (layout.bucket handle)
  (chain.any (·.handle = handle),
    { system with
      operations := update system.operations (layout.bucket handle) (chain.map (mark handle)) })

/-- The call of `finish_handle` that a task owes. -/
def finish : System τ π η :=
  match system.owes task with
  | none => system
  | some handle =>
    { system with
      owes := update system.owes task none
      finished := handle :: system.finished }

/-- The end of a successful installation: append the entry, and create the record the
caller asked for. -/
def append (table number : ℕ) (handle : η) (publisher : Bool) : System τ π η :=
  let installed := { system with
    tables := update system.tables table (system.tables table ++ [⟨number, handle⟩])
    loose := system.loose.erase handle }
  if publisher then installed.register layout handle (some task) else installed

/-- `fd_install_handle`: the lowest free number from `minimum`, or exactly `minimum` with
the entry that was there detached; `publisher` asks for a record of the new handle. -/
def install (process : π) (handle : η) (minimum : ℕ) (exact publisher : Bool) : System τ π η :=
  let table := if system.dead process then none else system.fileOpen process
  match table with
  | none => system
  | some table =>
    let entries := system.tables table
    let free := lowestFree entries (maxDescriptor - minimum) minimum
    if handle ∉ system.loose then system
    else if exact then
      (system.detach table (matching system.cloexec minimum minimum false)).append layout
        task table minimum handle publisher
    else if entries.any (·.index = free) then system
    else system.append layout task table free handle publisher

end System

/-- What may happen next. The functions that only detach are `detachMatching` (also for
one descriptor), `detachIf`, `detachFirst` and `detachTable`. -/
inductive Action (τ π η : Type)
  | create (handle : η)
  | acquire (task : τ) (process : π) (descriptor : ℕ)
  | transfer (task : τ) (number : ℕ)
  | release (task : τ) (number : ℕ)
  | install (task : τ) (process : π) (handle : η) (minimum : ℕ) (exact publisher : Bool)
  | retire (task : τ) (handle : η)
  | detachMatching (task : τ) (process : π) (first last : ℕ) (onlyCloexec : Bool)
  | detachIf (task : τ) (process : π) (descriptor : ℕ) (expected : η)
  | detachTable (task : τ) (process : π)
  | detachFirst (task : τ) (table : ℕ)
  | markCloexec (task : τ) (process : π) (first last : ℕ)
  | finish (task : τ)
  | reap (runner : τ) (scanned : τ → Bool)
  | threadExit (runner task : τ) (scanned : τ → Bool)
  | die (task : τ)
  | exit (process : π)
  | deschedule (task : τ)
  | schedule (task : τ)

namespace System

/-- `fd_mark_cloexec`. -/
def markCloexec (system : System τ π η) (process : π) (first last : ℕ) : System τ π η :=
  match system.fileOpen process with
  | none => system
  | some table =>
    { system with
      cloexec := fun handle => system.cloexec handle || (system.tables table).any fun entry =>
          first ≤ entry.index && entry.index ≤ last && entry.handle = handle }

variable (layout : Layout η) (system : System τ π η)

/-- A critical section run by a task. -/
def act : Action τ π η → System τ π η
  | .acquire task process descriptor => system.acquire layout task process descriptor
  | .transfer task number => system.transferToKernel task number
  | .release task number => system.release layout task number
  | .install task process handle minimum exact publisher =>
    system.install layout task process handle minimum exact publisher
  | .retire task handle =>
    -- A task gives up a handle that it has just created or detached.
    if handle ∈ system.loose then
      let (pinned, after) := system.retire layout handle
      { after with
        loose := system.loose.erase handle
        retired := handle :: system.retired
        owes := update after.owes task (if pinned then none else some handle) }
    else system
  | .detachMatching _ process first last onlyCloexec =>
    match system.fileOpen process with
    | none => system
    | some table => system.detach table (matching system.cloexec first last onlyCloexec)
  | .detachIf _ process descriptor expected =>
    match system.fileOpen process with
    | none => system
    | some table =>
      if (system.tables table).any (· = ⟨descriptor, expected⟩) then
        system.detach table (matching system.cloexec descriptor descriptor false)
      else system
  | .detachTable _ process =>
    { system with fileOpen := update system.fileOpen process none }
  | .detachFirst _ table => system.detach table fun _ => true
  | .markCloexec _ process first last => system.markCloexec process first last
  | _ => system

/-- The task runs and has nothing left to do from its last section. -/
def free (task : τ) : Bool := system.referenced task && (system.owes task).isNone

/-- One step of a task or of the scheduler. -/
def step (action : Action τ π η) : System τ π η :=
  match action with
  | .create handle =>
    if handle ∈ system.created then system
    else
      { system with created := handle :: system.created, loose := handle :: system.loose }
  | .acquire task _ _ | .transfer task _ | .release task _ | .install task _ _ _ _ _
  | .retire task _ | .detachMatching task _ _ _ _ | .detachIf task _ _ _ | .detachTable task _
  | .detachFirst task _ | .markCloexec task _ _ _ =>
    if system.free task then system.act layout action else system
  | .finish task => if system.referenced task then system.finish task else system
  | .reap runner scanned =>
    if system.free runner then
      system.removeFirst layout runner fun record => system.ownerQuiescent scanned record.owner
    else system
  | .threadExit runner task scanned =>
    if system.free runner && system.ownerQuiescent scanned (some task) then
      system.removeFirst layout runner fun record => record.owner = some task
    else system
  | .die task => { system with terminal := update system.terminal task true }
  | .exit process => { system with dead := update system.dead process true }
  | .deschedule task =>
    { system with referenced := update system.referenced task false }
  | .schedule task =>
    if system.terminal task then system
    else { system with referenced := update system.referenced task true }

end System

end OpenXJ380.Descriptor
