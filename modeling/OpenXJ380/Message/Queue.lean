/-
# The queue of window messages

Producers hand message records to a queue, and one kernel worker writes them to the
pipes of the applications. The queue has a channel for every pipe with pending
records. A channel is found through a table of buckets and stands in a circular list,
in which the worker goes round: it takes the first record of the channel at the entry,
moves the entry on, writes the record without holding the lock, and removes the record
under the lock unless the pipe was full.

A channel is identified with its pipe: while it exists its records pin the pipe. The
sections that hold `message_queue_lock` are steps, and so is the write in between.
What the descriptor registry and the pipe answer is chosen by the schedule.

The calls of `message_enqueue` are numbered; the number of a call also stands for the
operation ticket it was given. The accepted records, what became of the records the
worker handled, and the tickets that were released are kept as a record of the run.
-/

import OpenXJ380.Kernel.Errno
import OpenXJ380.Protocol.Run

namespace OpenXJ380.Message

open Function

/-- `kMessageLimitPerPipe`. -/
def limitPerPipe : ℕ := 4096

/-- `kMessageLimitGlobal`. -/
def limitGlobal : ℕ := 32768

/-- `kMessageBuckets`. -/
abbrev buckets : ℕ := 256

/-- `PendingMessage`: the record and the number of its ticket. -/
structure Packet (ν : Type) where
  number : ℕ
  value : ν
  deriving DecidableEq, Repr

/-- `MessageChannel` without its links: the records from head to tail, and their count. -/
structure Channel (ν : Type) where
  records : List (Packet ν)
  count : ℕ
  overflowReported : Bool
  deriving Repr

/-- A channel fresh from `calloc`. -/
def Channel.empty {ν : Type} : Channel ν := ⟨[], 0, false⟩

/-- The state behind `message_queue_lock`: the channels, the chains of the buckets, the
circular list with its entry `ready`, and the total count. -/
structure Queue (ι ν : Type) where
  channels : ι → Channel ν
  chains : Fin buckets → List ι
  ready : Option ι
  readyNext : ι → ι
  readyPrev : ι → ι
  pendingCount : ℕ
  workerReady : Bool
  capacityReported : Bool

variable {ι ν : Type} [DecidableEq ι]

namespace Queue

variable (bucket : ι → Fin buckets) (queue : Queue ι ν)

section

variable (identity : ι)

/-- Enter a new channel into its bucket and, before the entry, into the circular list. -/
def link : Queue ι ν :=
  let chained := { queue with
    channels := update queue.channels identity .empty
    chains := update queue.chains (bucket identity) (identity :: queue.chains (bucket identity)) }
  match queue.ready with
  | none =>
    { chained with
      ready := some identity
      readyNext := update queue.readyNext identity identity
      readyPrev := update queue.readyPrev identity identity }
  | some first =>
    let last := queue.readyPrev first
    { chained with
      readyNext := update (update queue.readyNext identity first) last identity
      readyPrev := update (update queue.readyPrev identity last) first
        identity }

variable (packet : Packet ν)

/-- Append a record to its channel. -/
def push : Queue ι ν :=
  let channel := queue.channels identity
  { queue with
    channels := update queue.channels identity
      { channel with records := channel.records ++ [packet], count := channel.count + 1 }
    pendingCount := queue.pendingCount + 1 }

/-- The channel of a pipe is looked up in its bucket. -/
def found : Bool := identity ∈ queue.chains (bucket identity)

variable (transferred : Bool)

/-- Why a record is not accepted. `transferred` is the answer of
`fd_operation_transfer_to_kernel`, which is asked last. -/
def refusal : Option Errno :=
  if !queue.workerReady then some .enosys
  else if limitGlobal ≤ queue.pendingCount then some .enobufs
  else if queue.found bucket identity ∧ limitPerPipe ≤ (queue.channels identity).count then
    some .eagain
  else if !transferred then some .ebadf
  else none

/-- A full queue is reported once per channel, or once if the pipe has none. -/
def reportFull : Queue ι ν :=
  if queue.found bucket identity then
    { queue with
      channels := update queue.channels identity
        { queue.channels identity with overflowReported := true } }
  else { queue with capacityReported := true }

/-- The locked section of `message_enqueue`. -/
def enqueue : Option Errno × Queue ι ν :=
  match queue.refusal bucket identity transferred with
  | none =>
    let linked := if queue.found bucket identity then queue else queue.link bucket identity
    (none, linked.push identity packet)
  | some error =>
    (some error,
      if error = .enobufs ∨ error = .eagain then queue.reportFull bucket identity else queue)

end

/-- The first locked section of `message_delivery_pump`: the entry moves on, and the
record to write is the first of the channel it left. -/
def take : Option (ι × Packet ν) × Queue ι ν :=
  match queue.ready with
  | none => (none, queue)
  | some identity =>
    ((queue.channels identity).records.head?.map (identity, ·),
      { queue with ready := some (queue.readyNext identity) })

variable (identity : ι)

/-- Remove an empty channel from its bucket and from the circular list. -/
def unlink : Queue ι ν :=
  let next := queue.readyNext identity
  let prev := queue.readyPrev identity
  let unchained := { queue with
    channels := update queue.channels identity .empty
    chains := update queue.chains (bucket identity)
      ((queue.chains (bucket identity)).erase identity) }
  if next = identity then { unchained with ready := none }
  else
    { unchained with
      readyNext := update queue.readyNext prev next
      readyPrev := update queue.readyPrev next prev
      ready := if queue.ready = some identity then some next else queue.ready }

/-- The second locked section: remove the first record of the channel. -/
def pop : Queue ι ν :=
  let channel := queue.channels identity
  let popped := { queue with
    channels := update queue.channels identity
      { channel with records := channel.records.tail, count := channel.count - 1 }
    pendingCount := queue.pendingCount - 1 }
  if channel.records.tail = [] then popped.unlink bucket identity else popped

end Queue

/-- Where the worker stands: between two turns of its loop, before the write, or before
the section that removes the record. -/
inductive Worker (ι ν : Type)
  | idle
  | writing (identity : ι) (packet : Packet ν)
  | popping (identity : ι) (packet : Packet ν)
  deriving Repr

/-- What became of a record the worker handled. -/
inductive Disposition
  | written
  | retired
  | failed (error : Errno)
  deriving DecidableEq, Repr

/-- The queue with its worker, and the histories. -/
structure System (ι ν : Type) where
  queue : Queue ι ν
  worker : Worker ι ν
  calls : ℕ
  accepted : List (ι × Packet ν)
  handled : List (ι × Packet ν × Disposition)
  released : List ℕ

/-- The queue before the worker has been started. -/
def System.initial (links : ι → ι) : System ι ν where
  queue :=
    { channels := fun _ => .empty
      chains := fun _ => []
      ready := none
      readyNext := links
      readyPrev := links
      pendingCount := 0
      workerReady := false
      capacityReported := false }
  worker := .idle
  calls := 0
  accepted := []
  handled := []
  released := []

/-- What may happen next. A call of `message_enqueue` finds the pipe of its ticket or
none, and has its memory or not. For a write the schedule says whether the descriptor is
retired and otherwise what `pipefs_try_write_packet` returns. -/
inductive Action (ι ν : Type)
  | startWorker
  | enqueue (identity : Option ι) (value : ν) (allocated transferred : Bool)
  | take
  | write (retired : Bool) (result : Except Errno ℕ)
  | pop

namespace System

variable (bucket : ι → Fin buckets) (system : System ι ν)

/-- `message_enqueue`. -/
def enqueue (identity : Option ι) (value : ν) (allocated transferred : Bool) : System ι ν :=
  let number := system.calls
  let refused := { system with calls := number + 1, released := number :: system.released }
  match identity with
  | none => refused
  | some identity =>
    if !allocated then refused
    else
      let packet : Packet ν := ⟨number, value⟩
      let (error, queue) := system.queue.enqueue bucket identity packet transferred
      match error with
      | some _ => { refused with queue := queue }
      | none =>
        { system with
          queue := queue
          calls := number + 1
          accepted := system.accepted ++ [(identity, packet)] }

/-- The result of a write as the worker sees it. -/
def disposition (retired : Bool) (result : Except Errno ℕ) : Disposition :=
  if retired then .retired
  else match result with
    | .ok _ => .written
    | .error error => .failed error

/-- The write of the worker: a full pipe keeps the record. -/
def write (retired : Bool) (result : Except Errno ℕ) : System ι ν :=
  match system.worker with
  | .writing identity packet =>
    let outcome := disposition retired result
    if outcome = .failed .eagain then { system with worker := .idle }
    else
      { system with
        worker := .popping identity packet
        handled := system.handled ++ [(identity, packet, outcome)] }
  | _ => system

/-- One step of a producer or of the worker. -/
def step : Action ι ν → System ι ν
  | .startWorker => { system with queue := { system.queue with workerReady := true } }
  | .enqueue identity value allocated transferred =>
    system.enqueue bucket identity value allocated transferred
  | .take =>
    match system.worker with
    | .idle =>
      let (found, queue) := system.queue.take
      { system with
        queue := queue
        worker := match found with
          | none => .idle
          | some (identity, packet) => .writing identity packet }
    | _ => system
  | .write retired result => system.write retired result
  | .pop =>
    match system.worker with
    | .popping identity packet =>
      { system with
        queue := system.queue.pop bucket identity
        worker := .idle
        released := packet.number :: system.released }
    | _ => system

end System

end OpenXJ380.Message
