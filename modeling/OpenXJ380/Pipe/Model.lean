/-
# The kernel pipe

`pipefs.cpp` keeps one buffer of `PIPE_BUFF` bytes per pipe, the number of open
read and write ends, and two lists of published waiters. Every operation works
in sections that hold the pipe's lock; between two sections of one operation any
other operation may run.

An operation is one call of `pipefs_read`, `pipe_write_inner`, `pipefs_write` or
`pipefs_try_write_packet`. A schedule starts operations, runs their next locked
section, wakes sleepers and opens or closes ends, in any order. A sleeping
operation may be woken at any moment: a wake-up changes the status of the task
only, and the scheduler and other signals wake tasks as well.

Three histories are recorded next to the state of the source: the bytes each read
returned and the chunks writers had accepted, both in lock order, and the result
of every finished write. A detached waiter is woken after the lock is released, so
the sleepers that are owed a wake-up are recorded as well.
-/

import OpenXJ380.Kernel.Errno
import OpenXJ380.Protocol.Run

namespace OpenXJ380.Pipe

/-- `PIPE_BUFF`, the size of the buffer and of the largest indivisible write. -/
def pipeBuff : ℕ := 8192

/-- `memcpy(buf + start, data, size)`. -/
def copyIn (buf : ℕ → UInt8) (start : ℕ) (data : List UInt8) : ℕ → UInt8 :=
  fun i => if start ≤ i then data.getD (i - start) (buf i) else buf i

/-- `memmove(buf, buf + count, length)`. -/
def moveDown (buf : ℕ → UInt8) (count length : ℕ) : ℕ → UInt8 :=
  fun i => if i < length then buf (i + count) else buf i

/-- A published waiter. The source stores the identity of the sleeping task; the
size its operation asked for is recorded here as well. -/
structure PipeWaiter where
  thread : ℕ
  request : ℕ
  deriving DecidableEq, Repr

/-- `pipe_info_t`: the buffer with its fill mark, the open ends, and the two lists
of published waiters. -/
structure PipeInfo where
  buf : ℕ → UInt8
  ptr : ℕ
  readFds : ℕ
  writeFds : ℕ
  blockingRead : List PipeWaiter
  blockingWrite : List PipeWaiter

/-- The pipe `pipefs_create_pair` hands out. -/
def createPair : PipeInfo where
  buf _ := 0
  ptr := 0
  readFds := 1
  writeFds := 1
  blockingRead := []
  blockingWrite := []

namespace PipeInfo

variable (pipe : PipeInfo)

/-- The first `count` bytes of the buffer. -/
def peek (count : ℕ) : List UInt8 := (List.range count).map pipe.buf

/-- The bytes that are buffered. -/
def contents : List UInt8 := pipe.peek pipe.ptr

/-- The space test of the writers. -/
def fits (size : ℕ) : Bool := pipe.ptr ≤ pipeBuff && size ≤ pipeBuff - pipe.ptr

/-- Remove the first `count` bytes and detach the blocked writers. -/
def drain (count : ℕ) : PipeInfo :=
  { pipe with
    buf := if count < pipe.ptr then moveDown pipe.buf count (pipe.ptr - count) else pipe.buf
    ptr := pipe.ptr - count
    blockingWrite := [] }

/-- Append bytes and detach the blocked readers. -/
def append (data : List UInt8) : PipeInfo :=
  { pipe with
    buf := copyIn pipe.buf pipe.ptr data
    ptr := pipe.ptr + data.length
    blockingRead := [] }

end PipeInfo

/-- How a locked section leaves its operation: with the value the operation
returns, about to take the lock again, or asleep. -/
inductive Outcome (α : Type)
  | returned (result : Except Errno α)
  | retry
  | asleep
  deriving Repr

/-- `pipe_wait_on` with a prepared waiter: publish it and go to sleep. `waits` says
whether the status of the task could be exchanged for `WAIT`; if not, the waiter is
taken off the list before the lock is released. -/
def pipeWaitOn {α : Type} (head : List PipeWaiter) (waiter : PipeWaiter) (waits : Bool) :
    Outcome α × List PipeWaiter :=
  let published := waiter :: head
  if waits then (.asleep, published) else (.returned (.error .eintr), published.tail)

section

variable (pipe : PipeInfo)

/-- One locked section of `pipefs_read`. -/
def readSection (thread size : ℕ) (prepared waits : Bool) : Outcome (List UInt8) × PipeInfo :=
  if pipe.ptr ≠ 0 then
    let count := min size pipe.ptr
    (.returned (.ok (pipe.peek count)), pipe.drain count)
  else if pipe.writeFds = 0 then (.returned (.ok []), pipe)
  else if !prepared then (.retry, pipe)
  else
    let (outcome, waiters) := pipeWaitOn pipe.blockingRead ⟨thread, size⟩ waits
    (outcome, { pipe with blockingRead := waiters })

/-- One locked section of `pipe_write_inner`. -/
def writeSection (thread : ℕ) (data : List UInt8) (prepared waits : Bool) : Outcome ℕ × PipeInfo :=
  if pipe.readFds = 0 then (.returned (.error .epipe), pipe)
  else if pipe.fits data.length then (.returned (.ok data.length), pipe.append data)
  else if !prepared then (.retry, pipe)
  else
    let (outcome, waiters) := pipeWaitOn pipe.blockingWrite ⟨thread, data.length⟩ waits
    (outcome, { pipe with blockingWrite := waiters })

/-- The locked section of `pipefs_try_write_packet`. -/
def packetSection (data : List UInt8) : Except Errno ℕ × PipeInfo :=
  if pipe.readFds = 0 ∨ pipe.writeFds = 0 then (.error .epipe, pipe)
  else if pipe.fits data.length then (.ok data.length, pipe.append data)
  else (.error .eagain, pipe)

variable (write : Bool)

/-- `pipefs_close` of one end: the last end of a side detaches the waiters that the
other side could have woken. -/
def close : PipeInfo :=
  if write then
    let writeFds := if 0 < pipe.writeFds then pipe.writeFds - 1 else pipe.writeFds
    { pipe with
      writeFds := writeFds
      blockingRead := if writeFds = 0 then [] else pipe.blockingRead }
  else
    let readFds := if 0 < pipe.readFds then pipe.readFds - 1 else pipe.readFds
    { pipe with
      readFds := readFds
      blockingWrite := if readFds = 0 then [] else pipe.blockingWrite }

/-- `fd_dup` of one end. -/
def dup : PipeInfo :=
  if write then { pipe with writeFds := pipe.writeFds + 1 }
  else { pipe with readFds := pipe.readFds + 1 }

end

/-- The locals of `pipefs_write`: the bytes to write, the piece `i` it is at, how far
into that piece it is, and the bytes of the finished pieces. -/
structure WriteCall where
  data : List UInt8
  index : ℕ
  cycle : ℕ
  ret : ℕ
  deriving Repr

namespace WriteCall

variable (call : WriteCall)

def chunks : ℕ := call.data.length / pipeBuff

def remainder : ℕ := call.data.length % pipeBuff

/-- The two loops of the source as one: the full pieces, then the remainder. -/
def pending : Bool := call.index < call.chunks || (call.index = call.chunks && call.remainder ≠ 0)

/-- The size the loop over `cycle` counts up to. -/
def pieceSize : ℕ :=
  if call.index < call.chunks then pipeBuff else call.remainder

/-- What is handed to `pipe_write_inner` next. -/
def request : List UInt8 :=
  (call.data.drop (call.index * pipeBuff + call.cycle)).take (call.pieceSize - call.cycle)

/-- The locals after `pipe_write_inner` reported `wrote` bytes. -/
def advance (wrote : ℕ) : WriteCall :=
  let cycle := call.cycle + wrote
  if cycle = call.pieceSize then
    { call with index := call.index + 1, cycle := 0, ret := call.ret + cycle }
  else { call with cycle := cycle }

/-- What is returned after `pipe_write_inner` failed. -/
def giveUp (error : Errno) : Except Errno ℕ :=
  if call.ret ≠ 0 then .ok call.ret else .error error

end WriteCall

/-- Where a running operation stands: before its lock without or with a prepared
waiter, or asleep with a published one. -/
inductive Stage
  | unprepared
  | prepared
  | asleep
  deriving DecidableEq, Repr

/-- An operation on the pipe, running or finished. -/
inductive Operation
  | reading (size : ℕ) (stage : Stage)
  | readDone
  | inner (data : List UInt8) (stage : Stage)
  | writing (call : WriteCall) (stage : Stage)
  | wrote (data : List UInt8) (result : Except Errno ℕ)
  deriving Repr

/-- The pipe, its operations under their numbers, and the histories: the bytes that
reads returned, the chunks that writers had accepted, with the writer's number, and the
operations whose waiter was detached and that were not woken since. -/
structure System where
  pipe : PipeInfo
  operations : List Operation
  delivered : List (List UInt8)
  accepted : List (ℕ × List UInt8)
  detached : List ℕ

/-- The state after `pipefs_create_pair`. -/
def initial : System where
  pipe := createPair
  operations := []
  delivered := []
  accepted := []
  detached := []

/-- What the scheduler may do next. -/
inductive Action
  | read (size : ℕ)
  | writeInner (data : List UInt8)
  | write (data : List UInt8)
  | packet (data : List UInt8)
  | locked (operation : ℕ) (allocates waits : Bool)
  | wake (operation : ℕ) (alive : Bool)
  | close (write : Bool)
  | dup (write : Bool)

/-- The stage after a section that has to wait and had no waiter: one is allocated
outside the lock, or the operation sleeps a millisecond and tries again. -/
def prepare (allocates : Bool) : Stage :=
  if allocates then .prepared else .unprepared

/-- The operation after `pipe_write_inner` returned to `pipefs_write`. -/
def resumeWrite (call : WriteCall) : Except Errno ℕ → Operation
  | .ok wrote =>
    let next := call.advance wrote
    if next.pending then .writing next .unprepared else .wrote call.data (.ok next.ret)
  | .error error => .wrote call.data (call.giveUp error)

/-- The chunk a section's outcome adds to the accepted ones. -/
def acceptedBy (operation : ℕ) (data : List UInt8) : Outcome ℕ → List (ℕ × List UInt8)
  | .returned (.ok _) => [(operation, data)]
  | _ => []

/-- The bytes a section's outcome hands to its reader. -/
def deliveredBy : Outcome (List UInt8) → List (List UInt8)
  | .returned (.ok bytes) => [bytes]
  | _ => []

/-- The operations whose waiters a section has taken off the lists. -/
def detachedBy (old new : PipeInfo) : List ℕ :=
  ((old.blockingRead.filter fun waiter => waiter ∉ new.blockingRead) ++
    old.blockingWrite.filter fun waiter => waiter ∉ new.blockingWrite).map PipeWaiter.thread

/-- The operation after one of its sections. -/
def follow {α : Type} (again : Stage → Operation) (done : Except Errno α → Operation)
    (allocates : Bool) : Outcome α → Operation
  | .returned result => done result
  | .retry => again (prepare allocates)
  | .asleep => again .asleep

namespace System

variable (system : System)

/-- The next locked section of an operation. -/
def locked (operation : ℕ) (allocates waits : Bool) : System :=
  match system.operations[operation]? with
  | some (.reading size stage) =>
    if stage = .asleep then system
    else
      let (outcome, pipe) := readSection system.pipe operation size (stage = .prepared) waits
      { system with
        pipe := pipe
        operations := system.operations.set operation
          (follow (.reading size) (fun _ => .readDone) allocates outcome)
        delivered := system.delivered ++ deliveredBy outcome
        detached := system.detached ++ detachedBy system.pipe pipe }
  | some (.inner data stage) =>
    if stage = .asleep then system
    else
      let (outcome, pipe) := writeSection system.pipe operation data (stage = .prepared) waits
      { system with
        pipe := pipe
        operations := system.operations.set operation
          (follow (.inner data) (.wrote data) allocates outcome)
        accepted := system.accepted ++ acceptedBy operation data outcome
        detached := system.detached ++ detachedBy system.pipe pipe }
  | some (.writing call stage) =>
    if stage = .asleep then system
    else
      let (outcome, pipe) :=
        writeSection system.pipe operation call.request (stage = .prepared) waits
      { system with
        pipe := pipe
        operations := system.operations.set operation
          (follow (.writing call) (resumeWrite call) allocates outcome)
        accepted := system.accepted ++ acceptedBy operation call.request outcome
        detached := system.detached ++ detachedBy system.pipe pipe }
  | _ => system

/-- A sleeper's status is no longer `WAIT`: it goes back to its lock, or ends with
`EINTR` if it was killed. Its waiter stays where it is. -/
def wake (operation : ℕ) (alive : Bool) : System :=
  let resume (again killed : Operation) : System :=
    { system with
      operations := system.operations.set operation (if alive then again else killed)
      detached := system.detached.filter (· ≠ operation) }
  match system.operations[operation]? with
  | some (.reading size .asleep) => resume (.reading size .unprepared) .readDone
  | some (.inner data .asleep) => resume (.inner data .unprepared) (.wrote data (.error .eintr))
  | some (.writing call .asleep) =>
    resume (.writing call .unprepared) (resumeWrite call (.error .eintr))
  | _ => system

/-- Start an operation; a read of nothing, a write of nothing and an impossible packet
return without taking the lock. -/
def step : Action → System
  | .read size =>
    { system with
      operations := system.operations ++
        [if size = 0 then .readDone else .reading (min size pipeBuff) .unprepared] }
  | .writeInner data =>
    { system with operations := system.operations ++ [.inner data .unprepared] }
  | .write data =>
    let call : WriteCall := ⟨data, 0, 0, 0⟩
    { system with
      operations := system.operations ++
        [if call.pending then .writing call .unprepared else .wrote data (.ok 0)] }
  | .packet data =>
    if data.length = 0 ∨ pipeBuff < data.length then
      { system with operations := system.operations ++ [.wrote data (.error .einval)] }
    else
      let (result, pipe) := packetSection system.pipe data
      { system with
        pipe := pipe
        operations := system.operations ++ [.wrote data result]
        accepted := system.accepted ++ acceptedBy system.operations.length data (.returned result)
        detached := system.detached ++ detachedBy system.pipe pipe }
  | .locked operation allocates waits => system.locked operation allocates waits
  | .wake operation alive => system.wake operation alive
  | .close write =>
    let pipe := Pipe.close system.pipe write
    { system with
      pipe := pipe
      detached := system.detached ++ detachedBy system.pipe pipe }
  | .dup write => { system with pipe := Pipe.dup system.pipe write }

end System

end OpenXJ380.Pipe
