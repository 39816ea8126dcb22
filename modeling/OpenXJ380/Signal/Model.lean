/-
# Signals of a user thread

`src/kernel/syscall/signal.cpp`, with the entry and the exit of system calls in
`src/kernel/intr/handler.S` and `src/kernel/syscall/syscall.cpp`. At the end of every system
call a pending signal may be delivered: the saved registers and the blocked mask are copied to a
frame on a stack of the user, and the saved registers are changed so that the handler runs.
`signal_return` copies the registers back from the frame at the stack pointer.

A thread is its user registers, its memory and the signal fields of its task. Between two
system calls the user program changes registers and memory; system calls that have nothing to
do with signals change `rax` and memory. Whether a range of user memory is mapped is an
input of every system call. A thread also keeps the frames whose handlers have not returned
and all frames that were ever written; no function reads these.
-/

import OpenXJ380.Data.Memory
import OpenXJ380.Protocol.Run

namespace OpenXJ380.Signal

open Data

def maxsig : Nat := 32
def sigkill : Nat := 9
def sigstop : Nat := 19

def sigNomask : UInt64 := 0x40000000
def sigOneshot : UInt64 := 0x80000000
def saOnstack : UInt64 := 0x08000000

def ssOnstack : UInt32 := 1
def ssDisable : UInt32 := 2
def minsigstksz : UInt64 := 2048

def sigDfl : UInt64 := 0
def sigIgn : UInt64 := 1

def selectorUserCs : UInt64 := 0x23
def selectorUserDs : UInt64 := 0x1b

def kernelAreaMem : Nat := 0xf000000000000000

def efault : UInt64 := -14
def einval : UInt64 := -22
def enomem : UInt64 := -12

def sigmask (sig : Nat) : UInt64 := 1 <<< UInt64.ofNat sig

/-- `SIGMASK(SIGKILL) | SIGMASK(SIGSTOP)` -/
def unblockable : UInt64 := sigmask sigkill ||| sigmask sigstop

/-- The saved registers of a thread, `struct X64_REGS`. -/
structure X64Regs where
  r15 : UInt64 := 0
  r14 : UInt64 := 0
  r13 : UInt64 := 0
  r12 : UInt64 := 0
  r11 : UInt64 := 0
  r10 : UInt64 := 0
  r9 : UInt64 := 0
  r8 : UInt64 := 0
  rbx : UInt64 := 0
  rcx : UInt64 := 0
  rdx : UInt64 := 0
  rsi : UInt64 := 0
  rdi : UInt64 := 0
  rbp : UInt64 := 0
  ds : UInt64 := 0
  es : UInt64 := 0
  rax : UInt64 := 0
  func : UInt64 := 0
  errcode : UInt64 := 0
  rip : UInt64 := 0
  cs : UInt64 := 0
  rflags : UInt64 := 0
  rsp : UInt64 := 0
  ss : UInt64 := 0
  deriving DecidableEq, Repr

namespace X64Regs

def words (regs : X64Regs) : List UInt64 :=
  [regs.r15, regs.r14, regs.r13, regs.r12, regs.r11, regs.r10, regs.r9, regs.r8, regs.rbx, regs.rcx,
    regs.rdx, regs.rsi, regs.rdi, regs.rbp, regs.ds, regs.es, regs.rax, regs.func, regs.errcode, regs.rip,
    regs.cs, regs.rflags, regs.rsp, regs.ss]

def ofWords : List UInt64 → X64Regs
  | [r15, r14, r13, r12, r11, r10, r9, r8, rbx, rcx, rdx, rsi, rdi, rbp, ds, es, rax, func, errcode, rip,
      cs, rflags, rsp, ss] =>
    ⟨r15, r14, r13, r12, r11, r10, r9, r8, rbx, rcx, rdx, rsi, rdi, rbp, ds, es, rax, func, errcode, rip,
      cs, rflags, rsp, ss⟩
  | _ => {}

end X64Regs

/-- `struct user_signal_frame`; the padding behind `sig` is zero. -/
structure SignalFrame where
  magic : UInt64
  sig : UInt64
  oldmask : UInt64
  regs : X64Regs
  deriving DecidableEq, Repr

def signalFrameMagic : UInt64 := 0x583338305349474e

def sizeofFrame : Nat := 216

namespace SignalFrame

def words (frame : SignalFrame) : List UInt64 :=
  frame.magic :: frame.sig :: frame.oldmask :: frame.regs.words

def ofWords : List UInt64 → SignalFrame
  | magic :: sig :: oldmask :: regs => ⟨magic, sig, oldmask, .ofWords regs⟩
  | _ => ⟨0, 0, 0, {}⟩

def bytes (frame : SignalFrame) : List UInt8 := encodeWords frame.words

def ofBytes (bytes : List UInt8) : SignalFrame := .ofWords (decodeWords 27 bytes)

end SignalFrame

/-- `sigaction_t` -/
structure Sigaction where
  saHandler : UInt64 := 0
  saFlags : UInt64 := 0
  saRestorer : UInt64 := 0
  saMask : UInt64 := 0
  deriving DecidableEq, Repr

namespace Sigaction

def words (action : Sigaction) : List UInt64 :=
  [action.saHandler, action.saFlags, action.saRestorer, action.saMask]

def ofWords : List UInt64 → Sigaction
  | [saHandler, saFlags, saRestorer, saMask] => ⟨saHandler, saFlags, saRestorer, saMask⟩
  | _ => {}

end Sigaction

/-- A frame whose handler has not returned, where it is, and whether the handler runs on the
alternate stack. -/
structure Frame where
  address : Nat
  content : SignalFrame
  alternate : Bool

structure Thread where
  regs : X64Regs := {}
  memory : ByteMemory
  signal : UInt64 := 0
  blocked : UInt64 := 0
  actions : Nat → Sigaction := fun _ => {}
  sasSsSp : UInt64 := 0
  sasSsFlags : UInt32 := 0
  sasSsSize : UInt64 := 0
  /-- The task waits until it is continued. -/
  stopped : Bool := false
  /-- The exit code of a task that was killed. -/
  killed : Option Nat := none
  live : List Frame := []
  delivered : List SignalFrame := []

section

variable (mapped : Nat → Nat → Bool)

def userRangeMapped (address : UInt64) (size : Nat) : Bool :=
  decide (size = 0) || (decide (address ≠ 0) && decide (address.toNat < kernelAreaMem) &&
      decide (size ≤ kernelAreaMem - address.toNat) && mapped address.toNat size)

variable (memory : ByteMemory) (address : UInt64)

def signalCopyToUser (bytes : List UInt8) : Option ByteMemory :=
  if userRangeMapped mapped address bytes.length then some (memory.write address.toNat bytes) else none

def signalCopyFromUser (size : Nat) : Option (List UInt8) :=
  if userRangeMapped mapped address size then some (memory.read address.toNat size) else none

end

namespace Thread

def signalSetmask (thread : Thread) (how : UInt32) (nset : Option UInt64) : Except UInt64 Thread :=
  match nset with
  | none => .ok thread
  | some set =>
    let safe := set &&& ~~~unblockable
    if how = 0 then .ok { thread with blocked := thread.blocked ||| safe }
    else if how = 1 then .ok { thread with blocked := thread.blocked &&& ~~~safe }
    else if how = 2 then .ok { thread with blocked := safe }
    else .error einval

section

variable (mapped : Nat → Nat → Bool) (thread : Thread)

/-- `rt_sigprocmask` -/
def syscallSsetmask (how : UInt32) (nset oset : UInt64) : Thread × UInt64 :=
  let newset :=
    if nset = 0 then some none
    else (signalCopyFromUser mapped thread.memory nset 8).map fun bytes =>
      some (UInt64.ofNat (decodeLE bytes))
  match newset with
  | none => (thread, efault)
  | some newset =>
    match thread.signalSetmask how newset with
    | .error code => (thread, code)
    | .ok changed =>
      if oset = 0 then (changed, 0)
      else
        match signalCopyToUser mapped thread.memory oset (encodeWords [thread.blocked]) with
        | none => (changed, efault)
        | some memory => ({ changed with memory }, 0)

def setAction (sig : Nat) (action : Sigaction) : Thread :=
  { thread with actions := Function.update thread.actions sig action }

/-- The end of `syscall_sig_action`: a handler runs with its own signal blocked, unless it
asks not to. -/
def adjustAction (sig : Nat) (action : Sigaction) : Sigaction :=
  if action.saFlags &&& sigNomask ≠ 0 then { action with saMask := 0 }
  else { action with saMask := action.saMask ||| sigmask sig }

/-- `rt_sigaction` -/
def syscallSigAction (sig : UInt32) (action oldaction sigsetsize : UInt64) : Thread × UInt64 :=
  let sig := sig.toNat
  if sigsetsize < 8 then (thread, einval)
  else if sig < 1 ∨ sig > maxsig ∨ sig = sigkill ∨ sig = sigstop then (thread, einval)
  else
    let told :=
      if oldaction = 0 then some thread.memory
      else signalCopyToUser mapped thread.memory oldaction (encodeWords (thread.actions sig).words)
    match told with
    | none => (thread, efault)
    | some memory =>
      let thread := { thread with memory }
      if action = 0 then (thread.setAction sig (adjustAction sig (thread.actions sig)), 0)
      else
        match signalCopyFromUser mapped thread.memory action 32 with
        | none => (thread, efault)
        | some bytes =>
          (thread.setAction sig (adjustAction sig (.ofWords (decodeWords 4 bytes))), 0)

/-- `sigaltstack`; the padding behind `ss_flags` is zero. -/
def syscallSigaltstack (ss oldSs : UInt64) : Thread × UInt64 :=
  let told :=
    if oldSs = 0 then some thread.memory
    else signalCopyToUser mapped thread.memory oldSs
      (encodeWords [thread.sasSsSp, thread.sasSsFlags.toUInt64, thread.sasSsSize])
  match told with
  | none => (thread, efault)
  | some memory =>
    let thread := { thread with memory }
    if ss = 0 then (thread, 0)
    else
      match (signalCopyFromUser mapped thread.memory ss 24).map (decodeWords 3) with
      | some [sp, flags, size] =>
        let flags := flags.toUInt32
        if flags &&& ~~~ssDisable ≠ 0 then (thread, einval)
        else if flags &&& ssDisable ≠ 0 then
          ({ thread with sasSsSp := 0, sasSsSize := 0, sasSsFlags := ssDisable }, 0)
        else if size < minsigstksz then (thread, enomem)
        else ({ thread with sasSsSp := sp, sasSsSize := size, sasSsFlags := 0 }, 0)
      | _ => (thread, efault)

end

def findDeliverableSignal (thread : Thread) : Option Nat :=
  (List.range' 1 maxsig).find? fun sig => thread.signal &&& ~~~thread.blocked &&& sigmask sig ≠ 0

end Thread

inductive Decision
  | core
  | term
  | ign
  | stop
  | cont
  deriving DecidableEq, Repr

def signalInternalDecisions : Nat → Decision
  | 17 | 23 | 28 => .ign
  | 18 => .cont
  | 19 | 20 | 21 | 22 => .stop
  | 1 | 2 | 9 | 10 | 12 | 13 | 14 | 15 | 16 | 26 | 27 | 29 | 30 => .term
  | _ => .core

namespace Thread

section

variable (thread : Thread)

section

variable (action : Sigaction)

/-- The handler of a signal runs on the alternate stack, and the thread is not on it already. -/
def useAltstack : Bool :=
  decide (action.saFlags &&& saOnstack ≠ 0) && decide (thread.sasSsFlags &&& ssDisable = 0) &&
    decide (thread.sasSsFlags &&& ssOnstack = 0)

/-- The end of the stack on which the frame is put. -/
def frameTop : UInt64 :=
  if thread.useAltstack action then thread.sasSsSp + thread.sasSsSize else thread.regs.rsp

def frameAddr : UInt64 := (thread.frameTop action - 216) &&& ~~~0xF

def retAddr : UInt64 := thread.frameAddr action - 8

end

variable (sig : Nat)

/-- The frame that is written for a signal. -/
def frame : SignalFrame := ⟨signalFrameMagic, UInt64.ofNat sig, thread.blocked, thread.regs⟩

/-- The frame or the return address could not be written: the signal is pending again. -/
def failDelivery : Thread :=
  { thread with signal := thread.signal ||| sigmask sig }

/-- The handler takes over. -/
def startHandler (action : Sigaction) (address : UInt64) (memory : ByteMemory)
    (alternate : Bool) : Thread :=
  { thread with
    memory
    blocked := (thread.blocked ||| (action.saMask ||| sigmask sig)) &&& ~~~unblockable
    actions :=
      if action.saFlags &&& sigOneshot ≠ 0 then
        Function.update thread.actions sig { action with saHandler := sigDfl }
      else thread.actions
    regs :=
      { thread.regs with
        rip := action.saHandler, rsp := address - 8, rdi := UInt64.ofNat sig, rsi := 0, rdx := 0 }
    live := ⟨address.toNat, thread.frame sig, alternate⟩ :: thread.live
    delivered := thread.frame sig :: thread.delivered }

end

section

variable (mapped : Nat → Nat → Bool) (thread : Thread)

/-- The part of `signal_deliver_pending` that writes the frame. -/
def pushFrame (sig : Nat) (action : Sigaction) : Thread × Bool :=
  let onAlternate := thread.useAltstack action
  let address := thread.frameAddr action
  let marked : Thread :=
    if onAlternate then { thread with sasSsFlags := thread.sasSsFlags ||| ssOnstack } else thread
  match signalCopyToUser mapped thread.memory address (thread.frame sig).bytes with
  | none => (marked.failDelivery sig, false)
  | some memory =>
    match signalCopyToUser mapped memory (address - 8) (encodeWords [action.saRestorer]) with
    | none => ({ marked with memory }.failDelivery sig, false)
    | some memory =>
      (marked.startHandler sig action address memory
        (onAlternate || thread.live.head?.any (·.alternate)), true)

def signalDeliverPending : Thread × Bool :=
  if thread.regs.cs &&& 3 ≠ 3 then (thread, false)
  else
    match thread.findDeliverableSignal with
    | none => (thread, false)
    | some sig =>
      let action := thread.actions sig
      let thread := { thread with signal := thread.signal &&& ~~~sigmask sig }
      if action.saHandler = sigIgn then (thread, false)
      else if action.saHandler = sigDfl then
        match signalInternalDecisions sig with
        | .ign | .cont => (thread, false)
        | .stop => ({ thread with stopped := true }, false)
        | .core | .term => ({ thread with killed := some (128 + sig) }, false)
      else if action.saRestorer = 0 then (thread.failDelivery sig, false)
      else thread.pushFrame mapped sig action

def signalReturn : Thread × UInt64 :=
  match signalCopyFromUser mapped thread.memory thread.regs.rsp sizeofFrame with
  | none => (thread, efault)
  | some bytes =>
    let frame := SignalFrame.ofBytes bytes
    if frame.magic ≠ signalFrameMagic then (thread, einval)
    else
      ({ thread with
          blocked := frame.oldmask &&& ~~~unblockable
          sasSsFlags := thread.sasSsFlags &&& ~~~ssOnstack
          regs := frame.regs
          live := thread.live.tail },
        frame.regs.rax)

end

/-- The `syscall` instruction, and the registers as `c_syscall_handler` completes them. -/
def enter (regs : X64Regs) : X64Regs :=
  let regs := { regs with rcx := regs.rip, r11 := regs.rflags }
  { regs with rip := regs.rcx, cs := selectorUserCs, rflags := regs.r11, ss := selectorUserDs }

variable (mapped : Nat → Nat → Bool) (other : UInt64) (memory : ByteMemory) (thread : Thread)

/-- The system calls on signals, by their numbers; `other` and `memory` are what any other
system call returns and leaves in memory. -/
def systemCall : Thread × UInt64 :=
  let regs := thread.regs
  if regs.rax = 13 then thread.syscallSigAction mapped regs.rdi.toUInt32 regs.rsi regs.rdx regs.r10
  else if regs.rax = 14 then thread.syscallSsetmask mapped regs.rdi.toUInt32 regs.rsi regs.rdx
  else if regs.rax = 15 then thread.signalReturn mapped
  else if regs.rax = 131 then thread.syscallSigaltstack mapped regs.rdi regs.rsi
  else ({ thread with memory }, other)

def setRax (rax : UInt64) : Thread :=
  { thread with regs := { thread.regs with rax } }

/-- The bits of the flags that `sysret` loads. -/
def sysretFlags : UInt64 := 0x3c7fd7

def retFromSyscall (regs : X64Regs) : X64Regs :=
  { regs with
    rcx := regs.rip, r11 := regs.rflags, rflags := regs.rflags &&& sysretFlags ||| 2
    cs := selectorUserCs, ss := selectorUserDs }

def entered : Thread := { thread with regs := enter thread.regs }

/-- The thread in the kernel, before a signal is delivered. -/
def called : Thread :=
  let result := thread.entered.systemCall mapped other memory
  result.1.setRax result.2

/-- The thread in the kernel, with the registers that are handed back. -/
def handed : Thread := ((thread.called mapped other memory).signalDeliverPending mapped).1

end Thread

inductive Action
  /-- The user program runs, up to its next system call. -/
  | user (regs : X64Regs) (memory : ByteMemory)
  /-- `signal_send_process` -/
  | send (sig : Nat)
  | syscall (mapped : Nat → Nat → Bool) (other : UInt64) (memory : ByteMemory)

/-- A thread that was killed does not run. -/
def Thread.step (thread : Thread) : Action → Thread
  | .user regs memory => if thread.killed.isSome then thread else { thread with regs, memory }
  | .send sig =>
    if sig < 1 ∨ sig > maxsig then thread else { thread with signal := thread.signal ||| sigmask sig }
  | .syscall mapped other memory =>
    if thread.killed.isSome then thread
    else
      let thread := thread.handed mapped other memory
      { thread with regs := Thread.retFromSyscall thread.regs }

end OpenXJ380.Signal
