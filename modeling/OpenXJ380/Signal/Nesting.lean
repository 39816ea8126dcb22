/-
# Nested signal handlers

A handler may be interrupted by further signals. The frames of the handlers that have not
returned stay apart from each other and unchanged, each return gives back the registers and
the mask that its own delivery has saved, and the alternate stack is marked as in use exactly
while a handler runs on it, as long as the user program keeps to its stacks, does not move the
alternate stack while a handler is on it, and no handler returns to another one on the
alternate stack. The last condition and the one that writing to the alternate stack succeeds
are needed because of how the kernel keeps its mark: it is set before the frame is written,
and every return takes it away.
-/

import OpenXJ380.Signal.Model

namespace OpenXJ380.Signal

open Data Data.ByteMemory Protocol

theorem and_not_and_self (x u : UInt64) : x &&& ~~~u &&& u = 0 := by
  rw [← UInt64.toBitVec_inj]
  ext i hi
  simp

variable {x u : UInt64}

theorem and_not_eq_self (h : x &&& u = 0) : x &&& ~~~u = x := by
  rw [← UInt64.toBitVec_inj] at h ⊢
  ext i hi
  have hbit := congrArg (fun word : BitVec 64 => word[i]) h
  simpa using hbit

theorem or_and_distrib (x y u : UInt64) : (x ||| y) &&& u = x &&& u ||| y &&& u := by
  rw [← UInt64.toBitVec_inj]
  ext i hi
  simp [Bool.and_or_distrib_right]

theorem or_and_eq_zero {y : UInt64} (hx : x &&& u = 0) (hy : y &&& u = 0) :
    (x ||| y) &&& u = 0 := by
  rw [or_and_distrib, hx, hy, UInt64.or_zero]

theorem and_and_eq_zero (y : UInt64) (h : x &&& u = 0) : x &&& y &&& u = 0 := by
  rw [UInt64.and_assoc, UInt64.and_comm y, ← UInt64.and_assoc, h, UInt64.zero_and]

theorem or_onstack (flags : UInt32) : (flags ||| ssOnstack) &&& ssOnstack ≠ 0 := by
  rw [Ne, ← UInt32.toBitVec_inj]
  intro h
  have hbit := congrArg (fun word : BitVec 32 => word[0]) h
  simp [ssOnstack] at hbit

theorem and_not_onstack (flags : UInt32) : flags &&& ~~~ssOnstack &&& ssOnstack = 0 := by
  rw [← UInt32.toBitVec_inj]
  ext i hi
  simp

theorem SignalFrame.length_bytes (frame : SignalFrame) : frame.bytes.length = sizeofFrame := by
  rw [SignalFrame.bytes, length_encodeWords]
  rfl

theorem SignalFrame.ofBytes_bytes (frame : SignalFrame) : SignalFrame.ofBytes frame.bytes = frame := by
  have hwords := decodeWords_encodeWords frame.words
  rw [show frame.words.length = 27 from rfl] at hwords
  rw [SignalFrame.ofBytes, SignalFrame.bytes, hwords]
  rfl

/-- A frame, the bytes in front of it up to its alignment, and the return address. -/
def room : Nat := 240

theorem toNat_and_not_fifteen (x : UInt64) : (x &&& ~~~(0xF : UInt64)).toNat = x.toNat / 16 * 16 := by
  have hbits := and_high_bits (w := 64) (k := 4) x.toNat_lt (by decide)
  exact hbits

variable {top : UInt64}

theorem toNat_frame (htop : room ≤ top.toNat) :
    ((top - 216) &&& ~~~(0xF : UInt64)).toNat = (top.toNat - 216) / 16 * 16 := by
  have hsub : (top - 216).toNat = top.toNat - 216 := by
    rw [UInt64.toNat_sub_of_le]
    · rfl
    · exact Nat.le_trans (by decide) htop
  rw [toNat_and_not_fifteen, hsub]

/-- The frame and the return address lie below the top, within the room for them. -/
theorem frame_bounds (htop : room ≤ top.toNat) :
    let address := (top - 216) &&& ~~~(0xF : UInt64)
    (address - 8).toNat + 8 = address.toNat ∧ top.toNat ≤ (address - 8).toNat + room ∧
      address.toNat + sizeofFrame ≤ top.toNat := by
  intro address
  have haddress : address.toNat = (top.toNat - 216) / 16 * 16 := toNat_frame htop
  have htop : 240 ≤ top.toNat := htop
  have hlarge : 8 ≤ address.toNat := by omega
  have hret : (address - 8).toNat = address.toNat - 8 := by
    rw [UInt64.toNat_sub_of_le]
    · rfl
    · exact hlarge
  unfold sizeofFrame room
  omega

namespace Thread

variable {lo hi : Nat} {mapped : Nat → Nat → Bool} {other : UInt64} {memory : ByteMemory}
  {thread thread' : Thread}

/-- The signal for which a frame is to be written. -/
def handlerDue (thread : Thread) : Option Nat :=
  if thread.regs.cs &&& 3 ≠ 3 then none
  else thread.findDeliverableSignal.filter fun sig =>
    (thread.actions sig).saHandler ≠ sigIgn ∧ (thread.actions sig).saHandler ≠ sigDfl ∧
      (thread.actions sig).saRestorer ≠ 0

/-- The thread with a signal taken from the pending ones. -/
def taken (thread : Thread) (sig : Nat) : Thread :=
  { thread with signal := thread.signal &&& ~~~sigmask sig }

section

variable (mapped : Nat → Nat → Bool) (thread : Thread)

/-- Either no frame is written and only the pending signals and the state of the task change,
or a frame is written for the signal that is due. -/
theorem deliver_cases : (thread.handlerDue = none ∧ ∃ signal stopped killed,
      thread.signalDeliverPending mapped = ({ thread with signal, stopped, killed }, false)) ∨
    ∃ sig, thread.handlerDue = some sig ∧
      thread.signalDeliverPending mapped = (thread.taken sig).pushFrame mapped sig (thread.actions sig) := by
  unfold handlerDue signalDeliverPending
  split
  · exact .inl ⟨rfl, thread.signal, thread.stopped, thread.killed, rfl⟩
  cases hfound : thread.findDeliverableSignal with
  | none => exact .inl ⟨rfl, thread.signal, thread.stopped, thread.killed, rfl⟩
  | some sig =>
    by_cases hdue : (thread.actions sig).saHandler ≠ sigIgn ∧ (thread.actions sig).saHandler ≠ sigDfl ∧
        (thread.actions sig).saRestorer ≠ 0
    · refine .inr ⟨sig, by simp [hdue], ?_⟩
      simp only [hdue.1, hdue.2.1, hdue.2.2]
      rfl
    · refine .inl ⟨by simpa using hdue, ?_⟩
      simp only
      split
      · exact ⟨_, thread.stopped, thread.killed, rfl⟩
      next hign =>
        split
        · split <;> exact ⟨_, _, _, rfl⟩
        next hdfl =>
          split
          · exact ⟨_, thread.stopped, thread.killed, rfl⟩
          next hrestorer => exact absurd ⟨hign, hdfl, hrestorer⟩ hdue

/-- The mark on the alternate stack as it is set before the frame is written. -/
def markedFlags (action : Sigaction) : UInt32 :=
  if thread.useAltstack action then thread.sasSsFlags ||| ssOnstack else thread.sasSsFlags

variable (sig : Nat) (action : Sigaction)

/-- The frame and the return address fall into mapped memory of the user. -/
def frameMapped : Bool :=
  userRangeMapped mapped (thread.frameAddr action) sizeofFrame && userRangeMapped mapped (thread.retAddr action) 8

/-- Memory with the frame and the return address. -/
def framed : ByteMemory :=
  (thread.memory.write (thread.frameAddr action).toNat (thread.frame sig).bytes).write
    (thread.retAddr action).toNat (encodeWords [action.saRestorer])

theorem pushFrame_cases : (thread.frameMapped mapped action = false ∧ ∃ memory signal,
      (memory = thread.memory ∨
        memory = thread.memory.write (thread.frameAddr action).toNat (thread.frame sig).bytes) ∧
      thread.pushFrame mapped sig action =
        ({ thread with memory, signal, sasSsFlags := thread.markedFlags action }, false)) ∨
    userRangeMapped mapped (thread.frameAddr action) sizeofFrame ∧
      thread.pushFrame mapped sig action =
        ({ thread with sasSsFlags := thread.markedFlags action }.startHandler sig action
          (thread.frameAddr action) (thread.framed sig action)
          (thread.useAltstack action || thread.live.head?.any Frame.alternate), true) := by
  have hmarked : (if thread.useAltstack action then
      { thread with sasSsFlags := thread.sasSsFlags ||| ssOnstack } else thread) =
      { thread with sasSsFlags := thread.markedFlags action } := by
    unfold markedFlags
    split <;> rfl
  unfold pushFrame
  simp only [hmarked]
  unfold signalCopyToUser frameMapped retAddr
  rw [SignalFrame.length_bytes, length_encodeWords, List.length_singleton, Nat.mul_one]
  by_cases hframe : userRangeMapped mapped (thread.frameAddr action) sizeofFrame
  · simp only [hframe]
    by_cases hret : userRangeMapped mapped (thread.frameAddr action - 8) 8
    · simp only [hret]
      exact .inr ⟨trivial, rfl⟩
    · simp only [hret]
      exact .inl ⟨rfl, _, _, .inr rfl, rfl⟩
  · simp only [hframe]
    exact .inl ⟨rfl, _, _, .inl rfl, rfl⟩

end

/-- The interrupted program is on the stack of the innermost handler, or on the main stack if
there is none, with room for a frame below and the frames of that stack above. -/
def OnStack (lo hi : Nat) (thread : Thread) : Prop :=
  let rsp := thread.regs.rsp.toNat
  if thread.live.head?.any Frame.alternate then
    thread.sasSsSp.toNat + room ≤ rsp ∧ rsp ≤ thread.sasSsSp.toNat + thread.sasSsSize.toNat ∧
      ∀ frame ∈ thread.live, frame.alternate → rsp ≤ frame.address
  else
    lo + room ≤ rsp ∧ rsp ≤ hi ∧ ∀ frame ∈ thread.live, frame.alternate = false → rsp ≤ frame.address

/-- The alternate stack is apart from the main stack. -/
def StacksApart (lo hi : Nat) (thread : Thread) : Prop :=
  thread.sasSsSp.toNat + thread.sasSsSize.toNat < 2 ^ 64 ∧
    Apart thread.sasSsSp.toNat thread.sasSsSize.toNat lo (hi - lo)

/-- The user program does not change the frames of handlers that have not returned. -/
def FramesKept (thread : Thread) (memory : ByteMemory) : Prop :=
  ∀ frame ∈ thread.live, memory.read frame.address sizeofFrame = thread.memory.read frame.address sizeofFrame

/-- The frame of a signal falls into mapped memory on the alternate stack, or finds room on the
stack of the interrupted program. -/
def Roomy (lo hi : Nat) (mapped : Nat → Nat → Bool) (thread : Thread) (sig : Nat) : Prop :=
  (thread.useAltstack (thread.actions sig) → thread.frameMapped mapped (thread.actions sig)) ∧
    (thread.useAltstack (thread.actions sig) = false → OnStack lo hi thread)

/-- A proper system call of a thread whose main stack is between two addresses. -/
structure ProperCall (lo hi : Nat) (mapped : Nat → Nat → Bool) (other : UInt64) (memory : ByteMemory)
    (thread : Thread) : Prop where
  kept : thread.FramesKept (thread.called mapped other memory).memory
  /-- A handler returns with its own frame, and not to another handler on the alternate stack. -/
  returns : thread.regs.rax = 15 → ∃ frame rest, thread.live = frame :: rest ∧
    thread.regs.rsp.toNat = frame.address ∧ ∀ outer ∈ rest, outer.alternate = false
  /-- The alternate stack is not moved while a handler is on it, nor over the main stack. -/
  altstack : thread.regs.rax = 131 → thread.regs.rdi ≠ 0 →
    (∀ frame ∈ thread.live, frame.alternate = false) ∧ StacksApart lo hi (thread.called mapped other memory)
  delivery : ∀ sig, (thread.called mapped other memory).handlerDue = some sig →
    Roomy lo hi mapped (thread.called mapped other memory) sig

/-- The user program keeps to its stacks. -/
def Proper (lo hi : Nat) (thread : Thread) : Action → Prop
  | .user _ memory => thread.FramesKept memory
  | .send _ => True
  | .syscall mapped other memory => ProperCall lo hi mapped other memory thread

/-- A thread that has not run a handler. -/
structure Fresh (thread : Thread) : Prop where
  live : thread.live = []
  blocked : thread.blocked &&& unblockable = 0
  sp : thread.sasSsSp = 0
  size : thread.sasSsSize = 0
  flags : thread.sasSsFlags &&& ssOnstack = 0

structure Nested (lo hi : Nat) (thread : Thread) : Prop where
  blocked : thread.blocked &&& unblockable = 0
  intact : ∀ frame ∈ thread.live, frame.content.magic = signalFrameMagic ∧
    frame.content.oldmask &&& unblockable = 0 ∧
      thread.memory.read frame.address sizeofFrame = frame.content.bytes
  mark : thread.sasSsFlags &&& ssOnstack ≠ 0 ↔ ∃ frame ∈ thread.live, frame.alternate
  main : ∀ frame ∈ thread.live, frame.alternate = false → lo ≤ frame.address ∧
    frame.address + sizeofFrame ≤ hi
  alternate : ∀ frame ∈ thread.live, frame.alternate → thread.sasSsSp.toNat ≤ frame.address ∧
    frame.address + sizeofFrame ≤ thread.sasSsSp.toNat + thread.sasSsSize.toNat
  area : thread.sasSsSp = 0 ∧ thread.sasSsSize = 0 ∨
    minsigstksz.toNat ≤ thread.sasSsSize.toNat ∧ StacksApart lo hi thread

theorem Fresh.nested (h : thread.Fresh) : thread.Nested lo hi where
  blocked := h.blocked
  intact := by simp [h.live]
  mark := by simp [h.live, h.flags]
  main := by simp [h.live]
  alternate := by simp [h.live]
  area := .inl ⟨h.sp, h.size⟩

/-- Changes that leave the frames, the mask and the alternate stack. -/
theorem Nested.same (h : thread.Nested lo hi) (hlive : thread'.live = thread.live)
    (hblocked : thread'.blocked &&& unblockable = 0) (hflags : thread'.sasSsFlags = thread.sasSsFlags)
    (hsp : thread'.sasSsSp = thread.sasSsSp) (hsize : thread'.sasSsSize = thread.sasSsSize)
    (hmemory : thread.FramesKept thread'.memory) : thread'.Nested lo hi where
  blocked := hblocked
  intact frame hframe := by
    rw [hlive] at hframe
    rw [hmemory frame hframe]
    exact h.intact frame hframe
  mark := by
    rw [hflags, hlive]
    exact h.mark
  main := by
    rw [hlive]
    exact h.main
  alternate := by
    rw [hlive, hsp, hsize]
    exact h.alternate
  area := by
    unfold StacksApart
    rw [hsp, hsize]
    exact h.area

theorem FramesKept.refl (thread : Thread) : thread.FramesKept thread.memory := fun _ _ => rfl

variable {how : UInt32} {nset : Option UInt64} {frame : Frame} {rest : List Frame} {sig : Nat}

/-- A new mask leaves out what cannot be blocked, and nothing else changes. -/
theorem signalSetmask_spec (hset : thread.signalSetmask how nset = .ok thread') :
    ∃ blocked, thread' = { thread with blocked } ∧
      (thread.blocked &&& unblockable = 0 → blocked &&& unblockable = 0) := by
  unfold signalSetmask at hset
  split at hset
  · exact ⟨_, (Except.ok.inj hset).symm, id⟩
  split at hset
  · exact ⟨_, (Except.ok.inj hset).symm, fun h => or_and_eq_zero h (and_not_and_self _ _)⟩
  split at hset
  · exact ⟨_, (Except.ok.inj hset).symm, and_and_eq_zero _⟩
  split at hset
  · exact ⟨_, (Except.ok.inj hset).symm, fun _ => and_not_and_self _ _⟩
  · cases hset

theorem syscallSsetmask_spec (how : UInt32) (nset oset : UInt64) :
    ∃ blocked memory, (thread.syscallSsetmask mapped how nset oset).1 = { thread with blocked, memory } ∧
      (thread.blocked &&& unblockable = 0 → blocked &&& unblockable = 0) := by
  unfold syscallSsetmask
  simp only
  split
  · exact ⟨_, _, rfl, id⟩
  split
  · exact ⟨_, _, rfl, id⟩
  next hset =>
    obtain ⟨blocked, rfl, hblocked⟩ := signalSetmask_spec hset
    repeat' split
    all_goals exact ⟨_, _, rfl, hblocked⟩

theorem syscallSigAction_spec (sig : UInt32) (action oldaction sigsetsize : UInt64) :
    ∃ actions memory, (thread.syscallSigAction mapped sig action oldaction sigsetsize).1 =
      { thread with actions, memory } := by
  unfold syscallSigAction
  simp only
  repeat' split
  all_goals exact ⟨_, _, rfl⟩

/-- The live frames and the alternate stack stay. -/
structure SameStacks (thread thread' : Thread) : Prop where
  live : thread'.live = thread.live
  flags : thread'.sasSsFlags = thread.sasSsFlags
  sp : thread'.sasSsSp = thread.sasSsSp
  size : thread'.sasSsSize = thread.sasSsSize

/-- The registers stay, and no frame is written. -/
structure SameImage (thread thread' : Thread) : Prop where
  regs : thread'.regs = thread.regs
  delivered : thread'.delivered = thread.delivered

/-- `sigaltstack` leaves the alternate stack as it is, removes it, or sets a new one that is
not in use. -/
theorem syscallSigaltstack_spec (ss oldSs : UInt64) :
    let result := (thread.syscallSigaltstack mapped ss oldSs).1
    SameImage thread result ∧ (result.live = thread.live ∧ result.blocked = thread.blocked) ∧
      (SameStacks thread result ∨ ss ≠ 0 ∧ result.sasSsFlags &&& ssOnstack = 0 ∧
        (result.sasSsSp = 0 ∧ result.sasSsSize = 0 ∨ minsigstksz.toNat ≤ result.sasSsSize.toNat)) := by
  unfold syscallSigaltstack
  simp only
  split
  · exact ⟨⟨rfl, rfl⟩, ⟨rfl, rfl⟩, .inl ⟨rfl, rfl, rfl, rfl⟩⟩
  split
  · exact ⟨⟨rfl, rfl⟩, ⟨rfl, rfl⟩, .inl ⟨rfl, rfl, rfl, rfl⟩⟩
  next hss =>
    split
    · split
      · exact ⟨⟨rfl, rfl⟩, ⟨rfl, rfl⟩, .inl ⟨rfl, rfl, rfl, rfl⟩⟩
      split
      · exact ⟨⟨rfl, rfl⟩, ⟨rfl, rfl⟩,
          .inr ⟨hss, (by decide : ssDisable &&& ssOnstack = 0), .inl ⟨rfl, rfl⟩⟩⟩
      split
      · exact ⟨⟨rfl, rfl⟩, ⟨rfl, rfl⟩, .inl ⟨rfl, rfl, rfl, rfl⟩⟩
      next hsize =>
        refine ⟨⟨rfl, rfl⟩, ⟨rfl, rfl⟩, .inr ⟨hss, UInt32.zero_and, .inr ?_⟩⟩
        exact Nat.not_lt.mp hsize
    · exact ⟨⟨rfl, rfl⟩, ⟨rfl, rfl⟩, .inl ⟨rfl, rfl, rfl, rfl⟩⟩

section

variable (h : thread.Nested lo hi)
include h

/-- A handler that returns with its frame gets back what was saved in it. -/
theorem Nested.signalReturn (hlive : thread.live = frame :: rest)
    (hrsp : thread.regs.rsp.toNat = frame.address) :
    signalCopyFromUser mapped thread.memory thread.regs.rsp sizeofFrame = none ∧
        thread.signalReturn mapped = (thread, efault) ∨
      thread.signalReturn mapped =
        ({ thread with
            blocked := frame.content.oldmask
            sasSsFlags := thread.sasSsFlags &&& ~~~ssOnstack
            regs := frame.content.regs
            live := rest },
          frame.content.regs.rax) := by
  obtain ⟨hmagic, hmask, hbytes⟩ := h.intact frame (by simp [hlive])
  unfold Thread.signalReturn
  cases hcopy : signalCopyFromUser mapped thread.memory thread.regs.rsp sizeofFrame with
  | none => exact .inl ⟨rfl, rfl⟩
  | some bytes =>
    refine .inr ?_
    have hread : bytes = frame.content.bytes := by
      unfold signalCopyFromUser at hcopy
      split at hcopy
      · rw [← Option.some.inj hcopy, hrsp, hbytes]
      · cases hcopy
    simp only [hread, SignalFrame.ofBytes_bytes, hmagic, ne_eq, not_true_eq_false, if_false,
      and_not_eq_self hmask, hlive, List.tail_cons]

theorem Nested.pop (hlive : thread.live = frame :: rest)
    (hrest : ∀ outer ∈ rest, outer.alternate = false) (hmemory : thread'.memory = thread.memory)
    (hblocked : thread'.blocked = frame.content.oldmask)
    (hflags : thread'.sasSsFlags = thread.sasSsFlags &&& ~~~ssOnstack)
    (hlive' : thread'.live = rest) (hsp : thread'.sasSsSp = thread.sasSsSp)
    (hsize : thread'.sasSsSize = thread.sasSsSize) :
    thread'.Nested lo hi := by
  have hmem : ∀ outer ∈ rest, outer ∈ thread.live := by simp +contextual [hlive]
  constructor
  · rw [hblocked]
    exact (h.intact frame (by simp [hlive])).2.1
  · intro outer houter
    rw [hlive'] at houter
    rw [hmemory]
    exact h.intact outer (hmem outer houter)
  · rw [hflags, hlive', and_not_onstack]
    simpa using hrest
  · intro outer houter
    rw [hlive'] at houter
    exact h.main outer (hmem outer houter)
  · intro outer houter
    rw [hlive'] at houter
    rw [hsp, hsize]
    exact h.alternate outer (hmem outer houter)
  · unfold StacksApart
    rw [hsp, hsize]
    exact h.area

theorem Nested.moveStack (hfree : ∀ frame ∈ thread.live, frame.alternate = false)
    (hlive : thread'.live = thread.live) (hblocked : thread'.blocked = thread.blocked)
    (hmemory : thread.FramesKept thread'.memory) (hflags : thread'.sasSsFlags &&& ssOnstack = 0)
    (harea : thread'.sasSsSp = 0 ∧ thread'.sasSsSize = 0 ∨ minsigstksz.toNat ≤ thread'.sasSsSize.toNat)
    (hapart : StacksApart lo hi thread') : thread'.Nested lo hi where
  blocked := by
    rw [hblocked]
    exact h.blocked
  intact frame hframe := by
    rw [hlive] at hframe
    rw [hmemory frame hframe]
    exact h.intact frame hframe
  mark := by
    rw [hlive, hflags]
    simpa using hfree
  main := by
    rw [hlive]
    exact h.main
  alternate frame hframe hon := by
    rw [hlive] at hframe
    rw [hfree frame hframe] at hon
    cases hon
  area := harea.imp_right fun hsize => ⟨hsize, hapart⟩

end

/-- The system call is one of those on signals, or it changes memory only. -/
theorem systemCall_cases (mapped : Nat → Nat → Bool) (other : UInt64) (memory : ByteMemory) (thread : Thread) :
    (∃ sig action oldaction size, thread.systemCall mapped other memory =
      thread.syscallSigAction mapped sig action oldaction size) ∨
    (∃ how nset oset, thread.systemCall mapped other memory = thread.syscallSsetmask mapped how nset oset) ∨
    (thread.regs.rax = 15 ∧ thread.systemCall mapped other memory = thread.signalReturn mapped) ∨
    (thread.regs.rax = 131 ∧ thread.systemCall mapped other memory =
      thread.syscallSigaltstack mapped thread.regs.rdi thread.regs.rsi) ∨
    thread.systemCall mapped other memory = ({ thread with memory }, other) := by
  unfold systemCall
  simp only
  split
  · exact .inl ⟨_, _, _, _, rfl⟩
  split
  · exact .inr (.inl ⟨_, _, _, rfl⟩)
  split
  next hreturn => exact .inr (.inr (.inl ⟨hreturn, rfl⟩))
  split
  next hstack => exact .inr (.inr (.inr (.inl ⟨hstack, rfl⟩)))
  · exact .inr (.inr (.inr (.inr rfl)))

theorem Nested.systemCall (h : thread.Nested lo hi)
    (hkept : thread.FramesKept (thread.systemCall mapped other memory).1.memory)
    (hreturns : thread.regs.rax = 15 → ∃ frame rest, thread.live = frame :: rest ∧
      thread.regs.rsp.toNat = frame.address ∧ ∀ outer ∈ rest, outer.alternate = false)
    (haltstack : thread.regs.rax = 131 → thread.regs.rdi ≠ 0 →
      (∀ frame ∈ thread.live, frame.alternate = false) ∧
        StacksApart lo hi (thread.systemCall mapped other memory).1) :
    (thread.systemCall mapped other memory).1.Nested lo hi := by
  rcases systemCall_cases mapped other memory thread with
    ⟨sig, action, oldaction, size, hcall⟩ | ⟨how, nset, oset, hcall⟩ | ⟨hreturn, hcall⟩ | ⟨hstack, hcall⟩ |
      hcall <;>
    rw [hcall] at hkept haltstack ⊢
  · obtain ⟨actions, memory, hthread⟩ := syscallSigAction_spec sig action oldaction size
    rw [hthread] at hkept ⊢
    exact h.same rfl h.blocked rfl rfl rfl hkept
  · obtain ⟨blocked, memory, hthread, hblocked⟩ := syscallSsetmask_spec how nset oset
    rw [hthread] at hkept ⊢
    exact h.same rfl (hblocked h.blocked) rfl rfl rfl hkept
  · obtain ⟨frame, rest, hlive, hrsp, hrest⟩ := hreturns hreturn
    rcases h.signalReturn hlive hrsp with ⟨-, hfailed⟩ | hdone
    · rw [hfailed]
      exact h
    · rw [hdone]
      exact h.pop hlive hrest rfl rfl rfl rfl rfl rfl
  · obtain ⟨-, ⟨hlive, hblocked⟩, hsame | ⟨hset, hflags, harea⟩⟩ := syscallSigaltstack_spec _ _
    · exact h.same hsame.live (hblocked ▸ h.blocked) hsame.flags hsame.sp hsame.size hkept
    · obtain ⟨hfree, hapart⟩ := haltstack hstack hset
      exact h.moveStack hfree hlive hblocked hkept hflags harea hapart
  · exact h.same rfl h.blocked rfl rfl rfl hkept

theorem Nested.called (h : thread.Nested lo hi) (hproper : ProperCall lo hi mapped other memory thread) :
    (thread.called mapped other memory).Nested lo hi := by
  have hentered : thread.entered.Nested lo hi := h.same rfl h.blocked rfl rfl rfl (.refl _)
  have hcall := hentered.systemCall hproper.kept hproper.returns hproper.altstack
  exact hcall.same rfl hcall.blocked rfl rfl rfl (.refl _)

section Placement

variable {action : Sigaction}

theorem useAltstack_unmarked (h : thread.useAltstack action) : thread.sasSsFlags &&& ssOnstack = 0 := by
  simp only [useAltstack, Bool.and_eq_true, decide_eq_true_eq] at h
  exact h.2

/-- Without an alternate stack, no frame can be written to it. -/
theorem unmapped_of_unset (hsp : thread.sasSsSp = 0) (hsize : thread.sasSsSize = 0)
    (halternate : thread.useAltstack action) :
    userRangeMapped mapped (thread.frameAddr action) sizeofFrame = false := by
  have haddress : thread.frameAddr action = 0xffffffffffffff20 := by
    rw [frameAddr, frameTop, if_pos halternate, hsp, hsize]
    rfl
  rw [haddress]
  simp [userRangeMapped, sizeofFrame, kernelAreaMem]

/-- The new frame and the return address, the frames from which they are apart, and the stack
they are on. -/
structure Placed (lo hi : Nat) (thread : Thread) (action : Sigaction) : Prop where
  ret : (thread.retAddr action).toNat + 8 = (thread.frameAddr action).toNat
  apart : ∀ frame ∈ thread.live,
    Apart (thread.retAddr action).toNat (8 + sizeofFrame) frame.address sizeofFrame
  inside : if thread.useAltstack action || thread.live.head?.any Frame.alternate then
      thread.sasSsSp.toNat ≤ (thread.retAddr action).toNat ∧
        (thread.frameAddr action).toNat + sizeofFrame ≤ thread.sasSsSp.toNat + thread.sasSsSize.toNat
    else lo ≤ (thread.retAddr action).toNat ∧ (thread.frameAddr action).toNat + sizeofFrame ≤ hi

theorem Nested.stacksApart (h : thread.Nested lo hi) {frame : Frame} (hframe : frame ∈ thread.live)
    (halternate : frame.alternate) : StacksApart lo hi thread := by
  rcases h.area with ⟨hsp, hsize⟩ | ⟨-, hapart⟩
  · have hinside := (h.alternate frame hframe halternate).2
    rw [hsp, hsize] at hinside
    exact absurd hinside (by simp [sizeofFrame])
  · exact hapart

theorem Nested.placed_alternate (h : thread.Nested lo hi) (halternate : thread.useAltstack action)
    (hmapped : userRangeMapped mapped (thread.frameAddr action) sizeofFrame) : Placed lo hi thread action := by
  have hmain : ∀ frame ∈ thread.live, frame.alternate = false := by
    intro frame hframe
    by_contra hon
    exact h.mark.mpr ⟨frame, hframe, by simpa using hon⟩ (useAltstack_unmarked halternate)
  rcases h.area with ⟨hsp, hsize⟩ | ⟨hsize, hlimit, hapart⟩
  · rw [unmapped_of_unset hsp hsize halternate] at hmapped
    cases hmapped
  have htop : (thread.frameTop action).toNat = thread.sasSsSp.toNat + thread.sasSsSize.toNat := by
    rw [frameTop, if_pos halternate, UInt64.toNat_add]
    exact Nat.mod_eq_of_lt hlimit
  have hsize : 2048 ≤ thread.sasSsSize.toNat := hsize
  have hroom : room ≤ (thread.frameTop action).toNat := by
    unfold room
    omega
  obtain ⟨hret, hlow, hhigh⟩ := frame_bounds hroom
  have hlow : thread.sasSsSp.toNat + 2048 ≤ (thread.retAddr action).toNat + 240 :=
    Nat.le_trans (by omega) hlow
  refine ⟨hret, fun frame hframe => ?_, ?_⟩
  · obtain ⟨hbegin, hend⟩ := h.main frame hframe (hmain frame hframe)
    refine hapart.mono (by omega) ?_ hbegin (by omega)
    rw [← htop, ← Nat.add_assoc]
    exact Nat.le_trans (Nat.add_le_add_right (hret.le) _) hhigh
  · rw [halternate, Bool.true_or, if_pos rfl]
    exact ⟨by omega, htop ▸ hhigh⟩

/-- Without the alternate stack the frame is below the interrupted stack pointer. -/
theorem interrupted_bounds (halternate : thread.useAltstack action = false)
    (hroom : room ≤ thread.regs.rsp.toNat) :
    (thread.retAddr action).toNat + 8 = (thread.frameAddr action).toNat ∧
      thread.regs.rsp.toNat ≤ (thread.retAddr action).toNat + room ∧
        (thread.frameAddr action).toNat + sizeofFrame ≤ thread.regs.rsp.toNat := by
  have htop : thread.frameTop action = thread.regs.rsp := by
    rw [frameTop, halternate]
    exact if_neg (by simp)
  rw [retAddr, frameAddr, htop]
  exact frame_bounds hroom

theorem exists_alternate_of_head (h : thread.live.head?.any Frame.alternate) :
    ∃ frame ∈ thread.live, frame.alternate := by
  cases hhead : thread.live.head? with
  | none => simp [hhead] at h
  | some frame => exact ⟨frame, List.mem_of_head? hhead, by simpa [hhead] using h⟩

theorem Nested.placed_interrupted (h : thread.Nested lo hi) (halternate : thread.useAltstack action = false)
    (hstack : OnStack lo hi thread) : Placed lo hi thread action := by
  unfold OnStack at hstack
  split at hstack
  next hhead =>
    obtain ⟨hlow, hhigh, hbelow⟩ := hstack
    obtain ⟨hret, hlow', hhigh'⟩ := interrupted_bounds halternate (by omega)
    refine ⟨hret, fun frame hframe => ?_, ?_⟩
    · cases hon : frame.alternate with
      | true =>
        have hframe' := hbelow frame hframe hon
        exact .inl (by omega)
      | false =>
        obtain ⟨first, hfirst, hfirstOn⟩ := exists_alternate_of_head hhead
        obtain ⟨hbegin, hend⟩ := h.main frame hframe hon
        exact (h.stacksApart hfirst hfirstOn).2.mono (by omega) (by omega) hbegin (by omega)
    · rw [hhead, Bool.or_true, if_pos rfl]
      exact ⟨by omega, by omega⟩
  next hhead =>
    obtain ⟨hlow, hhigh, hbelow⟩ := hstack
    obtain ⟨hret, hlow', hhigh'⟩ := interrupted_bounds halternate (by omega)
    refine ⟨hret, fun frame hframe => ?_, ?_⟩
    · cases hon : frame.alternate with
      | false =>
        have hframe' := hbelow frame hframe hon
        exact .inl (by omega)
      | true =>
        obtain ⟨hbegin, hend⟩ := h.alternate frame hframe hon
        exact (h.stacksApart hframe hon).2.symm.mono (by omega) (by omega) hbegin (by omega)
    · rw [halternate, Bool.false_or, if_neg hhead]
      exact ⟨by omega, by omega⟩

section

variable (h : Placed lo hi thread action)
include h

variable (sig : Nat)

/-- What a delivery writes does not touch the live frames. -/
theorem Placed.framesKept :
    thread.FramesKept (thread.memory.write (thread.frameAddr action).toNat (thread.frame sig).bytes) := by
  intro frame hframe
  refine read_write_apart ?_
  rw [SignalFrame.length_bytes]
  refine (h.apart frame hframe).mono ?_ ?_ le_rfl le_rfl
  · exact h.ret ▸ Nat.le_add_right _ _
  · rw [← h.ret, Nat.add_assoc]

theorem Placed.framesKept_framed : thread.FramesKept (thread.framed sig action) := by
  intro frame hframe
  rw [framed, read_write_apart]
  · exact h.framesKept sig frame hframe
  · refine (h.apart frame hframe).mono le_rfl ?_ le_rfl le_rfl
    exact Nat.add_le_add_left (Nat.le_add_right _ _) _

theorem Placed.read_framed :
    (thread.framed sig action).read (thread.frameAddr action).toNat sizeofFrame = (thread.frame sig).bytes := by
  rw [framed, read_write_apart, ← SignalFrame.length_bytes (thread.frame sig), read_write_self]
  exact .inl (Nat.le_of_eq h.ret)

end

theorem Nested.push (h : thread.Nested lo hi) (hplaced : Placed lo hi thread action) (sig : Nat) :
    ({ thread with sasSsFlags := thread.markedFlags action }.startHandler sig action (thread.frameAddr action)
      (thread.framed sig action)
      (thread.useAltstack action || thread.live.head?.any Frame.alternate)).Nested lo hi := by
  have hret := hplaced.ret
  have hinside := hplaced.inside
  constructor
  · exact and_not_and_self _ _
  · intro frame hframe
    rcases List.mem_cons.mp hframe with rfl | hframe
    · exact ⟨rfl, h.blocked, hplaced.read_framed sig⟩
    · obtain ⟨hmagic, hmask, hbytes⟩ := h.intact frame hframe
      exact ⟨hmagic, hmask, (hplaced.framesKept_framed sig frame hframe).trans hbytes⟩
  · simp only [startHandler, markedFlags, List.exists_mem_cons_iff]
    cases halternate : thread.useAltstack action with
    | true => simp [or_onstack]
    | false =>
      simp only [Bool.false_eq_true]
      exact ⟨fun hmark => .inr (h.mark.mp hmark),
        fun hon => h.mark.mpr (hon.elim exists_alternate_of_head fun hon => hon)⟩
  · intro frame hframe hmain
    rcases List.mem_cons.mp hframe with rfl | hframe
    · simp only at hmain
      rw [hmain, if_neg (by simp)] at hinside
      exact ⟨Nat.le_trans hinside.1 (hret ▸ Nat.le_add_right _ _), hinside.2⟩
    · exact h.main frame hframe hmain
  · intro frame hframe hon
    rcases List.mem_cons.mp hframe with rfl | hframe
    · simp only at hon
      rw [hon, if_pos rfl] at hinside
      exact ⟨Nat.le_trans hinside.1 (hret ▸ Nat.le_add_right _ _), hinside.2⟩
    · exact h.alternate frame hframe hon
  · exact h.area

end Placement

theorem taken_useAltstack (sig : Nat) (action : Sigaction) :
    (thread.taken sig).useAltstack action = thread.useAltstack action := rfl

section

variable (h : thread.Nested lo hi)
include h

/-- What a delivery does to a thread with room on its stacks. -/
theorem Nested.deliver (hdue : thread.handlerDue = some sig)
    (hroomy : Roomy lo hi mapped thread sig) :
    Placed lo hi thread (thread.actions sig) ∧ ((∃ memory signal, thread.FramesKept memory ∧
          thread.signalDeliverPending mapped = ({ thread with memory, signal }, false)) ∨
        thread.signalDeliverPending mapped =
          ({ thread.taken sig with sasSsFlags := thread.markedFlags (thread.actions sig) }.startHandler sig
            (thread.actions sig) (thread.frameAddr (thread.actions sig)) (thread.framed sig (thread.actions sig))
            (thread.useAltstack (thread.actions sig) || thread.live.head?.any Frame.alternate), true)) := by
  obtain ⟨hnone, -⟩ | ⟨sig', hdue', hdeliver⟩ := deliver_cases mapped thread
  · rw [hdue] at hnone
    cases hnone
  obtain rfl : sig = sig' := Option.some.inj (hdue.symm.trans hdue')
  obtain ⟨halternate, honstack⟩ := hroomy
  rcases pushFrame_cases mapped (thread.taken sig) sig (thread.actions sig) with
    ⟨hunmapped, memory, signal, hmemory, hpush⟩ | ⟨hmapped, hpush⟩
  · have hnot : thread.useAltstack (thread.actions sig) = false := by
      by_contra hon
      have hframe : thread.frameMapped mapped (thread.actions sig) := halternate (by simpa using hon)
      exact absurd (hframe.symm.trans hunmapped) (by simp)
    have hplaced := h.placed_interrupted hnot (honstack hnot)
    refine ⟨hplaced, .inl ⟨memory, signal, ?_, ?_⟩⟩
    · rcases hmemory with rfl | rfl
      · exact .refl thread
      · exact hplaced.framesKept sig
    · rw [hdeliver, hpush, markedFlags, taken_useAltstack, hnot]
      rfl
  · refine ⟨?_, .inr (hdeliver.trans hpush)⟩
    cases hon : thread.useAltstack (thread.actions sig) with
    | true => exact h.placed_alternate hon hmapped
    | false => exact h.placed_interrupted hon (honstack hon)

theorem Nested.signalDeliverPending
    (hroomy : ∀ sig, thread.handlerDue = some sig → Roomy lo hi mapped thread sig) :
    (thread.signalDeliverPending mapped).1.Nested lo hi := by
  obtain ⟨-, signal, stopped, killed, hdeliver⟩ | ⟨sig, hdue, -⟩ := deliver_cases mapped thread
  · rw [hdeliver]
    exact h.same rfl h.blocked rfl rfl rfl (.refl thread)
  obtain ⟨hplaced, ⟨memory, signal, hkept, hdeliver⟩ | hdeliver⟩ := h.deliver hdue (hroomy sig hdue)
  · rw [hdeliver]
    exact h.same rfl h.blocked rfl rfl rfl hkept
  · rw [hdeliver]
    have hpush := h.push hplaced sig
    exact hpush.same rfl hpush.blocked rfl rfl rfl (.refl _)

theorem nested_step (action : Action) (hproper : Proper lo hi thread action) :
    (thread.step action).Nested lo hi := by
  cases action with
  | user regs memory =>
    simp only [step]
    split
    · exact h
    · exact h.same rfl h.blocked rfl rfl rfl hproper
  | send sig =>
    simp only [step]
    split
    · exact h
    · exact h.same rfl h.blocked rfl rfl rfl (.refl thread)
  | syscall mapped other memory =>
    simp only [step]
    split
    · exact h
    · have hhanded := (h.called hproper).signalDeliverPending hproper.delivery
      exact hhanded.same rfl hhanded.blocked rfl rfl rfl (.refl _)

end

theorem nested_run (hfresh : thread.Fresh) {schedule : List Action}
    (hproper : Along step (Proper lo hi) thread schedule) : (run step thread schedule).Nested lo hi :=
  invariant_run step (Nested lo hi) (fun _ action hproper h => nested_step h action hproper) hproper
    hfresh.nested

theorem Nested.delivered (h : thread.Nested lo hi) (hdue : thread.handlerDue = some sig)
    (hroomy : Roomy lo hi mapped thread sig) :
    (∀ frame ∈ thread.live,
      Apart (thread.retAddr (thread.actions sig)).toNat (8 + sizeofFrame) frame.address sizeofFrame) ∧
    ((thread.signalDeliverPending mapped).2 → ∃ address alternate, (thread.signalDeliverPending mapped).1.live =
      ⟨address, ⟨signalFrameMagic, UInt64.ofNat sig, thread.blocked, thread.regs⟩, alternate⟩ ::
        thread.live) ∧
    ((thread.signalDeliverPending mapped).2 = false →
      (thread.signalDeliverPending mapped).1.regs = thread.regs ∧
        (thread.signalDeliverPending mapped).1.blocked = thread.blocked ∧
          SameStacks thread (thread.signalDeliverPending mapped).1) := by
  obtain ⟨hplaced, ⟨memory, signal, -, hdeliver⟩ | hdeliver⟩ := h.deliver hdue hroomy
  · rw [hdeliver]
    exact ⟨hplaced.apart, by simp, fun _ => ⟨rfl, rfl, rfl, rfl, rfl, rfl⟩⟩
  · rw [hdeliver]
    exact ⟨hplaced.apart, fun _ => ⟨_, _, rfl⟩, by simp⟩

theorem systemCall_return (hreturn : thread.regs.rax = 15) :
    thread.systemCall mapped other memory = thread.signalReturn mapped := by
  unfold systemCall
  rw [if_neg (by rw [hreturn]; decide), if_neg (by rw [hreturn]; decide), if_pos hreturn]

theorem Nested.returned (h : thread.Nested lo hi) (hreturn : thread.regs.rax = 15)
    (hproper : ProperCall lo hi mapped other memory thread) :
    ∃ frame rest, thread.live = frame :: rest ∧
      (signalCopyFromUser mapped thread.memory thread.regs.rsp sizeofFrame = none ∨
        (thread.called mapped other memory).regs = frame.content.regs ∧
          (thread.called mapped other memory).blocked = frame.content.oldmask ∧
            (thread.called mapped other memory).live = rest) := by
  obtain ⟨frame, rest, hlive, hrsp, -⟩ := hproper.returns hreturn
  have hentered : thread.entered.Nested lo hi := h.same rfl h.blocked rfl rfl rfl (.refl _)
  have hsystem : thread.entered.systemCall mapped other memory = thread.entered.signalReturn mapped :=
    systemCall_return hreturn
  have hcall : thread.called mapped other memory =
      (thread.entered.signalReturn mapped).1.setRax (thread.entered.signalReturn mapped).2 := by
    simp only [Thread.called, hsystem]
  refine ⟨frame, rest, hlive, ?_⟩
  rw [hcall]
  rcases hentered.signalReturn hlive hrsp with ⟨hcopy, -⟩ | hdone
  · exact .inl hcopy
  · rw [hdone]
    exact .inr ⟨rfl, rfl, rfl⟩

/-- In every proper history of a thread: the alternate stack is marked exactly while a handler
runs on it; a return gives back the registers and the mask that its delivery saved; a
delivery does not write into the frame of another handler that has not returned; and a
delivery that fails leaves the registers, the mask and the alternate stack as they are. -/
theorem nested_delivery (hfresh : thread.Fresh) {schedule : List Action}
    (hproper : Along step (Proper lo hi) thread schedule) :
    let thread := run step thread schedule
    (thread.sasSsFlags &&& ssOnstack ≠ 0 ↔ ∃ frame ∈ thread.live, frame.alternate) ∧
    ∀ mapped other memory, ProperCall lo hi mapped other memory thread →
      let called := thread.called mapped other memory
      let handed := called.signalDeliverPending mapped
      (thread.regs.rax = 15 → ∃ frame rest, thread.live = frame :: rest ∧
        (signalCopyFromUser mapped thread.memory thread.regs.rsp sizeofFrame = none ∨
          called.regs = frame.content.regs ∧ called.blocked = frame.content.oldmask ∧ called.live = rest)) ∧
      ∀ sig, called.handlerDue = some sig → (∀ frame ∈ called.live,
          Apart (called.retAddr (called.actions sig)).toNat (8 + sizeofFrame) frame.address sizeofFrame) ∧
        (handed.2 → ∃ address alternate, handed.1.live =
          ⟨address, ⟨signalFrameMagic, UInt64.ofNat sig, called.blocked, called.regs⟩, alternate⟩ ::
            called.live) ∧
        (handed.2 = false → handed.1.regs = called.regs ∧ handed.1.blocked = called.blocked ∧
          SameStacks called handed.1) := by
  intro thread
  have h : thread.Nested lo hi := nested_run hfresh hproper
  refine ⟨h.mark, fun mapped other memory hcall => ⟨fun hreturn => h.returned hreturn hcall, ?_⟩⟩
  exact fun sig hdue => (h.called hcall).delivered hdue (hcall.delivery sig hdue)

def everywhere : Nat → Nat → Bool := fun _ _ => true

instance decidableOnStack (lo hi : Nat) (thread : Thread) : Decidable (OnStack lo hi thread) := by
  unfold OnStack
  infer_instance

instance decidableProperCall (lo hi : Nat) (mapped : Nat → Nat → Bool) (other : UInt64) (memory : ByteMemory)
    (thread : Thread) : Decidable (ProperCall lo hi mapped other memory thread) :=
  have : Decidable (StacksApart lo hi (thread.called mapped other memory)) :=
    inferInstanceAs (Decidable (_ ∧ (_ ∨ _)))
  have : ∀ sig, Decidable (Roomy lo hi mapped (thread.called mapped other memory) sig) :=
    fun _ => inferInstanceAs (Decidable ((_ → _) ∧ (_ → _)))
  decidable_of_iff
    ((∀ frame ∈ thread.live, (thread.called mapped other memory).memory.read frame.address sizeofFrame =
        thread.memory.read frame.address sizeofFrame) ∧
      (thread.regs.rax = 15 → thread.live.head?.map Frame.address = some thread.regs.rsp.toNat ∧
        ∀ outer ∈ thread.live.tail, outer.alternate = false) ∧
      (thread.regs.rax = 131 → thread.regs.rdi ≠ 0 → (∀ frame ∈ thread.live, frame.alternate = false) ∧
        StacksApart lo hi (thread.called mapped other memory)) ∧
      ∀ sig ∈ (thread.called mapped other memory).handlerDue,
        Roomy lo hi mapped (thread.called mapped other memory) sig) <| by
    have hown : (thread.live.head?.map Frame.address = some thread.regs.rsp.toNat ∧
        ∀ outer ∈ thread.live.tail, outer.alternate = false) ↔ ∃ frame rest, thread.live = frame :: rest ∧
          thread.regs.rsp.toNat = frame.address ∧ ∀ outer ∈ rest, outer.alternate = false := by
      cases thread.live with
      | nil => simp
      | cons frame rest => simp [eq_comm (a := frame.address)]
    rw [hown]
    exact ⟨fun ⟨hkept, hreturns, haltstack, hdelivery⟩ => ⟨hkept, hreturns, haltstack, hdelivery⟩,
      fun h => ⟨h.kept, h.returns, h.altstack, h.delivery⟩⟩

instance decidableProper (lo hi : Nat) (thread : Thread) : ∀ action, Decidable (thread.Proper lo hi action)
  | .user _ _ => inferInstanceAs (Decidable (∀ frame ∈ thread.live, _ = _))
  | .send _ => isTrue trivial
  | .syscall _ _ _ => decidableProperCall _ _ _ _ _ _

/-- The program makes system calls with the given registers, some of them after a signal was
sent to it, and leaves its memory as it is. -/
def calls (thread : Thread) : List (Option Nat × X64Regs) → List Action
  | [] => []
  | (sig, regs) :: rest =>
    let actions := sig.toList.map Action.send ++
      [.user regs thread.memory, .syscall everywhere 0 thread.memory]
    actions ++ (run step thread actions).calls rest

/-- A thread whose handler of signal 12 asks for the alternate stack, with the description of an
alternate stack in its memory. -/
def mixed : Thread where
  memory := ByteMemory.write (fun _ => 0) 0x1000 (encodeWords [0x20000, 0, 4096])
  actions sig := { saHandler := 0x400000, saFlags := if sig = 12 then saOnstack else 0, saRestorer := 0x401000 }

theorem mixed_fresh : mixed.Fresh where
  live := rfl
  blocked := by decide
  sp := rfl
  size := rfl
  flags := by decide

/-- The alternate stack is set, a handler runs on the main stack, a second one interrupts it on the
alternate stack and returns. -/
def mixedCalls : List (Option Nat × X64Regs) :=
  [(none, { rax := 131, rdi := 0x1000, rsp := 0x90000 }), (some 10, { rax := 39, rsp := 0x90000 }),
    (some 12, { rax := 39, rsp := 0x8fe00 }), (none, { rax := 15, rsp := 0x20f20 })]

/-- The first handler is about to return as well. -/
def mixedSchedule : List Action :=
  mixed.calls mixedCalls ++
    [.user { rax := 15, rsp := 0x8ff20 } (run step mixed (mixed.calls mixedCalls)).memory]

theorem mixed_proper : Along step (Proper 0x80000 0x90000) mixed mixedSchedule := by
  decide +kernel

theorem mixed_properCall : ProperCall 0x80000 0x90000 everywhere 0 (run step mixed mixedSchedule).memory
    (run step mixed mixedSchedule) := by
  decide +kernel

/-- The second handler has returned from the alternate stack, and the first one returns. -/
theorem nested_delivery_mixed : Along step (Proper 0x80000 0x90000) mixed mixedSchedule ∧
    let thread := run step mixed mixedSchedule
    let called := thread.called everywhere 0 thread.memory
    ProperCall 0x80000 0x90000 everywhere 0 thread.memory thread ∧
      (thread.sasSsFlags &&& ssOnstack ≠ 0 ↔ ∃ frame ∈ thread.live, frame.alternate) ∧
        ∃ frame rest, thread.live = frame :: rest ∧ called.regs = frame.content.regs ∧
          called.blocked = frame.content.oldmask ∧ called.live = rest := by
  obtain ⟨hmark, hcalls⟩ := nested_delivery mixed_fresh mixed_proper
  obtain ⟨hreturn, -⟩ := hcalls everywhere 0 _ mixed_properCall
  obtain ⟨frame, rest, hlive, hnone | hrestored⟩ := hreturn (by decide +kernel)
  · exact absurd hnone (by decide +kernel)
  · exact ⟨mixed_proper, mixed_properCall, hmark, frame, rest, hlive, hrestored⟩

/-- A handler returns with its own frame. -/
def OwnFrame (thread : Thread) : Action → Prop
  | .syscall _ _ _ =>
    thread.regs.rax = 15 → thread.live.head?.map Frame.address = some thread.regs.rsp.toNat
  | _ => True

instance decidableOwnFrame (thread : Thread) : ∀ action, Decidable (thread.OwnFrame action)
  | .syscall _ _ _ => inferInstanceAs (Decidable (_ → _))
  | .user _ _ => isTrue trivial
  | .send _ => isTrue trivial

/-- A thread with handlers that ask for the alternate stack, and the description of an
alternate stack in its memory. -/
def plain : Thread where
  memory := ByteMemory.write (fun _ => 0) 0x1000 (encodeWords [0x20000, 0, 4096])
  actions _ := { saHandler := 0x400000, saFlags := saOnstack, saRestorer := 0x401000 }

theorem plain_fresh : plain.Fresh where
  live := rfl
  blocked := by decide
  sp := rfl
  size := rfl
  flags := by decide

/-- The alternate stack is set; a handler runs on it; a second one interrupts it and returns. -/
def interrupted : List (Option Nat × X64Regs) :=
  [(none, { rax := 131, rdi := 0x1000, rsp := 0x90000 }), (some 10, { rax := 39, rsp := 0x90000 }),
    (some 12, { rax := 39, rsp := 0x20e00 }), (none, { rax := 15, rsp := 0x20d20 })]

/-- The same thread, about to make a system call with a signal pending. -/
def withSignal (thread : Thread) (sig : Nat) (rsp : UInt64) : Thread :=
  { thread with signal := thread.signal ||| sigmask sig, regs := { rax := 39, rsp } }

/-- Without the conditions on the alternate stack: after the return of a second handler, the
frame of a third one is put over the frame of the first one, which still runs on the alternate
stack; and a delivery that fails marks the alternate stack. -/
theorem delivery_over_live_frame : plain.Fresh ∧
    (Along step OwnFrame plain (plain.calls interrupted) ∧
      let thread := (run step plain (plain.calls interrupted)).withSignal 12 0x20e00
      let called := thread.called everywhere 0 thread.memory
      called.handlerDue = some 12 ∧ called.live.map Frame.address = [0x20f20] ∧
        ¬ Apart (called.retAddr (called.actions 12)).toNat (8 + sizeofFrame) 0x20f20 sizeofFrame) ∧
    let thread := plain.withSignal 10 0x90000
    let called := thread.called everywhere 0 thread.memory
    called.handlerDue = some 10 ∧ (called.signalDeliverPending everywhere).2 = false ∧
      (called.signalDeliverPending everywhere).1.sasSsFlags ≠ called.sasSsFlags := by
  refine ⟨plain_fresh, ⟨?_, ?_⟩, ?_⟩ <;> decide +kernel

end Thread

end OpenXJ380.Signal
