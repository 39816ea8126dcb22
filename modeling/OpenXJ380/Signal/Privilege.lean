/-
# The registers that are handed back to user mode

A thread that starts with user selectors, interrupts enabled, no I/O privilege and an address
in the lower half keeps them: the user program cannot change them, and every path through the
kernel gives them back, as long as each frame that `signal_return` accepts is one that a
delivery has written, and handlers are in the lower half. Without the first condition a
program can choose its flags, its instruction pointer and its selectors: `signal_return`
copies them from memory of the user without looking at them.
-/

import OpenXJ380.Signal.Nesting

namespace OpenXJ380.Signal

open Data Protocol
open SignalFrame (ofBytes)

/-- The two bits of the I/O privilege level. -/
def flagsIopl : UInt64 := 0x3000

/-- The interrupt flag. -/
def flagsIf : UInt64 := 0x200

structure Unprivileged (regs : X64Regs) : Prop where
  iopl : regs.rflags &&& flagsIopl = 0
  interrupts : regs.rflags &&& flagsIf ≠ 0
  rip : regs.rip.toNat < 2 ^ 47
  ds : regs.ds = selectorUserDs
  es : regs.es = selectorUserDs

/-- What the user program can do to its registers: it does not load segment registers, it
runs in the lower half, and without I/O privilege it can change neither the privilege level nor the
interrupt flag. -/
structure UserChange (before after : X64Regs) : Prop where
  iopl : after.rflags &&& flagsIopl = before.rflags &&& flagsIopl
  interrupts : after.rflags &&& flagsIf = before.rflags &&& flagsIf
  rip : after.rip.toNat < 2 ^ 47
  ds : after.ds = before.ds
  es : after.es = before.es

theorem Unprivileged.user {before after : X64Regs} (h : Unprivileged before) (hchange : UserChange before after) :
    Unprivileged after where
  iopl := hchange.iopl.trans h.iopl
  interrupts := hchange.interrupts ▸ h.interrupts
  rip := hchange.rip
  ds := hchange.ds.trans h.ds
  es := hchange.es.trans h.es

/-- Only the flags, the instruction pointer and the selectors matter. -/
theorem Unprivileged.of_eq {regs regs' : X64Regs} (h : Unprivileged regs) (hflags : regs'.rflags = regs.rflags)
    (hrip : regs'.rip = regs.rip) (hds : regs'.ds = regs.ds) (hes : regs'.es = regs.es) :
    Unprivileged regs' where
  iopl := hflags ▸ h.iopl
  interrupts := hflags ▸ h.interrupts
  rip := hrip ▸ h.rip
  ds := hds.trans h.ds
  es := hes.trans h.es

/-- The flags that `sysret` loads agree with the saved ones on a set of bits that it loads and does
not set itself. -/
theorem sysret_and (flags bits : UInt64) (hloaded : Thread.sysretFlags &&& bits = bits) (hset : 2 &&& bits = 0) :
    (flags &&& Thread.sysretFlags ||| 2) &&& bits = flags &&& bits := by
  rw [or_and_distrib, hset, UInt64.or_zero, UInt64.and_assoc, hloaded]

namespace Thread

variable {mapped : Nat → Nat → Bool} {other : UInt64} {memory : ByteMemory} {thread thread' : Thread}

theorem unprivileged_ret {regs : X64Regs} (h : Unprivileged regs) : Unprivileged (retFromSyscall regs) where
  iopl := (sysret_and _ _ (by decide) (by decide)).trans h.iopl
  interrupts := by
    rw [retFromSyscall, sysret_and _ _ (by decide) (by decide)]
    exact h.interrupts
  rip := h.rip
  ds := h.ds
  es := h.es

/-- The conditions on a history: the user program changes what it can, what `signal_return`
accepts was written by a delivery, and handlers are in the lower half. -/
def Trusted (thread : Thread) : Action → Prop
  | .user regs _ => UserChange thread.regs regs
  | .send _ => True
  | .syscall mapped other memory =>
    (thread.regs.rax = 15 → ∀ bytes,
      signalCopyFromUser mapped thread.memory thread.regs.rsp sizeofFrame = some bytes →
        (ofBytes bytes).magic = signalFrameMagic → ofBytes bytes ∈ thread.delivered) ∧
    ∀ sig, (thread.called mapped other memory).handlerDue = some sig →
      ((thread.called mapped other memory).actions sig).saHandler.toNat < 2 ^ 47

/-- The registers and the frames that were ever written are those of user mode. -/
structure Confined (thread : Thread) : Prop where
  regs : Unprivileged thread.regs
  delivered : ∀ frame ∈ thread.delivered, Unprivileged frame.regs

section

variable (h : thread.Confined)
include h

theorem Confined.image (hsame : SameImage thread thread') : thread'.Confined where
  regs := hsame.regs ▸ h.regs
  delivered := hsame.delivered ▸ h.delivered

theorem Confined.signalReturn
    (htrusted : ∀ bytes, signalCopyFromUser mapped thread.memory thread.regs.rsp sizeofFrame = some bytes →
      (ofBytes bytes).magic = signalFrameMagic → ofBytes bytes ∈ thread.delivered) :
    (thread.signalReturn mapped).1.Confined := by
  unfold Thread.signalReturn
  split
  · exact h
  next bytes hcopy =>
    simp only
    split
    · exact h
    next hmagic => exact ⟨h.delivered _ (htrusted bytes hcopy (by simpa using hmagic)), h.delivered⟩

section

variable (htrusted : thread.regs.rax = 15 → ∀ bytes,
  signalCopyFromUser mapped thread.memory thread.regs.rsp sizeofFrame = some bytes →
    (ofBytes bytes).magic = signalFrameMagic → ofBytes bytes ∈ thread.delivered)
include htrusted

theorem Confined.systemCall : (thread.systemCall mapped other memory).1.Confined := by
  rcases systemCall_cases mapped other memory thread with
    ⟨sig, action, oldaction, size, hcall⟩ | ⟨how, nset, oset, hcall⟩ | ⟨hreturn, hcall⟩ | ⟨-, hcall⟩ | hcall <;>
    rw [hcall]
  · obtain ⟨_, _, hthread⟩ := syscallSigAction_spec sig action oldaction size
    exact hthread ▸ h.image ⟨rfl, rfl⟩
  · obtain ⟨_, _, hthread, -⟩ := syscallSsetmask_spec how nset oset
    exact hthread ▸ h.image ⟨rfl, rfl⟩
  · exact h.signalReturn (htrusted hreturn)
  · exact h.image (syscallSigaltstack_spec _ _).1
  · exact ⟨h.regs, h.delivered⟩

theorem Confined.called : (thread.called mapped other memory).Confined := by
  have hentered : thread.entered.Confined := ⟨h.regs.of_eq rfl rfl rfl rfl, h.delivered⟩
  have hcall : (thread.entered.systemCall mapped other memory).1.Confined := hentered.systemCall htrusted
  exact ⟨hcall.regs.of_eq rfl rfl rfl rfl, hcall.delivered⟩

end

theorem Confined.deliver
    (hhandler : ∀ sig, thread.handlerDue = some sig → (thread.actions sig).saHandler.toNat < 2 ^ 47) :
    (thread.signalDeliverPending mapped).1.Confined := by
  obtain ⟨-, signal, stopped, killed, hdeliver⟩ | ⟨sig, hdue, hdeliver⟩ := deliver_cases mapped thread
  · rw [hdeliver]
    exact ⟨h.regs, h.delivered⟩
  rw [hdeliver]
  rcases pushFrame_cases mapped (thread.taken sig) sig (thread.actions sig) with
    ⟨-, memory, signal, -, hpush⟩ | ⟨-, hpush⟩
  · rw [hpush]
    exact ⟨h.regs, h.delivered⟩
  rw [hpush]
  refine ⟨⟨h.regs.iopl, h.regs.interrupts, hhandler sig hdue, h.regs.ds, h.regs.es⟩, ?_⟩
  intro frame hframe
  rcases List.mem_cons.mp hframe with rfl | hframe
  · exact h.regs
  · exact h.delivered frame hframe

theorem Confined.handed (htrusted : thread.Trusted (.syscall mapped other memory)) :
    (thread.handed mapped other memory).Confined :=
  (h.called htrusted.1).deliver htrusted.2

theorem confined_step (action : Action) (htrusted : thread.Trusted action) :
    (thread.step action).Confined := by
  cases action with
  | user regs memory =>
    simp only [step]
    split
    · exact h
    · exact ⟨h.regs.user htrusted, h.delivered⟩
  | send sig =>
    simp only [step]
    split
    · exact h
    · exact ⟨h.regs, h.delivered⟩
  | syscall mapped other memory =>
    simp only [step]
    split
    · exact h
    · have hhanded := h.handed htrusted
      exact ⟨unprivileged_ret hhanded.regs, hhanded.delivered⟩

end

/-- Every register image that is handed back to user mode is unprivileged. -/
theorem handed_unprivileged (hregs : Unprivileged thread.regs) (hdelivered : thread.delivered = [])
    {schedule : List Action} (htrusted : Along step Trusted thread schedule)
    (hcall : (run step thread schedule).Trusted (.syscall mapped other memory)) :
    Unprivileged ((run step thread schedule).handed mapped other memory).regs := by
  have hinitial : thread.Confined := ⟨hregs, by simp [hdelivered]⟩
  have h := invariant_run step Confined (fun _ action htrusted h => confined_step h action htrusted) htrusted
    hinitial
  exact (h.handed hcall).regs

/-- A thread in user mode whose memory holds a frame that no delivery has written. -/
def forger : Thread where
  regs := { rax := 15, rsp := 0x90000, rip := 0x400000, rflags := 0x202, ds := selectorUserDs, es := selectorUserDs }
  memory := ByteMemory.write (fun _ => 0) 0x90000
    (SignalFrame.bytes ⟨signalFrameMagic, 0, 0, { rip := 0x800000000000, rflags := 0x3002 }⟩)

theorem forger_unprivileged : Unprivileged forger.regs :=
  ⟨by decide, by decide, by decide, rfl, rfl⟩

instance decidableUserChange (before after : X64Regs) : Decidable (UserChange before after) :=
  decidable_of_iff
    (after.rflags &&& flagsIopl = before.rflags &&& flagsIopl ∧
      after.rflags &&& flagsIf = before.rflags &&& flagsIf ∧ after.rip.toNat < 2 ^ 47 ∧
        after.ds = before.ds ∧ after.es = before.es)
    ⟨fun ⟨hiopl, hinterrupts, hrip, hds, hes⟩ => ⟨hiopl, hinterrupts, hrip, hds, hes⟩,
      fun h => ⟨h.iopl, h.interrupts, h.rip, h.ds, h.es⟩⟩

instance decidableTrusted (thread : Thread) : ∀ action, Decidable (thread.Trusted action)
  | .user _ _ => decidableUserChange _ _
  | .send _ => isTrue trivial
  | .syscall mapped other memory =>
    inferInstanceAs (Decidable ((thread.regs.rax = 15 →
      ∀ bytes ∈ signalCopyFromUser mapped thread.memory thread.regs.rsp sizeofFrame,
        (ofBytes bytes).magic = signalFrameMagic → ofBytes bytes ∈ thread.delivered) ∧
      ∀ sig ∈ (thread.called mapped other memory).handlerDue,
        ((thread.called mapped other memory).actions sig).saHandler.toNat < 2 ^ 47))

/-- A thread in user mode with a handler for every signal. -/
def caller : Thread := { mixed with regs := forger.regs }

/-- A handler runs, a second one interrupts it and returns. -/
def callerSchedule : List Action :=
  let calls := caller.calls
    [(some 10, { forger.regs with rax := 39, rsp := 0x90000 }),
      (some 11, { forger.regs with rax := 39, rsp := 0x8fe00 }),
      (none, { forger.regs with rsp := 0x8fd20 })]
  calls ++ [.user { forger.regs with rsp := 0x8ff20 } (run step caller calls).memory]

theorem caller_trusted : Along step Trusted caller callerSchedule := by
  decide +kernel

/-- The first handler returns. -/
theorem caller_returns : (run step caller callerSchedule).regs.rax = 15 ∧
    (run step caller callerSchedule).delivered.length = 2 ∧
    (run step caller callerSchedule).Trusted (.syscall everywhere 0 (run step caller callerSchedule).memory) := by
  decide +kernel

/-- The first handler returns after the second one, to user mode. -/
theorem handed_unprivileged_caller : (Along step Trusted caller callerSchedule ∧
    (run step caller callerSchedule).regs.rax = 15) ∧ Unprivileged ((run step caller callerSchedule).handed
      everywhere 0 (run step caller callerSchedule).memory).regs := by
  obtain ⟨hreturn, -, hcall⟩ := caller_returns
  have hregs : Unprivileged caller.regs := forger_unprivileged
  exact ⟨⟨caller_trusted, hreturn⟩, handed_unprivileged hregs rfl caller_trusted hcall⟩

/-- Without the condition on frames, `signal_return` hands back the flags, the instruction
pointer and the selectors that the program has put into its memory. -/
theorem forged_image : Unprivileged forger.regs ∧ forger.delivered = [] ∧
    let regs := (forger.handed everywhere 0 forger.memory).regs
    regs.rflags &&& flagsIopl ≠ 0 ∧ regs.rflags &&& flagsIf = 0 ∧ ¬ regs.rip.toNat < 2 ^ 47 ∧
      regs.ds ≠ selectorUserDs ∧ regs.es ≠ selectorUserDs :=
  ⟨forger_unprivileged, rfl, by decide +kernel⟩

end Thread

end OpenXJ380.Signal
