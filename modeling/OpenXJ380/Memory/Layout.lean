/-
# The user address space

Constants of the address-space layout, the page arithmetic of the system calls
and the two kernel allocators. Addresses are natural numbers below `2 ^ 64`;
sums that can leave that range are reduced where the source reduces them.

Both allocators answer from an oracle, so that every pattern of success and
failure is one value of the state. The frame oracle also records the frames
that were given back.
-/

import Mathlib


namespace OpenXJ380.Memory

def pageSize : Nat := 4096

def userMmapStart : Nat := 0x0000400000000000
def userBrkStart : Nat := 0x0000700000000000
def userBrkEnd : Nat := 0x00007ffff0000000
def kernelAreaMem : Nat := 0xf000000000000000

/-- `value & ~(PAGE_SIZE - 1)`. -/
def pageDown (value : Nat) : Nat := value / pageSize * pageSize

/-- `align_up_u64(value, PAGE_SIZE)`; it fails where the sum would overflow. -/
def alignUp (value : Nat) : Option Nat :=
  if 2 ^ 64 - 1 - (pageSize - 1) < value then none
  else some (pageDown (value + (pageSize - 1)))

/-- `page_align_up`, which wraps around instead of failing. -/
def pageAlignUp (length : Nat) : Nat :=
  if length = 0 then 0 else pageDown ((length + pageSize - 1) % 2 ^ 64)

def checkUserOverflow (addr size : Nat) : Bool :=
  if size = 0 then false
  else if kernelAreaMem ≤ addr then true
  else decide (kernelAreaMem - addr < size)

def protRead : UInt64 := 1
def protWrite : UInt64 := 2
def protExec : UInt64 := 4

def mapShared : UInt64 := 1
def mapFixed : UInt64 := 16
def mapAnonymous : UInt64 := 32

def mremapMaymove : UInt64 := 1
def mremapFixed : UInt64 := 2

def ptePresent : UInt64 := 1
def pteWriteable : UInt64 := 2
def pteUser : UInt64 := 4
def pteHuge : UInt64 := 128
def pteFrameAllocated : UInt64 := 0x4000000000000000
def pteNoExecute : UInt64 := 0x8000000000000000
def pteAddrMask : UInt64 := 0x000ffffffffff000

/-- The C test `flags & mask`. -/
def hasFlag (flags mask : UInt64) : Bool := flags &&& mask != 0

/-- The flag word `flag` when the condition holds, no flag otherwise. -/
def flagIf (condition : Bool) (flag : UInt64) : UInt64 := if condition then flag else 0

/-- A physical address that `alloc_frames` can return: a page boundary within the
address field of a table entry. Zero is a refusal. -/
structure Frame where
  address : UInt64
  aligned : address &&& pteAddrMask = address

/-- `mallocOk n` and `frameAt n count` are the answers to the `n`-th request. -/
structure Allocators where
  mallocOk : Nat → Bool
  mallocs : Nat
  frameAt : Nat → Nat → Frame
  frames : Nat
  freed : List UInt64
  /-- The names that were written through the null pointer. -/
  nullWrites : List String := []

namespace Allocators

variable (a : Allocators)

def malloc : Bool × Allocators := (a.mallocOk a.mallocs, { a with mallocs := a.mallocs + 1 })

def allocFrames (count : Nat) : UInt64 × Allocators :=
  ((a.frameAt a.frames count).address, { a with frames := a.frames + 1 })

/-- Frames are released one by one; the run of a larger block appears in order. -/
def freeFrame (frame : UInt64) : Allocators := { a with freed := frame :: a.freed }

variable (name : Option String)

/-- A duplicate of a name, if there is one. The result of `malloc` is not looked at: without memory
the name is written through the null pointer, which is the result if the write does not fault. -/
def strdup : Option String × Allocators :=
  match name with
  | none => (none, a)
  | some text =>
    if a.malloc.1 then (some text, a.malloc.2)
    else (none, { a.malloc.2 with nullWrites := text :: a.nullWrites })

theorem allocFrames_aligned (count : Nat) :
    (a.allocFrames count).1 &&& pteAddrMask = (a.allocFrames count).1 :=
  (a.frameAt a.frames count).aligned

@[simp]
theorem freed_malloc : a.malloc.2.freed = a.freed := rfl

@[simp]
theorem freed_strdup : (a.strdup name).2.freed = a.freed := by
  cases name with
  | none => rfl
  | some text =>
    rw [strdup]
    split <;> rfl

end Allocators

theorem word_or_and (x y z : UInt64) : (x ||| y) &&& z = x &&& z ||| y &&& z := by
  apply UInt64.toBitVec_inj.mp
  ext i hi
  simp [Bool.and_or_distrib_right]

theorem pageDown_le (value : Nat) : pageDown value ≤ value := Nat.div_mul_le_self _ _

theorem pageDown_dvd (value : Nat) : pageSize ∣ pageDown value := Nat.dvd_mul_left _ _

variable {value aligned : Nat}

theorem alignUp_dvd (h : alignUp value = some aligned) : pageSize ∣ aligned := by
  unfold alignUp at h
  split at h
  · simp at h
  · cases h
    exact pageDown_dvd _

theorem le_alignUp (h : alignUp value = some aligned) : value ≤ aligned := by
  unfold alignUp at h
  split at h
  · simp at h
  · cases h
    simp only [pageDown, pageSize]
    omega

theorem checkUserOverflow_eq_false {addr size : Nat} (h : checkUserOverflow addr size = false)
    (hsize : size ≠ 0) : addr + size ≤ kernelAreaMem := by
  unfold checkUserOverflow at h
  rw [if_neg hsize] at h
  split at h
  · simp at h
  · rw [decide_eq_false_iff_not] at h
    omega

end OpenXJ380.Memory
