/-
# Copying a page directory

`clone_page_directory` copies the user half of an address space into fresh frames
(`kernel/memory/page.cpp`). The tables lie in physical memory here, so that a frame is a table
or a page only by the way it is reached. There are two copies: `copy_bootstrap_user_tables`
for the directory of the kernel, which gives everything back when a frame is refused, and
`copy_page_table_recursive` for all others, which goes on without the frame.

A level of zero stands for a page: copying it is a frame and a copy of its contents.
-/

import OpenXJ380.Memory.PageTable

namespace OpenXJ380.Memory

/-- The words of a frame. -/
abbrev FrameWords := Fin 512 → UInt64

/-- The answers of `alloc_frames(1)`, from the frames in use and the number of the request.
Zero is a refusal; any other frame is not in use. -/
structure FrameSource where
  frame : Finset UInt64 → Nat → UInt64
  fresh : ∀ used k, frame used k ≠ 0 → frame used k ∉ used
  aligned : ∀ used k, frame used k &&& pteAddrMask = frame used k

/-- The next requests, as many as are given, are not refused. -/
def FrameSource.grants (source : FrameSource) : Nat → Finset UInt64 → Nat → Bool
  | 0, _, _ => true
  | n + 1, used, k =>
    source.frame used k != 0 && source.grants n (insert (source.frame used k) used) (k + 1)

/-- Physical memory, the frames that the allocator will not give out, and how many requests
were made so far. -/
structure PhysState where
  page : UInt64 → FrameWords
  used : Finset UInt64
  requests : Nat

namespace PhysState

variable (s : PhysState)

def allocFrame (source : FrameSource) : UInt64 × PhysState :=
  let frame := source.frame s.used s.requests
  (frame, { s with
    used := if frame = 0 then s.used else insert frame s.used
    requests := s.requests + 1 })

def freeFrame (frame : UInt64) : PhysState := { s with used := s.used.erase frame }

@[simp]
theorem page_freeFrame (frame f : UInt64) : (s.freeFrame frame).page f = s.page f := rfl

@[simp]
theorem used_freeFrame (frame : UInt64) : (s.freeFrame frame).used = s.used.erase frame := rfl

/-- All words of a frame. -/
def setPage (frame : UInt64) (words : FrameWords) : PhysState :=
  { s with page := Function.update s.page frame words }

def setEntry (table : UInt64) (i : Fin 512) (entry : UInt64) : PhysState :=
  s.setPage table (Function.update (s.page table) i entry)

end PhysState

def isPresent (entry : UInt64) : Bool := hasFlag entry ptePresent

def isHuge (entry : UInt64) : Bool := hasFlag entry pteHuge

/-- The entries that are copied and released: the user half of the top level. -/
@[irreducible]
def userSlots (level : Nat) : List (Fin 512) :=
  (List.finRange 512).filter fun i => decide (level ≠ 4 ∨ i.val < 256)

theorem mem_userSlots {level : Nat} {i : Fin 512} : i ∈ userSlots level ↔ level ≠ 4 ∨ i.val < 256 := by
  unfold userSlots
  rw [List.mem_filter, decide_eq_true_iff]
  exact and_iff_right (List.mem_finRange i)

theorem nodup_userSlots (level : Nat) : (userSlots level).Nodup := by
  unfold userSlots
  exact (List.nodup_finRange 512).filter _

/-- The entry of a copy, from the new frame and the flags of the old entry. -/
def copiedEntry (level : Nat) (child entry : UInt64) : UInt64 :=
  child ||| (entry &&& ~~~pteAddrMask) ||| flagIf (level == 1) pteFrameAllocated

/-- An entry whose frame belongs to the table. A failed copy does not own what it copied
verbatim. -/
def ownsEntry (failed : Bool) (level : Nat) (entry : UInt64) : Bool :=
  if level = 1 then
    isPresent entry && hasFlag entry pteFrameAllocated && (!failed || !isHuge entry)
  else isPresent entry && !isHuge entry

def freeEntries (free : UInt64 → PhysState → PhysState) (failed : Bool) (level : Nat) (table : UInt64) :
    List (Fin 512) → PhysState → PhysState
  | [], s => s
  | i :: rest, s =>
    let entry := s.page table i
    if ownsEntry failed level entry then
      let s := free (entry &&& pteAddrMask) s
      freeEntries free failed level table rest (if level = 1 then s.setEntry table i 0 else s)
    else freeEntries free failed level table rest s

/-- `free_page_table_recursive`. -/
def freePageTable (failed : Bool) : Nat → UInt64 → PhysState → PhysState
  | 0, frame, s => s.freeFrame frame
  | level + 1, table, s =>
    (freeEntries (freePageTable failed level) failed (level + 1) table (userSlots (level + 1)) s).freeFrame
      table

def bootstrapEntries (copy : UInt64 → PhysState → Option UInt64 × PhysState) (level : Nat)
    (old new : UInt64) : List (Fin 512) → PhysState → Option UInt64 × PhysState
  | [], s => (some new, s)
  | i :: rest, s =>
    let entry := s.page old i
    if !isPresent entry then bootstrapEntries copy level old new rest s
    else if isHuge entry then bootstrapEntries copy level old new rest (s.setEntry new i entry)
    else
      match copy (entry &&& pteAddrMask) s with
      | (none, s) => (none, freePageTable true level new s)
      | (some child, s) =>
        bootstrapEntries copy level old new rest (s.setEntry new i (copiedEntry level child entry))

/-- `copy_bootstrap_user_tables`. -/
def copyBootstrap (source : FrameSource) : Nat → UInt64 → PhysState → Option UInt64 × PhysState
  | 0, old, s =>
    let (new, s) := s.allocFrame source
    if new = 0 then (none, s) else (some new, s.setPage new (s.page old))
  | level + 1, old, s =>
    let (new, s) := s.allocFrame source
    if new = 0 then (none, s)
    else bootstrapEntries (copyBootstrap source level) (level + 1) old new (userSlots (level + 1))
      (s.setPage new fun _ => 0)

/-- The entries that `copy_page_table_recursive` copies. -/
def copySlots (allCopy : Bool) (level : Nat) : List (Fin 512) :=
  if allCopy then List.finRange 512 else userSlots level

def recursiveEntries (copy : Bool → UInt64 → PhysState → UInt64 × PhysState) (level : Nat)
    (kernelSpace : Bool) (old new : UInt64) : List (Fin 512) → PhysState → PhysState
  | [], s => s
  | i :: rest, s =>
    let entry := s.page old i
    if !isPresent entry then recursiveEntries copy level kernelSpace old new rest (s.setEntry new i 0)
    else if isHuge entry then
      recursiveEntries copy level kernelSpace old new rest (s.setEntry new i entry)
    else
      let (child, s) :=
        copy (if level ≠ 4 then kernelSpace else decide (256 ≤ i.val)) (entry &&& pteAddrMask) s
      -- A page without a frame is left out; a table without one is the frame zero.
      if level = 1 ∧ child = 0 then recursiveEntries copy level kernelSpace old new rest s
      else recursiveEntries copy level kernelSpace old new rest
        (s.setEntry new i (copiedEntry level child entry))

/-- `copy_page_table_recursive`. -/
def copyRecursive (source : FrameSource) (allCopy : Bool) :
    Nat → Bool → UInt64 → PhysState → UInt64 × PhysState
  | 0, _, old, s =>
    let (new, s) := s.allocFrame source
    if new = 0 then (new, s) else (new, s.setPage new (s.page old))
  | level + 1, kernelSpace, old, s =>
    if level = 0 ∧ kernelSpace = true then (old, s)
    else
      let (new, s) := s.allocFrame source
      (new, recursiveEntries (copyRecursive source allCopy level) (level + 1) kernelSpace old new
        (copySlots allCopy (level + 1)) (s.setPage new fun _ => 0))

/-- The upper half of the directory is shared. -/
def PhysState.shareKernelHalf (s : PhysState) (old new : UInt64) : PhysState :=
  s.setPage new fun i => if i.val < 256 then s.page new i else s.page old i

/-- `clone_page_directory(dir, false)` from the frame of its table. `bootstrap` says that it is
the directory of the kernel, `memory` whether there is memory for the new descriptor. -/
def clonePageDirectory (source : FrameSource) (bootstrap memory : Bool) (dir : UInt64) (s : PhysState) :
    Option UInt64 × PhysState :=
  if !memory then (none, s)
  else if bootstrap then
    match copyBootstrap source 4 dir s with
    | (none, s) => (none, s)
    | (some new, s) => (some new, s.shareKernelHalf dir new)
  else
    let (new, s) := copyRecursive source false 4 false dir s
    (some new, s.shareKernelHalf dir new)

/-- What an address leads to: nothing, a large entry of some height, or a page. -/
inductive Translation where
  | absent
  | huge (height : Nat) (entry : UInt64)
  | page (entry : UInt64)
  deriving DecidableEq

def walkTable (memory : UInt64 → FrameWords) : Nat → UInt64 → Nat → Translation
  | 0, table, addr =>
    let entry := memory table (entryIndex 0 addr)
    if !isPresent entry then .absent else if isHuge entry then .huge 0 entry else .page entry
  | height + 1, table, addr =>
    let entry := memory table (entryIndex (height + 1) addr)
    if !isPresent entry then .absent
    else if isHuge entry then .huge (height + 1) entry
    else walkTable memory height (entry &&& pteAddrMask) addr

/-- The number of tables and pages that are copied from a table. -/
def demand (memory : UInt64 → FrameWords) : Nat → UInt64 → Nat
  | 0, _ => 1
  | level + 1, table => ((userSlots (level + 1)).map fun i =>
      let entry := memory table i
      if isPresent entry && !isHuge entry then demand memory level (entry &&& pteAddrMask) else 0).sum + 1

end OpenXJ380.Memory
