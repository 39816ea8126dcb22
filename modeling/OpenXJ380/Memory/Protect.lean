/-
# Changing and ending mappings

The memory of a process is its list of areas, its queue of lazily allocated
ranges and its page directory. `sys_mprotect` and `sys_munmap` of
`kernel/syscall/sys.cpp` edit all three in turn.

Both calls check their arguments before they edit anything. After that
`sys_mprotect` ignores whether its splits succeed, so an area that could not be
split changes its rights as a whole.
-/

import OpenXJ380.Kernel.Errno
import OpenXJ380.Memory.Lazy
import OpenXJ380.Memory.PageTable
import OpenXJ380.Memory.Vma

namespace OpenXJ380.Memory

open Data

structure Process where
  vmaManager : VmaManager
  virtQueue : VirtQueue
  pagedir : PageDirectory
  brkCurrent : Nat
  mmapStart : Nat
  allocators : Allocators

def protToPteFlags (prot : UInt64) : UInt64 := pteUser ||| flagIf (prot != 0)
    (ptePresent ||| flagIf (hasFlag prot protWrite) pteWriteable |||
      flagIf (!hasFlag prot protExec) pteNoExecute)

/-- Replace the access rights of an area. -/
def VmaFlags.withProt (flags : VmaFlags) (prot : UInt64) : VmaFlags :=
  { flags with
    read := hasFlag prot protRead
    write := hasFlag prot protWrite
    exec := hasFlag prot protExec }

/-- The first loop of `sys_mprotect`: every address has an area. Each round
leaves one area behind, so the length of the list is fuel enough. -/
def rangeCovered (list : List Vma) (stop : Nat) : Nat → Nat → Bool
  | 0, cursor => decide (stop ≤ cursor)
  | fuel + 1, cursor =>
    if stop ≤ cursor then true
    else
      match list.find? (Vma.contains · cursor) with
      | none => false
      | some vma => rangeCovered list stop fuel (min vma.vmEnd stop)

/-- Split an area under a pointer, or leave it where the split fails. -/
def splitAt (vma : Vma) (addr : Nat) (a : Allocators) : Vma × List Vma × Allocators :=
  match vmaSplit vma addr a with
  | (none, a) => (vma, [], a)
  | (some (left, right), a) => (left, [right], a)

/-- The second loop of `sys_mprotect`. -/
def protectLoop (start stop : Nat) (prot : UInt64) :
    Nat → Nat → List Vma → Allocators → List Vma × Allocators
  | 0, _, list, a => (list, a)
  | fuel + 1, cursor, list, a =>
    if stop ≤ cursor then (list, a)
    else
      match focus (Vma.contains · cursor) list with
      | none => (list, a)
      | some (before, vma, after) =>
        let (found, list, a) :=
          if vma.vmStart < start then
            -- The area is looked up again by address after the split.
            let (left, right, a) := splitAt vma start a
            let list := before ++ left :: right ++ after
            (focus (Vma.contains · start) list, list, a)
          else (some (before, vma, after), list, a)
        match found with
        | none => protectLoop start stop prot fuel cursor list a
        | some (before, vma, after) =>
          let (vma, right, a) :=
            if stop < vma.vmEnd then splitAt vma stop a else (vma, [], a)
          let vma := { vma with vmFlags := vma.vmFlags.withProt prot }
          protectLoop start stop prot fuel vma.vmEnd (before ++ vma :: right ++ after) a

/-- One round of the page loop of `sys_mprotect`. -/
def updatePage (flags : UInt64) (table : PageDirectory) (page : Nat) : PageDirectory :=
  if translate 3 table page != 0 then updateFlags flags 3 table page else table

/-- The page loop of `sys_mprotect`, over `count` pages. -/
def updatePages (flags : UInt64) (table : PageDirectory) (start : Nat) : Nat → PageDirectory
  | 0 => table
  | count + 1 => updatePage flags (updatePages flags table start count) (start + count * pageSize)

/-- `unmap_page_range`, over `count` pages. -/
def unmapPageRange (table : PageDirectory) (start : Nat) (a : Allocators) :
    Nat → PageDirectory × Allocators
  | 0 => (table, a)
  | count + 1 =>
    let (table, a) := unmapPageRange table start a count
    unmapPage 3 table (start + count * pageSize) a

variable (p : Process)

def sysMprotect (addr length prot : UInt64) : Except Errno Unit × Process :=
  if length = 0 then (.ok (), p)
  else
    let start := pageDown addr.toNat
    match alignUp length.toNat with
    | none => (.error .einval, p)
    | some size =>
      if checkUserOverflow start size then (.error .efault, p)
      else
        let stop := start + size
        let list := p.vmaManager.vmaList
        if !rangeCovered list stop list.length start then (.error .enomem, p)
        else
          let flags := protToPteFlags prot
          let (list, a) := protectLoop start stop prot list.length start list p.allocators
          let pagedir := updatePages flags p.pagedir start (size / pageSize)
          let (queue, a) := p.virtQueue.updateLazyPteFlags start stop flags a
          (.ok (),
            { p with
              vmaManager := { p.vmaManager with vmaList := list }
              virtQueue := queue
              pagedir := pagedir
              allocators := a })

def sysMunmap (addr size : UInt64) : Except Errno Unit × Process :=
  if size = 0 then (.ok (), p)
  else
    let start := pageDown addr.toNat
    match alignUp size.toNat with
    | none => (.error .einval, p)
    | some size =>
      if checkUserOverflow start size then (.error .efault, p)
      else
        match vmaUnmapRange p.vmaManager start (start + size) p.allocators with
        | (false, mgr, a) => (.error .enomem, { p with vmaManager := mgr, allocators := a })
        | (true, mgr, a) =>
          let (queue, a) := p.virtQueue.unmapVirtualPage start size a
          let (pagedir, a) := unmapPageRange p.pagedir start a (size / pageSize)
          (.ok (),
            { p with
              vmaManager := mgr
              virtQueue := queue
              pagedir := pagedir
              allocators := a })

end OpenXJ380.Memory
