/-
# Creating, moving and growing mappings

`sys_mmap`, `sys_mremap` and `sys_brk` of `kernel/syscall/sys.cpp`.

A file mapping goes through `vfs_map`. Regular files use `general_map`, which
maps zeroed pages and then reads into them; the map callback of a device is a
parameter.
-/

import OpenXJ380.Memory.Protect

namespace OpenXJ380.Memory

open Data

/-- `mapped_page_intersects`, over `count` pages. -/
def mappedPageIntersects (table : PageDirectory) (start : Nat) : Nat → Bool
  | 0 => false
  | count + 1 => translate 3 table start != 0 || mappedPageIntersects table (start + pageSize) count

/-- `user_range_available`, for a nonempty range of whole pages. -/
def userRangeAvailable (p : Process) (start length : Nat) : Bool :=
  !checkUserOverflow start length &&
    (vmaFindIntersection p.vmaManager start (start + length)).isNone &&
    !mappedPageIntersects p.pagedir start (length / pageSize)

/-- The search loop of `find_user_mmap_range`; zero where nothing is free. -/
def findLoop (p : Process) (length limit : Nat) : Nat → Nat → Nat
  | 0, _ => 0
  | fuel + 1, start =>
    if limit < start then 0
    else if userRangeAvailable p start length then start
    else findLoop p length limit fuel (start + pageSize)

/-- `find_user_mmap_range`. Every round moves on by a page, so the pages up to
the limit are fuel enough. -/
def findUserMmapRange (p : Process) (hint length : Nat) : Nat :=
  let start := if userMmapStart ≤ hint then pageDown hint else userMmapStart
  if length = 0 || userBrkStart ≤ start || userBrkStart - start < length then 0
  else
    let limit := userBrkStart - length
    findLoop p length limit ((limit - start) / pageSize + 1) start

/-- `page_map_range_to_random`, over `count` pages; a page without a frame is
left out. -/
def pageMapRangeToRandom (flags : UInt64) (table : PageDirectory) (start : Nat) (a : Allocators) :
    Nat → PageDirectory × Allocators
  | 0 => (table, a)
  | count + 1 =>
    let (table, a) := pageMapRangeToRandom flags table start a count
    let (frame, a) := a.allocFrames 1
    if frame = 0 then (table, a)
    else pageMapTo frame (flags ||| pteFrameAllocated) 3 table (start + count * pageSize) a

def lazyInfoalloc (p : Process) (vaddr length : Nat) (pageFlags flags : UInt64) : Bool × Process :=
  if (length + pageSize - 1) % 2 ^ 64 / pageSize = 0 then (false, p)
  else if hasFlag flags mapFixed then
    let (queue, a) := p.virtQueue.unmapVirtualPage vaddr length p.allocators
    let (pagedir, a) := unmapPageRange p.pagedir vaddr a (length / pageSize)
    let (pagedir, a) := pageMapRangeToRandom pageFlags pagedir vaddr a (length / pageSize)
    (true, { p with virtQueue := queue, pagedir := pagedir, allocators := a })
  else
    let (ok, queue, a) := p.virtQueue.record vaddr length pageFlags flags p.allocators
    (ok, { p with virtQueue := queue, allocators := a })

/-- What stands behind a file descriptor that is to be mapped. -/
inductive FileMapping
  /-- The descriptor is refused before any change. -/
  | unusable (error : Errno)
  /-- `vfs_map` refuses without touching the address space. -/
  | denied (error : Errno)
  /-- A regular file, through `general_map`; whether the read succeeds. -/
  | regular (readOk : Bool)
  /-- A device, through its own callback, and the error that results where it fails. -/
  | device (map : PageDirectory → Allocators → PageDirectory × Allocators)
      (error : Option Errno)

/-- The page flags `general_map` and `sys_mremap` start from. -/
def writablePteFlags (exec : Bool) : UInt64 :=
  pteUser ||| ptePresent ||| pteWriteable ||| flagIf (!exec) pteNoExecute

/-- The page flags of an anonymous `sys_mmap`, which are writable whatever `prot`
asks for. -/
def mmapPteFlags (prot : UInt64) : UInt64 := pteUser ||| ptePresent ||| pteWriteable |||
    flagIf (prot != 0 && !hasFlag prot protExec) pteNoExecute

section

variable (p : Process)

/-- Bring the search cursor back into the mapping area. -/
def resetCursor : Process :=
  if p.mmapStart < userMmapStart || userBrkStart ≤ p.mmapStart then
    { p with mmapStart := userMmapStart }
  else p

/-- The place of a mapping with an address hint. -/
def hintedPlace (addr size : Nat) : Except Errno Nat :=
  if addr < userMmapStart || userBrkStart ≤ addr || userBrkStart - addr < size then .error .enomem
  else if !userRangeAvailable p addr size then .error .enomem
  else .ok addr

/-- The place of a mapping without a hint: from the cursor on, then from the start. -/
def searchPlace (size : Nat) : Except Errno Nat :=
  if findUserMmapRange p p.mmapStart size ≠ 0 then .ok (findUserMmapRange p p.mmapStart size)
  else if p.mmapStart ≠ userMmapStart ∧ findUserMmapRange p userMmapStart size ≠ 0 then
    .ok (findUserMmapRange p userMmapStart size)
  else .error .enomem

/-- Where `sys_mmap` places a mapping, with the search cursor it may reset. -/
def mmapPlace (addr size : Nat) (fixed : Bool) : Except Errno Nat × Process :=
  if fixed then
    (if addr = 0 || checkUserOverflow addr size then .error .einval else .ok addr, p)
  else
    (if addr ≠ 0 then hintedPlace (resetCursor p) addr size
      else searchPlace (resetCursor p) size, resetCursor p)

section

variable (start size : Nat)

/-- The area `sys_mmap` inserts. -/
def mmapArea (prot flags : UInt64) (fd : Int) (offset : UInt64) : Vma :=
  let anon := hasFlag flags mapAnonymous
  { vmStart := start
    vmEnd := start + size
    vmFlags :=
      { read := hasFlag prot protRead
        write := hasFlag prot protWrite
        exec := hasFlag prot protExec
        shared := hasFlag flags mapShared
        anon := anon }
    vmType := if anon then .anon else .file
    vmFd := if anon then -1 else fd
    vmOffset := if anon then 0 else offset.toInt64 }

/-- Clear a range for `MAP_FIXED`; the result of `vma_unmap_range` is ignored. -/
def clearRange : Process :=
  let (_, mgr, a) := vmaUnmapRange p.vmaManager start (start + size) p.allocators
  let (queue, a) := p.virtQueue.unmapVirtualPage start size a
  let (pagedir, a) := unmapPageRange p.pagedir start a (size / pageSize)
  { p with vmaManager := mgr, virtQueue := queue, pagedir := pagedir, allocators := a }

/-- Run `vfs_map` for a file mapping. -/
def vfsMap (prot : UInt64) : FileMapping → Except Errno Unit × Process
  | .unusable error | .denied error => (.error error, p)
  | .regular readOk =>
    let (pagedir, a) := pageMapRangeToRandom (writablePteFlags (hasFlag prot protExec))
      p.pagedir start p.allocators (size / pageSize)
    (if readOk then .ok () else .error .enomem, { p with pagedir := pagedir, allocators := a })
  | .device map error =>
    let (pagedir, a) := map p.pagedir p.allocators
    (match error with
      | none => .ok ()
      | some error => .error error, { p with pagedir := pagedir, allocators := a })

end

/-- `vma_remove` of the area just inserted. -/
def removeArea (mgr : VmaManager) (vma : Vma) : VmaManager :=
  match focus (· == vma) mgr.vmaList with
  | none => mgr
  | some (before, vma, after) => vmaRemove mgr before vma after

/-- A fixed mapping clears its range first. -/
def prepareRange (fixed : Bool) (start size : Nat) : Process :=
  if fixed then clearRange p start size else p

/-- A mapping that was searched for moves the cursor behind it. -/
def advanceCursor (fixed : Bool) (stop : Nat) : Process :=
  if !fixed && p.mmapStart < stop then { p with mmapStart := stop } else p

/-- The end of `sys_mmap`, with the area inserted: map the file, or hand the range
to the lazy allocator. A failure takes the area out again. -/
def mmapFill (vma : Vma) (start size : Nat) (prot flags : UInt64)
    (file : FileMapping) : Except Errno Nat × Process :=
  if !hasFlag flags mapAnonymous then
    match vfsMap p start size prot file with
    | (.error error, p) => (.error error, { p with vmaManager := removeArea p.vmaManager vma })
    | (.ok (), p) => (.ok start, p)
  else
    match lazyInfoalloc p start size (mmapPteFlags prot) flags with
    | (true, p) => (.ok start, p)
    | (false, p) =>
      let (_, mgr, a) := vmaUnmapRange p.vmaManager start (start + size) p.allocators
      (.error .enomem, { p with vmaManager := mgr, allocators := a })

/-- `sys_mmap` once the place is known. -/
def mmapAt (start size : Nat) (prot flags : UInt64) (fd : Int) (offset : UInt64)
    (file : FileMapping) : Except Errno Nat × Process :=
  let fixed := hasFlag flags mapFixed
  let a := p.allocators.malloc.2
  if !p.allocators.malloc.1 then (.error .enomem, { p with allocators := a })
  else
    let p := prepareRange { p with allocators := a } fixed start size
    let vma := mmapArea start size prot flags fd offset
    match vmaInsert p.vmaManager vma with
    | none => (.error .enomem, p)
    | some mgr =>
      mmapFill (advanceCursor { p with vmaManager := mgr } fixed (start + size)) vma start size
        prot flags file

def sysMmap (addr length prot flags : UInt64) (fd : Int) (offset : UInt64)
    (file : FileMapping) : Except Errno Nat × Process :=
  let addr := pageDown addr.toNat
  match alignUp length.toNat with
  | none => (.error .einval, p)
  | some size =>
    if checkUserOverflow addr size then (.error .efault, p)
    else if size = 0 then (.error .einval, p)
    else
      match mmapPlace p addr size (hasFlag flags mapFixed) with
      | (.error error, p) => (.error error, p)
      | (.ok start, p) =>
        match file, hasFlag flags mapAnonymous with
        | .unusable error, false => (.error error, p)
        | _, _ => mmapAt p start size prot flags fd offset file

end

def heapFlags : VmaFlags := { read := true, write := true, anon := true }

/-- The test of `heap_vma_at_end`. -/
def Vma.isHeapEnd (vma : Vma) (stop : Nat) : Bool :=
  vma.vmEnd == stop && vma.vmType == .anon && vma.vmName == some "[heap]" &&
    vma.vmFlags.read && vma.vmFlags.write && vma.vmFlags.anon

section

variable (p : Process)

def heapGrowthRangeAvailable (start stop : Nat) : Bool :=
  (vmaFindIntersection p.vmaManager start stop).isNone &&
    !mappedPageIntersects p.pagedir start ((stop - start) / pageSize)

/-- `heap_insert_range`: extend the heap area that ends here, or insert one. -/
def heapInsertRange (start stop : Nat) : Bool × Process :=
  match focus (Vma.isHeapEnd · start) p.vmaManager.vmaList with
  | some (before, tail, after) =>
    (true, { p with
      vmaManager :=
        { vmaList := before ++ { tail with vmEnd := stop } :: after
          vmUsed := p.vmaManager.vmUsed + UInt64.ofNat (stop - start) } })
  | none =>
    let (ok, a) := p.allocators.malloc
    if !ok then (false, { p with allocators := a })
    else
      let (name, a) := a.strdup (some "[heap]")
      let p := { p with allocators := a }
      if name.isNone then (false, p)
      else
        match vmaInsert p.vmaManager
          { vmStart := start, vmEnd := stop, vmFlags := heapFlags, vmName := name } with
        | none => (false, p)
        | some mgr => (true, { p with vmaManager := mgr })

/-- The end of the mapped heap for a program break. -/
def heapMapEnd (brk : Nat) : Option Nat :=
  if userBrkStart < brk then alignUp brk else some userBrkStart

/-- The page flags of the heap. -/
def heapPteFlags : UInt64 := pteUser ||| ptePresent ||| pteWriteable ||| pteNoExecute

/-- `sys_brk` returns the program break, which is unchanged where it fails. -/
def sysBrk (brk : UInt64) : Process :=
  let brk := brk.toNat
  if brk = 0 || brk < userBrkStart || userBrkEnd < brk || brk == p.brkCurrent then p
  else
    match heapMapEnd p.brkCurrent, heapMapEnd brk with
    | some old, some new =>
      if old < new then
        if !heapGrowthRangeAvailable p old new then p
        else
          match heapInsertRange p old new with
          | (false, p) => p
          | (true, p) =>
            match lazyInfoalloc p old (new - old) heapPteFlags 0 with
            | (true, p) => { p with brkCurrent := brk }
            | (false, p) =>
              let (_, mgr, a) := vmaUnmapRange p.vmaManager old new p.allocators
              { p with vmaManager := mgr, allocators := a }
      else if new < old then { clearRange p new (old - new) with brkCurrent := brk }
      else { p with brkCurrent := brk }
    | _, _ => p

end

/-- Map fresh frames over `count` pages; on failure the pages mapped so far are
unmapped again. -/
def mapFrames (flags : UInt64) (start : Nat) (table : PageDirectory) (a : Allocators) :
    Nat → Bool × PageDirectory × Allocators
  | 0 => (true, table, a)
  | count + 1 =>
    match mapFrames flags start table a count with
    | (false, table, a) => (false, table, a)
    | (true, table, a) =>
      let (frame, a) := a.allocFrames 1
      if frame = 0 then
        let (table, a) := unmapPageRange table start a count
        (false, table, a)
      else
        let (table, a) := pageMapTo frame (flags ||| pteFrameAllocated) 3 table
          (start + count * pageSize) a
        (true, table, a)

section

variable (p : Process)

/-- Where a moving `sys_mremap` goes. -/
def mremapPlace (newAddr size : Nat) (fixed : Bool) : Except Errno Nat :=
  if fixed then
    if newAddr = 0 || checkUserOverflow newAddr size then .error .einval
    else if newAddr < userMmapStart || userBrkStart ≤ newAddr || userBrkStart - newAddr < size then
      .error .enomem
    else if (vmaFindIntersection p.vmaManager newAddr (newAddr + size)).isSome then .error .enomem
    else .ok newAddr
  else
    let start := findUserMmapRange p userMmapStart size
    if start = 0 then .error .enomem else .ok start

/-- The moving branch of `sys_mremap`. -/
def mremapMove (vma : Vma) (oldAddr oldSize : UInt64) (start size : Nat) :
    Except Errno Nat × Process :=
  let (ok, a) := p.allocators.malloc
  if !ok then (.error .enomem, { p with allocators := a })
  else
    let (name, a) := a.strdup vma.vmName
    let p := { p with allocators := a }
    if vma.vmName.isSome && name.isNone then (.error .enomem, p)
    else
      let moved := { vma with vmStart := start, vmEnd := start + size, vmName := name }
      match vmaInsert p.vmaManager moved with
      | none => (.error .enomem, p)
      | some mgr =>
        match mapFrames (writablePteFlags vma.vmFlags.exec) start p.pagedir p.allocators
          (size / pageSize) with
        | (false, pagedir, a) =>
          (.error .enomem,
            { p with
              vmaManager := removeArea mgr moved
              pagedir := pagedir
              allocators := a })
        | (true, pagedir, a) =>
          -- The result of the final `sys_munmap` is ignored.
          let p := { p with vmaManager := mgr, pagedir := pagedir, allocators := a }
          (.ok start, (sysMunmap p oldAddr oldSize).2)

def sysMremap (oldAddr oldSize newSize flags newAddr : UInt64) : Except Errno Nat × Process :=
  let old := pageDown oldAddr.toNat
  let new := pageDown newAddr.toNat
  match alignUp oldSize.toNat, alignUp newSize.toNat with
  | some oldSize, some size =>
    if checkUserOverflow old oldSize || checkUserOverflow new size then (.error .efault, p)
    else
      match vmaFind p.vmaManager old with
      | none => (.error .einval, p)
      | some (before, vma, after) =>
        if vma.vmStart ≠ old then (.error .einval, p)
        else if size ≤ vma.length then
          -- The counter and the queue are not told about the part cut off.
          let stop := vma.vmStart + size
          let (pagedir, a) := unmapPageRange p.pagedir stop p.allocators
            ((vma.vmEnd - stop) / pageSize)
          (.ok old,
            { p with
              vmaManager :=
                { p.vmaManager with vmaList := before ++ { vma with vmEnd := stop } :: after }
              pagedir := pagedir
              allocators := a })
        else if checkUserOverflow vma.vmStart size then (.error .enomem, p)
        else
          let stop := vma.vmStart + size
          if (vmaFindIntersection p.vmaManager vma.vmEnd stop).isNone then
            match mapFrames (writablePteFlags vma.vmFlags.exec) vma.vmEnd p.pagedir
              p.allocators ((stop - vma.vmEnd) / pageSize) with
            | (false, pagedir, a) =>
              (.error .enomem, { p with pagedir := pagedir, allocators := a })
            | (true, pagedir, a) =>
              (.ok old,
                { p with
                  vmaManager :=
                    { vmaList := before ++ { vma with vmEnd := stop } :: after
                      vmUsed := p.vmaManager.vmUsed + UInt64.ofNat (stop - vma.vmEnd) }
                  pagedir := pagedir
                  allocators := a })
          else if hasFlag flags mremapMaymove then
            match mremapPlace p new size (hasFlag flags mremapFixed) with
            | .error error => (.error error, p)
            | .ok start => mremapMove p vma (UInt64.ofNat old) (UInt64.ofNat oldSize) start size
          else (.error .enomem, p)
  | _, _ => (.error .einval, p)

end

end OpenXJ380.Memory
