/-
# Ranges the kernel reserves for a process

`find_free_user_range` of `kernel/memory/page.cpp` and its two callers:
`page_reserve_process_user_range`, which reserves the stacks, and
`page_alloc_random`, which hands mapped buffers to a program. The search looks
at the areas, at the lazily allocated ranges and at the page table.

The callers of `page_alloc_random` pass the directory of the running process, so
the process found for the directory is that process.
-/

import OpenXJ380.Memory.Bookkeeping

namespace OpenXJ380.Memory

open Data

/-- The first of `count` pages that is mapped. -/
def firstMapped (table : PageDirectory) (start : Nat) : Nat → Option Nat
  | 0 => none
  | count + 1 =>
    if translate 3 table start != 0 then some start
    else firstMapped table (start + pageSize) count

/-- One round of the search: nothing where the candidate is free, otherwise the
next candidate. -/
def nextCandidate (p : Process) (candidate length : Nat) : Option Nat :=
  if (vmaFindIntersection p.vmaManager candidate (candidate + length)).isSome then
    some (candidate + pageSize)
  else
    match p.virtQueue.pages.find? (·.meets candidate (candidate + length)) with
    | some page => some (pageDown ((page.stop + pageSize - 1) % 2 ^ 64))
    | none =>
      (firstMapped p.pagedir candidate (length / pageSize)).map fun page => pageDown page + pageSize

/-- The loop of `find_free_user_range`; zero where nothing is free. -/
def freeLoop (p : Process) (length limit : Nat) : Nat → Nat → Nat
  | 0, _ => 0
  | fuel + 1, candidate =>
    if limit < candidate then 0
    else
      match nextCandidate p candidate length with
      | none => candidate
      | some next => freeLoop p length limit fuel next

section

variable (p : Process)

/-- `find_free_user_range`. A round moves on by a page at least, see
`freeLoop_fuel`. -/
def findFreeUserRange (start length : Nat) : Nat :=
  let size := pageAlignUp length
  if length = 0 || size = 0 || userBrkStart ≤ size then 0
  else
    let candidate := if start < userMmapStart then userMmapStart else pageDown start
    let limit := userBrkStart - size
    freeLoop p size limit ((limit - candidate) / pageSize + 1) candidate

/-- The search both callers make: from the cursor on, then from the start. -/
def freeUserRange (size : Nat) : Nat :=
  let start := if userMmapStart ≤ p.mmapStart then p.mmapStart else userMmapStart
  if findFreeUserRange p start size = 0 && start != userMmapStart then
    findFreeUserRange p userMmapStart size
  else findFreeUserRange p start size

/-- `page_reserve_process_user_range`; zero where it fails. -/
def pageReserveProcessUserRange (length : UInt64) : Nat × Process :=
  let size := pageAlignUp length.toNat
  if length = 0 || size = 0 then (0, p)
  else
    let addr := freeUserRange p size
    if addr = 0 then (0, p)
    else
      match lazyInfoalloc { p with mmapStart := addr + size } addr size heapPteFlags 0 with
      | (true, p) => (addr, p)
      | (false, p) => (0, p)

/-- The mapping loop of `page_alloc_random`, over `count` pages of one block. -/
def mapBlock (frame flags : UInt64) (start : Nat) (table : PageDirectory) (a : Allocators) :
    Nat → PageDirectory × Allocators
  | 0 => (table, a)
  | count + 1 =>
    let (table, a) := mapBlock frame flags start table a count
    pageMapTo (frame + UInt64.ofNat (count * pageSize)) (flags ||| pteFrameAllocated) 3 table
      (start + count * pageSize) a

def Allocators.freeFrames (frame : UInt64) (a : Allocators) : Nat → Allocators
  | 0 => a
  | count + 1 => (freeFrames frame a count).freeFrame (frame + UInt64.ofNat (count * pageSize))

/-- `page_alloc_random`; zero where it fails. Without `PTE_USER` the block is
mapped at its physical address. -/
def pageAllocRandom (length flags : UInt64) : Nat × Process :=
  let size := pageAlignUp length.toNat
  if length = 0 || size = 0 then (0, p)
  else
    let count := size / pageSize
    let (frame, a) := p.allocators.allocFrames count
    if frame = 0 then (0, { p with allocators := a })
    else if hasFlag flags pteUser then
      let addr := freeUserRange p size
      if addr = 0 then (0, { p with allocators := a.freeFrames frame count })
      else
        let (pagedir, a) := mapBlock frame flags addr p.pagedir a count
        (addr, { p with mmapStart := addr + size, pagedir := pagedir, allocators := a })
    else
      let (pagedir, a) := mapBlock frame flags frame.toNat p.pagedir a count
      (frame.toNat, { p with pagedir := pagedir, allocators := a })

end

variable {table : PageDirectory} {start count : Nat}

theorem mappedPageIntersects_eq_false (h : mappedPageIntersects table start count = false) :
    ∀ i < count, translate 3 table (start + i * pageSize) = 0 := by
  induction count generalizing start with
  | zero => simp
  | succ count ih =>
    rw [mappedPageIntersects, Bool.or_eq_false_iff] at h
    intro i hi
    cases i with
    | zero => simpa using h.1
    | succ i =>
      have hnext := ih h.2 i (Nat.lt_of_succ_lt_succ hi)
      rwa [Nat.add_assoc, Nat.add_comm pageSize, ← Nat.succ_mul] at hnext

theorem translate_of_unmapped {size page : Nat} (hstart : pageSize ∣ start)
    (hsize : pageSize ∣ size) (h : mappedPageIntersects table start (size / pageSize) = false)
    (hpage : pageSize ∣ page) (hlow : start ≤ page) (hhigh : page < start + size) :
    translate 3 table page = 0 := by
  have hoffset : start + (page - start) / pageSize * pageSize = page := by
    rw [Nat.div_mul_cancel (Nat.dvd_sub hpage hstart)]
    omega
  rw [← hoffset]
  apply mappedPageIntersects_eq_false h
  apply Nat.div_lt_div_of_lt_of_dvd hsize
  omega

theorem firstMapped_eq_none :
    firstMapped table start count = none ↔ mappedPageIntersects table start count = false := by
  induction count generalizing start with
  | zero => simp [firstMapped, mappedPageIntersects]
  | succ count ih =>
    rw [firstMapped, mappedPageIntersects, Bool.or_eq_false_iff, ← ih]
    split <;> simp_all

theorem le_firstMapped {page : Nat} (h : firstMapped table start count = some page) :
    start ≤ page := by
  induction count generalizing start with
  | zero => simp [firstMapped] at h
  | succ count ih =>
    rw [firstMapped] at h
    split at h
    · cases h
      exact le_rfl
    · exact Nat.le_trans (Nat.le_add_right _ _) (ih h)

section Search

variable {p : Process} {length limit : Nat} {candidate : Nat}

/-- A candidate that ends the search is free of areas, lazily allocated ranges and
mapped pages. -/
theorem nextCandidate_eq_none (h : nextCandidate p candidate length = none) :
    vmaFindIntersection p.vmaManager candidate (candidate + length) = none ∧
      (∀ page ∈ p.virtQueue.pages, page.meets candidate (candidate + length) = false) ∧
      mappedPageIntersects p.pagedir candidate (length / pageSize) = false := by
  rw [nextCandidate] at h
  split at h
  · simp at h
  rename_i hareas
  split at h
  · simp at h
  rename_i hqueue
  rw [Option.map_eq_none_iff] at h
  refine ⟨by simpa using hareas, fun page hpage => ?_, firstMapped_eq_none.mp h⟩
  simpa using List.find?_eq_none.mp hqueue page hpage

variable (hqueue : p.virtQueue.WellFormed)
include hqueue

/-- Every round moves on by a page at least. -/
theorem nextCandidate_eq_some {next : Nat}
    (hcandidate : pageSize ∣ candidate) (h : nextCandidate p candidate length = some next) :
    pageSize ∣ next ∧ candidate + pageSize ≤ next := by
  rw [nextCandidate] at h
  split at h
  · cases h
    exact ⟨Nat.dvd_add hcandidate (Nat.dvd_refl _), le_rfl⟩
  split at h
  · rename_i page hfind
    cases h
    have hfits := hqueue.fits (List.mem_of_find?_eq_some hfind)
    have hmeets := List.find?_some hfind
    rcases (VirtQueue.meets_iff hfits).mp hmeets with ⟨hstop, -⟩
    refine ⟨pageDown_dvd _, ?_⟩
    -- The entry ends at a page boundary, so rounding up leaves its end alone.
    rcases hfits.dvd_end with ⟨n, hn⟩
    rcases hcandidate with ⟨m, rfl⟩
    have hbound := hfits.2
    rw [VirtQueue.stop_eq hfits]
    simp only [pageDown, pageSize] at *
    omega
  · rw [Option.map_eq_some_iff] at h
    rcases h with ⟨page, hpage, rfl⟩
    have hle := le_firstMapped hpage
    refine ⟨Nat.dvd_add (pageDown_dvd _) (Nat.dvd_refl _), ?_⟩
    rcases hcandidate with ⟨m, rfl⟩
    simp only [pageDown, pageSize] at *
    omega

/-- A range the loop returns starts at a page, ends before the limit and is free. -/
theorem freeLoop_spec {fuel : Nat}
    (hcandidate : pageSize ∣ candidate) (hfound : freeLoop p length limit fuel candidate ≠ 0) :
    pageSize ∣ freeLoop p length limit fuel candidate ∧
      freeLoop p length limit fuel candidate ≤ limit ∧
      nextCandidate p (freeLoop p length limit fuel candidate) length = none := by
  induction fuel generalizing candidate with
  | zero => exact absurd rfl hfound
  | succ fuel ih =>
    rw [freeLoop] at hfound ⊢
    split at hfound
    · exact absurd rfl hfound
    rename_i hlimit
    rw [if_neg hlimit]
    split at hfound
    · rename_i hfree
      exact ⟨hcandidate, Nat.not_lt.mp hlimit, hfree⟩
    · rename_i next hnext
      exact ih (nextCandidate_eq_some hqueue hcandidate hnext).1 hfound

theorem findFreeUserRange_spec {start : Nat} (hfound : findFreeUserRange p start length ≠ 0) :
    pageSize ∣ findFreeUserRange p start length ∧
      findFreeUserRange p start length + pageAlignUp length ≤ userBrkStart ∧
      nextCandidate p (findFreeUserRange p start length) (pageAlignUp length) = none := by
  rw [findFreeUserRange] at hfound ⊢
  dsimp only at hfound ⊢
  have hstart : pageSize ∣ if start < userMmapStart then userMmapStart else pageDown start := by
    split
    · decide
    · exact pageDown_dvd start
  generalize (if start < userMmapStart then userMmapStart else pageDown start) = candidate at *
  split at hfound
  · exact absurd rfl hfound
  rename_i hfits
  rw [if_neg hfits]
  rcases freeLoop_spec hqueue hstart hfound with ⟨hdvd, hle, hfree⟩
  exact ⟨hdvd, by omega, hfree⟩

theorem freeUserRange_spec {size : Nat} (hfound : freeUserRange p size ≠ 0) :
    pageSize ∣ freeUserRange p size ∧ freeUserRange p size + pageAlignUp size ≤ userBrkStart ∧
      nextCandidate p (freeUserRange p size) (pageAlignUp size) = none := by
  rw [freeUserRange] at hfound ⊢
  generalize (if userMmapStart ≤ p.mmapStart then p.mmapStart else userMmapStart) = start at *
  split at hfound
  · rename_i hagain
    rw [if_pos hagain]
    exact findFreeUserRange_spec hqueue hfound
  · rename_i hfirst
    rw [if_neg hfirst]
    exact findFreeUserRange_spec hqueue hfound

end Search

end OpenXJ380.Memory
