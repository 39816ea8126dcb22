/-
# Runs of the memory calls

The books of a process balance after every sequence of the five memory calls in
which no `sys_mremap` shrinks an area. No assumption is made on the allocators:
every call undoes what it could not finish.

A shrinking `sys_mremap` cuts the area but tells neither the counter nor the
queue, so after it the counter is too large and pages may be promised that no
area contains.
-/

import OpenXJ380.Memory.Bookkeeping

namespace OpenXJ380.Memory

open Data Protocol

section Calls

variable {foreign : Nat → Prop} {p : Process}

variable {start stop size found : Nat} {vma : Vma} {prot flags offset : UInt64} {file : FileMapping}
  {fd : Int}

/-- Mapping more heap keeps the books, and maps every page of the growth. -/
theorem Process.Balanced.heapInsertRange (h : p.Balanced foreign) (hrange : start < stop)
    (hend : stop ≤ kernelAreaMem)
    (hfree : ∀ other ∈ p.vmaManager.vmaList, stop ≤ other.vmStart ∨ other.vmEnd ≤ start) :
    (heapInsertRange p start stop).2.Balanced foreign ∧
      (heapInsertRange p start stop).2.virtQueue = p.virtQueue ∧
      ((Memory.heapInsertRange p start stop).1 = true → ∀ page, start ≤ page →
        page + pageSize ≤ stop →
          PageMapped (Memory.heapInsertRange p start stop).2.vmaManager.vmaList page) := by
  rw [Memory.heapInsertRange]
  split
  · rename_i before tail after hfocus
    rcases focus_eq_some hfocus with ⟨hlist, htest, -⟩
    have htail : tail.vmEnd = start := by
      simp only [Vma.isHeapEnd, Bool.and_eq_true, beq_iff_eq] at htest
      exact htest.1.1.1.1.1
    subst htail
    have htailBelow : tail.vmStart ≤ tail.vmEnd := (h.sorted.nonempty tail (by rw [hlist]; simp)).le
    refine ⟨Books.grow h hlist hrange hend hfree, rfl, fun _ page hlow hhigh => ?_⟩
    exact ⟨_, List.mem_append_right _ List.mem_cons_self, htailBelow.trans hlow, hhigh⟩
  · dsimp only
    split
    · exact ⟨h, rfl, by simp⟩
    split
    · exact ⟨h, rfl, by simp⟩
    · split
      · exact ⟨h, rfl, by simp⟩
      · rename_i mgr hinsert
        refine ⟨Books.insert h hinsert hrange hend, rfl, fun _ page hlow hhigh => ?_⟩
        exact pageMapped_insert hinsert hlow hhigh

variable {brk : Nat} {oldAddr oldSize length : UInt64}

theorem heapMapEnd_dvd (h : heapMapEnd brk = some stop) : pageSize ∣ stop := by
  rw [heapMapEnd] at h
  split at h
  · exact alignUp_dvd h
  · cases h
    decide

theorem alignUp_lt_add {value aligned : Nat} (h : alignUp value = some aligned) :
    aligned < value + pageSize := by
  unfold alignUp at h
  split at h
  · simp at h
  · cases h
    simp only [pageDown, pageSize]
    omega

theorem heapMapEnd_le (h : heapMapEnd brk = some stop) (hbrk : brk ≤ userBrkEnd) :
    stop ≤ kernelAreaMem := by
  rw [heapMapEnd] at h
  split at h
  · have := alignUp_lt_add h
    simp only [userBrkEnd, kernelAreaMem, pageSize] at *
    omega
  · cases h
    decide

theorem heapGrowthRangeAvailable_free (h : heapGrowthRangeAvailable p start stop = true) :
    ∀ other ∈ p.vmaManager.vmaList, stop ≤ other.vmStart ∨ other.vmEnd ≤ start := by
  rw [heapGrowthRangeAvailable, Bool.and_eq_true, Option.isNone_iff_eq_none] at h
  exact vmaFindIntersection_eq_none.mp h.1

theorem brkCurrent_heapInsertRange (p : Process) (start stop : Nat) :
    (heapInsertRange p start stop).2.brkCurrent = p.brkCurrent := by
  rw [heapInsertRange]
  split
  · rfl
  dsimp only
  split
  · rfl
  · split
    · rfl
    · split <;> rfl

theorem brkCurrent_lazyInfoalloc (p : Process) (vaddr length : Nat) (pageFlags flags : UInt64) :
    (lazyInfoalloc p vaddr length pageFlags flags).2.brkCurrent = p.brkCurrent := by
  rw [lazyInfoalloc]
  split
  · rfl
  · split <;> rfl

theorem Process.Balanced.sysBrk (h : p.Balanced foreign) (hcurrent : p.brkCurrent ≤ userBrkEnd)
    (brk : UInt64) :
    (sysBrk p brk).Balanced foreign ∧ (Memory.sysBrk p brk).brkCurrent ≤ userBrkEnd := by
  rw [Memory.sysBrk]
  split
  · exact ⟨h, hcurrent⟩
  rename_i hrange
  simp only [Bool.or_eq_true, decide_eq_true_eq, not_or, not_lt] at hrange
  have hbrk : brk.toNat ≤ userBrkEnd := hrange.1.2
  split
  · rename_i old new hold hnew
    have holdDvd := heapMapEnd_dvd hold
    have hnewDvd := heapMapEnd_dvd hnew
    have hnewEnd := heapMapEnd_le hnew hbrk
    split
    · rename_i hgrows
      split
      · exact ⟨h, hcurrent⟩
      rename_i havailable
      have hfree := heapGrowthRangeAvailable_free (by simpa using havailable)
      rcases h.heapInsertRange hgrows hnewEnd hfree with ⟨hinserted, hqueue, hmapped⟩
      have hbrkSame := brkCurrent_heapInsertRange p old new
      split
      · rename_i q hinsert
        rw [hinsert] at hinserted hbrkSame
        exact ⟨hinserted, hbrkSame ▸ hcurrent⟩
      · rename_i q hinsert
        rw [hinsert] at hinserted hqueue hmapped hbrkSame
        have hsum : old + (new - old) = new := Nat.add_sub_of_le hgrows.le
        have hlazy := hinserted.lazyInfoalloc holdDvd (Nat.dvd_sub hnewDvd holdDvd)
          (by rw [hsum]; exact hnewEnd)
          (fun page hlow hhigh => hmapped rfl page hlow (by rw [hsum] at hhigh; exact hhigh))
          heapPteFlags 0
        split
        · rename_i r hinfo
          rw [hinfo] at hlazy
          exact ⟨hlazy, hbrk⟩
        · rename_i r hinfo
          have hfail : (Memory.lazyInfoalloc q old (new - old) heapPteFlags 0).1 = false := by
            rw [hinfo]
          have hpromised : ∀ page, Promised r.virtQueue page →
              Promised p.virtQueue page := fun page hpage => by
            rw [← hqueue]
            apply promised_lazyInfoalloc_failed hinserted.wellFormed hfail
            rw [hinfo]
            exact hpage
          have hbrkLazy := brkCurrent_lazyInfoalloc q old (new - old) heapPteFlags 0
          rw [hinfo] at hlazy hbrkLazy
          refine ⟨h.undo hlazy hgrows hfree hpromised r.allocators, ?_⟩
          exact (hbrkLazy.trans hbrkSame).trans_le hcurrent
    · split
      · rename_i hshrinks
        have hsum : new + (old - new) = old := Nat.add_sub_of_le hshrinks.le
        exact ⟨h.clearRange hnewDvd (Nat.dvd_sub holdDvd hnewDvd) (by omega)
          (by rw [hsum]; exact heapMapEnd_le hold hcurrent), hbrk⟩
      · exact ⟨h, hbrk⟩
  · exact ⟨h, hcurrent⟩

/-- The call resizes the area it names to at least its length. -/
def MremapKeeps (p : Process) (oldAddr newSize : UInt64) : Prop :=
  ∀ before vma after size, vmaFind p.vmaManager (pageDown oldAddr.toNat) =
    some (before, vma, after) → vma.vmStart = pageDown oldAddr.toNat →
      alignUp newSize.toNat = some size → vma.length ≤ size

theorem Process.Balanced.mremapMove (h : p.Balanced foreign) (hpos : 0 < size)
    (hend : start + size ≤ kernelAreaMem) :
    (mremapMove p vma oldAddr oldSize start size).2.Balanced foreign := by
  rw [Memory.mremapMove]
  dsimp only
  iterate 3
    split
    · exact h
  rename_i mgr hinsert
  have hvma : start < start + size := by omega
  split
  · rw [removeArea_insert hinsert hvma]
    exact h
  · rename_i pagedir a hframes
    have hinserted : Books foreign mgr p.virtQueue := Books.insert h hinsert hvma hend
    exact Process.Balanced.sysMunmap
      (p := { p with vmaManager := mgr, pagedir := pagedir, allocators := a }) hinserted _ _

theorem mremapMove_ok (h : (mremapMove p vma oldAddr oldSize start size).1 = .ok found) :
    found = start := by
  rw [mremapMove] at h
  dsimp only at h
  iterate 4
    split at h
    · simp at h
  · cases h
    rfl

/-- A moved area goes to a range of user pages. -/
theorem mremapPlace_spec {newAddr : Nat} {fixed : Bool} (hnew : pageSize ∣ newAddr)
    (h : mremapPlace p newAddr size fixed = .ok start) :
    pageSize ∣ start ∧ start + size ≤ userBrkStart := by
  rw [mremapPlace] at h
  split at h
  · split at h
    · simp at h
    split at h
    · simp at h
    rename_i hwindow
    split at h
    · simp at h
    · cases h
      simp only [Bool.or_eq_true, decide_eq_true_eq] at hwindow
      exact ⟨hnew, by omega⟩
  · dsimp only at h
    split at h
    · simp at h
    rename_i hfound
    cases h
    rcases findUserMmapRange_spec hfound with ⟨hdvd, hend, -⟩
    exact ⟨hdvd, hend⟩

/-- Resizing keeps the books unless it shrinks the area. -/
theorem Process.Balanced.sysMremap (h : p.Balanced foreign)
    (oldAddr oldSize newSize flags newAddr : UInt64) (hkeeps : MremapKeeps p oldAddr newSize) :
    (sysMremap p oldAddr oldSize newSize flags newAddr).2.Balanced foreign := by
  rw [Memory.sysMremap]
  dsimp only
  split
  · rename_i oldLength size holdLength hsize
    split
    · exact h
    split
    · exact h
    rename_i before vma after hfind
    rcases focus_eq_some hfind with ⟨hlist, -, -⟩
    have hvma : vma ∈ p.vmaManager.vmaList := by rw [hlist]; simp
    have hnonempty := h.sorted.nonempty vma hvma
    split
    · exact h
    rename_i hstart
    have hlength := hkeeps before vma after size hfind (by simpa using hstart) hsize
    split
    · -- The area keeps its length, so nothing is cut off.
      rename_i hshrinks
      have hsame : vma.vmStart + size = vma.vmEnd := by
        simp only [Vma.length] at hlength hshrinks
        omega
      have harea : ({ vma with vmEnd := vma.vmStart + size } : Vma) = vma := by rw [hsame]
      rw [harea, ← hlist]
      exact h
    · rename_i hgrows
      have hpos : 0 < size := by omega
      split
      · exact h
      rename_i hoverflow
      have hend := range_le (by simpa using hoverflow) hpos
      have hstop : vma.vmEnd < vma.vmStart + size := by
        simp only [Vma.length] at hgrows
        omega
      split
      · rename_i hfree
        rw [Option.isNone_iff_eq_none, vmaFindIntersection_eq_none] at hfree
        split
        · exact h
        · exact Books.grow h hlist hstop hend hfree
      · split
        · split
          · exact h
          · rename_i start hplace
            exact h.mremapMove hpos
              (Nat.le_trans (mremapPlace_spec (pageDown_dvd _) hplace).2 (by decide))
        · exact h
  · exact h

theorem mmapFill_ok (h : (mmapFill p vma start size prot flags file).1 = .ok found) :
    found = start ∧ (mmapFill p vma start size prot flags file).2.vmaManager = p.vmaManager := by
  rw [mmapFill] at h ⊢
  split at h
  · rename_i hfile
    rw [if_pos hfile]
    have hstate := (vfsMap_state (p := p) start size prot file).1
    split at h
    · simp at h
    rename_i q hmap
    rw [hmap] at hstate
    cases h
    exact ⟨rfl, hstate⟩
  · rename_i hanon
    rw [if_neg hanon]
    have hstate := vmaManager_lazyInfoalloc (p := p) start size (mmapPteFlags prot) flags
    split at h
    · rename_i q hinfo
      rw [hinfo] at hstate
      cases h
      exact ⟨rfl, hstate⟩
    · simp at h

theorem mmapAt_mapped (h : (mmapAt p start size prot flags fd offset file).1 = .ok found) :
    found = start ∧ ∀ page, start ≤ page → page + pageSize ≤ start + size →
      PageMapped (mmapAt p start size prot flags fd offset file).2.vmaManager.vmaList page := by
  rw [mmapAt] at h ⊢
  dsimp only at h ⊢
  split at h
  · simp at h
  rename_i hmalloc
  rw [if_neg hmalloc]
  split at h
  · simp at h
  rename_i mgr hinsert
  rcases mmapFill_ok h with ⟨rfl, hmgr⟩
  refine ⟨rfl, fun page hlow hhigh => ?_⟩
  rw [hmgr, (advanceCursor_state _ _ _).1]
  exact pageMapped_insert hinsert hlow hhigh

/-- A successful `sys_mmap` has found a place and maps there. -/
theorem sysMmap_ok {addr : UInt64}
    (h : (sysMmap p addr length prot flags fd offset file).1 = .ok start)
    (hsize : alignUp length.toNat = some size) :
    0 < size ∧ ∃ q, mmapPlace p (pageDown addr.toNat) size (hasFlag flags mapFixed) =
        (.ok start, q) ∧
      sysMmap p addr length prot flags fd offset file =
        mmapAt q start size prot flags fd offset file := by
  rw [sysMmap] at h ⊢
  simp only [hsize] at h ⊢
  split at h
  · simp at h
  rename_i hrange
  rw [if_neg hrange]
  split at h
  · simp at h
  rename_i hzero
  rw [if_neg hzero]
  split at h
  · simp at h
  rename_i found q hplace
  split at h
  · simp at h
  · rw [(mmapAt_mapped h).1]
    exact ⟨Nat.pos_of_ne_zero hzero, q, hplace, rfl⟩

/-- A successful `sys_mmap` has an area around every page of its range. -/
theorem sysMmap_mapped {addr : UInt64}
    (h : (sysMmap p addr length prot flags fd offset file).1 = .ok start)
    (hsize : alignUp length.toNat = some size) :
    ∀ page, start ≤ page → page + pageSize ≤ start + size →
      PageMapped (sysMmap p addr length prot flags fd offset file).2.vmaManager.vmaList page := by
  rcases sysMmap_ok h hsize with ⟨-, q, -, heq⟩
  rw [heq] at h ⊢
  exact (mmapAt_mapped h).2

/-- A `sys_brk` that moved the program break has an area around every page of the
growth. -/
theorem sysBrk_mapped (h : p.Balanced foreign) {brk : UInt64} {old new : Nat}
    (hold : heapMapEnd p.brkCurrent = some old) (hnew : heapMapEnd brk.toNat = some new)
    (hmoved : (sysBrk p brk).brkCurrent = brk.toNat) (hchanged : brk.toNat ≠ p.brkCurrent) :
    ∀ page, old ≤ page → page + pageSize ≤ new →
      PageMapped (sysBrk p brk).vmaManager.vmaList page := by
  intro page hlow hhigh
  have hgrows : old < new := by
    have : 0 < pageSize := by decide
    omega
  rw [sysBrk] at hmoved ⊢
  simp only [hold, hnew, if_pos hgrows] at hmoved ⊢
  split at hmoved
  · exact absurd hmoved.symm hchanged
  rename_i hrange
  rw [if_neg hrange]
  simp only [Bool.or_eq_true, decide_eq_true_eq, not_or, not_lt] at hrange
  split at hmoved
  · exact absurd hmoved.symm hchanged
  rename_i havailable
  rw [if_neg havailable]
  have hfree := heapGrowthRangeAvailable_free (by simpa using havailable)
  rcases h.heapInsertRange hgrows (heapMapEnd_le hnew hrange.1.2) hfree with
    ⟨-, -, hmapped⟩
  have hbrkSame := brkCurrent_heapInsertRange p old new
  split at hmoved
  · rename_i q hinsert
    rw [hinsert] at hbrkSame
    exact absurd (hmoved.symm.trans hbrkSame) hchanged
  · rename_i q hinsert
    rw [hinsert] at hbrkSame hmapped
    have hlazyMgr := vmaManager_lazyInfoalloc (p := q) old (new - old) heapPteFlags 0
    have hlazyBrk := brkCurrent_lazyInfoalloc q old (new - old) heapPteFlags 0
    split at hmoved
    · rename_i r hinfo
      rw [hinfo] at hlazyMgr
      rw [show r.vmaManager = q.vmaManager from hlazyMgr]
      exact hmapped rfl page hlow hhigh
    · rename_i r hinfo
      rw [hinfo] at hlazyBrk
      exact absurd (hmoved.symm.trans (hlazyBrk.trans hbrkSame)) hchanged

end Calls

/-- A memory system call with its arguments. -/
inductive MemoryCall
  | mmap (addr length prot flags : UInt64) (fd : Int) (offset : UInt64) (file : FileMapping)
  | munmap (addr size : UInt64)
  | mprotect (addr length prot : UInt64)
  | mremap (oldAddr oldSize newSize flags newAddr : UInt64)
  | brk (newBrk : UInt64)

def MemoryCall.execute (p : Process) : MemoryCall → Process
  | .mmap addr length prot flags fd offset file =>
    (sysMmap p addr length prot flags fd offset file).2
  | .munmap addr size => (sysMunmap p addr size).2
  | .mprotect addr length prot => (sysMprotect p addr length prot).2
  | .mremap oldAddr oldSize newSize flags newAddr =>
    (sysMremap p oldAddr oldSize newSize flags newAddr).2
  | .brk newBrk => sysBrk p newBrk

/-- The pages a call of `sys_mmap` or `sys_brk` creates. -/
def MemoryCall.Creates (p : Process) (page : Nat) : MemoryCall → Prop
  | .mmap addr length prot flags fd offset file =>
    ∃ start size, (sysMmap p addr length prot flags fd offset file).1 = .ok start ∧
      alignUp length.toNat = some size ∧ start ≤ page ∧ page + pageSize ≤ start + size
  | .brk newBrk =>
    ∃ old new, heapMapEnd p.brkCurrent = some old ∧ heapMapEnd newBrk.toNat = some new ∧
      (sysBrk p newBrk).brkCurrent = newBrk.toNat ∧ newBrk.toNat ≠ p.brkCurrent ∧ old ≤ page ∧
      page + pageSize ≤ new
  | _ => False

/-- A process together with the pages that others than `sys_mmap` and `sys_brk`
have promised. -/
structure Ledger where
  process : Process
  foreign : Nat → Prop

def Ledger.step (ledger : Ledger) (call : MemoryCall) : Ledger where
  process := call.execute ledger.process
  foreign page := ledger.foreign page ∧ ¬call.Creates ledger.process page

/-- The mapping area and the heap area. -/
def InUserArea (page : Nat) : Prop := userMmapStart ≤ page ∧ page < userBrkEnd

/-- The consistency of a process state. -/
structure Ledger.Consistent (ledger : Ledger) : Prop where
  sorted : VmaSorted ledger.process.vmaManager.vmaList
  used : ledger.process.vmaManager.vmUsed.toNat = vmaBytes ledger.process.vmaManager.vmaList
  promised : ∀ page, pageSize ∣ page → InUserArea page →
    Promised ledger.process.virtQueue page → ¬ledger.foreign page →
      PageMapped ledger.process.vmaManager.vmaList page

/-- What every process state satisfies: areas end in user space, the queue is well
formed and the program break is inside the heap area. -/
structure Process.WellFormed (p : Process) : Prop where
  bounded : ∀ vma ∈ p.vmaManager.vmaList, vma.vmEnd ≤ kernelAreaMem
  queue : p.virtQueue.WellFormed
  brk : p.brkCurrent ≤ userBrkEnd

/-- A call that does not shrink an area with `sys_mremap`. -/
def MemoryCall.Keeps (ledger : Ledger) : MemoryCall → Prop
  | .mremap oldAddr _ newSize _ _ => MremapKeeps ledger.process oldAddr newSize
  | _ => True

/-- Disjoint areas inside an interval have no more bytes than it. -/
theorem vmaBytes_le {list : List Vma} (h : VmaSorted list) {low high : Nat} (hle : low ≤ high)
    (hlow : ∀ vma ∈ list, low ≤ vma.vmStart) (hhigh : ∀ vma ∈ list, vma.vmEnd ≤ high) :
    vmaBytes list ≤ high - low := by
  induction list generalizing low with
  | nil => simp
  | cons vma rest ih =>
    rcases vmaSorted_cons.mp h with ⟨hvma, hnext, hrest⟩
    have hfirst := hlow vma (by simp)
    have hlast := hhigh vma (by simp)
    have := ih hrest hlast hnext fun next hn => hhigh next (by simp [hn])
    rw [vmaBytes_cons, Vma.length]
    omega

/-- The invariant of a run. -/
def Ledger.Sound (ledger : Ledger) : Prop :=
  ledger.process.Balanced (fun page => ledger.foreign page ∨ ¬InUserArea page) ∧
    ledger.process.brkCurrent ≤ userBrkEnd

variable {ledger : Ledger}

theorem Ledger.Sound.consistent (h : ledger.Sound) : ledger.Consistent where
  sorted := h.1.sorted
  used := by
    have hbytes := vmaBytes_le h.1.sorted (Nat.zero_le kernelAreaMem)
      (fun _ _ => Nat.zero_le _) h.1.bounded
    rw [h.1.used, UInt64.toNat_ofNat']
    apply Nat.mod_eq_of_lt
    simp only [kernelAreaMem] at hbytes
    omega
  promised page hdvd harea hpage hown := by
    rcases h.1.promised page hdvd hpage with hmapped | hforeign | hout
    · exact hmapped
    · exact absurd hforeign hown
    · exact absurd harea hout

theorem Ledger.Consistent.sound (h : ledger.Consistent) (hwf : ledger.process.WellFormed) :
    ledger.Sound :=
  ⟨{ sorted := h.sorted
     used := by rw [← h.used, UInt64.ofNat_toNat]
     bounded := hwf.bounded
     wellFormed := hwf.queue
     promised := fun page hdvd hpage => by
      by_cases harea : InUserArea page
      · by_cases hforeign : ledger.foreign page
        · exact .inr (.inl hforeign)
        · exact .inl (h.promised page hdvd harea hpage hforeign)
      · exact .inr (.inr harea) }, hwf.brk⟩

variable (p : Process) (addr : UInt64)

/-- Only `sys_brk` moves the program break. -/
theorem brkCurrent_sysMunmap (size : UInt64) :
    (sysMunmap p addr size).2.brkCurrent = p.brkCurrent := by
  rw [sysMunmap]
  split
  · rfl
  dsimp only
  split
  · rfl
  · split
    · rfl
    · split <;> rfl

theorem brkCurrent_sysMprotect (length prot : UInt64) :
    (sysMprotect p addr length prot).2.brkCurrent = p.brkCurrent := by
  rw [sysMprotect]
  split
  · rfl
  dsimp only
  split
  · rfl
  · split
    · rfl
    · split <;> rfl

theorem brkCurrent_mmapFill (vma : Vma) (start size : Nat) (prot flags : UInt64)
    (file : FileMapping) : (mmapFill p vma start size prot flags file).2.brkCurrent =
      p.brkCurrent := by
  have hfile : (vfsMap p start size prot file).2.brkCurrent = p.brkCurrent := by cases file <;> rfl
  have hlazy := brkCurrent_lazyInfoalloc p start size (mmapPteFlags prot) flags
  rw [mmapFill]
  split
  · split
    · rename_i hmap
      rw [hmap] at hfile
      exact hfile
    · rename_i hmap
      rw [hmap] at hfile
      exact hfile
  · split
    · rename_i hinfo
      rw [hinfo] at hlazy
      exact hlazy
    · rename_i hinfo
      rw [hinfo] at hlazy
      exact hlazy

theorem brkCurrent_mmapAt (start size : Nat) (prot flags : UInt64) (fd : Int) (offset : UInt64)
    (file : FileMapping) :
    (mmapAt p start size prot flags fd offset file).2.brkCurrent = p.brkCurrent := by
  have hprepared : (prepareRange { p with allocators := p.allocators.malloc.2 }
      (hasFlag flags mapFixed) start size).brkCurrent = p.brkCurrent := by
    rw [prepareRange]
    split <;> rfl
  rw [mmapAt]
  dsimp only
  split
  · rfl
  split
  · exact hprepared
  · rw [brkCurrent_mmapFill, advanceCursor]
    split
    all_goals exact hprepared

theorem brkCurrent_sysMmap (length prot flags : UInt64) (fd : Int) (offset : UInt64)
    (file : FileMapping) :
    (sysMmap p addr length prot flags fd offset file).2.brkCurrent = p.brkCurrent := by
  have hplace : ∀ size, (mmapPlace p (pageDown addr.toNat) size
      (hasFlag flags mapFixed)).2.brkCurrent = p.brkCurrent := fun size => by
    rw [mmapPlace]
    split
    · rfl
    · show (resetCursor p).brkCurrent = p.brkCurrent
      rw [resetCursor]
      split <;> rfl
  rw [sysMmap]
  split
  · rfl
  rename_i size hsize
  have := hplace size
  split
  · rfl
  split
  · rfl
  split
  · rename_i hfound
    rw [hfound] at this
    exact this
  · rename_i hfound
    rw [hfound] at this
    split
    · exact this
    · rw [brkCurrent_mmapAt]
      exact this

theorem brkCurrent_sysMremap (oldAddr oldSize newSize flags newAddr : UInt64) :
    (sysMremap p oldAddr oldSize newSize flags newAddr).2.brkCurrent = p.brkCurrent := by
  have hmove : ∀ vma old length start size,
      (mremapMove p vma old length start size).2.brkCurrent = p.brkCurrent :=
    fun vma old length start size => by
      rw [mremapMove]
      dsimp only
      split
      · rfl
      split
      · rfl
      · split
        · rfl
        · split
          · rfl
          · exact brkCurrent_sysMunmap _ _ _
  rw [sysMremap]
  dsimp only
  split
  · split
    · rfl
    iterate 4
      split
      · rfl
    split
    · split <;> rfl
    · split
      · split
        · rfl
        · exact hmove _ _ _ _ _
      · rfl
  · rfl

/-- Pages that have an area need not be foreign. -/
theorem Books.own {foreign created : Nat → Prop} {mgr : VmaManager} {queue : VirtQueue}
    (h : Books (fun page => foreign page ∨ ¬InUserArea page) mgr queue)
    (hcreated : ∀ page, created page → PageMapped mgr.vmaList page) :
    Books (fun page => (foreign page ∧ ¬created page) ∨ ¬InUserArea page) mgr queue :=
  { h with
    promised := fun page hdvd hpage => by
      by_cases hown : created page
      · exact .inl (hcreated page hown)
      · exact (h.promised page hdvd hpage).imp id fun hor => hor.imp (⟨·, hown⟩) id }

/-- One call preserves the invariant, unless it shrinks an area. -/
theorem Ledger.Sound.step {ledger : Ledger} (h : ledger.Sound) {call : MemoryCall}
    (hkeeps : call.Keeps ledger) : (ledger.step call).Sound := by
  rcases h with ⟨hbooks, hbrk⟩
  cases call with
  | mmap addr length prot flags fd offset file =>
    refine ⟨(hbooks.sysMmap addr length prot flags fd offset file).own ?_, ?_⟩
    · rintro page ⟨start, size, hok, hsize, hlow, hhigh⟩
      exact sysMmap_mapped hok hsize page hlow hhigh
    · exact (brkCurrent_sysMmap _ _ _ _ _ _ _ _).trans_le hbrk
  | munmap addr size =>
    exact ⟨(hbooks.sysMunmap addr size).own fun _ hfalse => hfalse.elim,
      (brkCurrent_sysMunmap _ _ _).trans_le hbrk⟩
  | mprotect addr length prot =>
    exact ⟨(hbooks.sysMprotect addr length prot).own fun _ hfalse => hfalse.elim,
      (brkCurrent_sysMprotect _ _ _ _).trans_le hbrk⟩
  | mremap oldAddr oldSize newSize flags newAddr =>
    exact ⟨(hbooks.sysMremap oldAddr oldSize newSize flags newAddr hkeeps).own
        fun _ hfalse => hfalse.elim,
      (brkCurrent_sysMremap _ _ _ _ _ _).trans_le hbrk⟩
  | brk newBrk =>
    rcases hbooks.sysBrk hbrk newBrk with ⟨hafter, hend⟩
    refine ⟨hafter.own ?_, hend⟩
    rintro page ⟨old, new, hold, hnew, hmoved, hchanged, hlow, hhigh⟩
    exact sysBrk_mapped hbooks hold hnew hmoved hchanged page hlow hhigh

/-- Every sequence of memory calls that shrinks no area with `sys_mremap` keeps a
consistent state consistent, whatever the allocators answer. -/
theorem consistent_run (ledger : Ledger) (calls : List MemoryCall) (h : ledger.Consistent)
    (hwf : ledger.process.WellFormed)
    (hcalls : Along Ledger.step (fun ledger call => call.Keeps ledger) ledger calls) :
    (run Ledger.step ledger calls).Consistent :=
  (invariant_run Ledger.step Ledger.Sound (fun _ _ hkeeps hsound => hsound.step hkeeps) hcalls
    (h.sound hwf)).consistent

theorem aligned_page : 0x1000 &&& pteAddrMask = 0x1000 := by decide

/-- A process without areas, promises or mapped pages. -/
def freshProcess : Process where
  vmaManager := {}
  virtQueue := {}
  pagedir := Table.empty 4
  brkCurrent := userBrkStart
  mmapStart := userMmapStart
  allocators := ⟨fun _ => true, 0, fun _ _ => ⟨0x1000, aligned_page⟩, 0, [], []⟩

theorem freshProcess_wellFormed : freshProcess.WellFormed where
  bounded := by simp [freshProcess]
  queue := ⟨by simp [freshProcess], by simp [freshProcess], by simp [freshProcess],
    List.Pairwise.nil⟩
  brk := by decide

theorem freshLedger_consistent : Ledger.Consistent ⟨freshProcess, fun _ => False⟩ where
  sorted := vmaSorted_nil
  used := rfl
  promised := by
    rintro page - - ⟨entry, hentry, -⟩
    simp [freshProcess] at hentry

/-- Two anonymous pages at the start of the mapping area. -/
def mapTwoPages : MemoryCall := .mmap 0x400000000000 8192 3 34 (-1) 0 (.denied .ebadf)

/-- The pages are mapped, moved to a larger area, and one of them is unmapped. -/
def growTwoPages : List MemoryCall :=
  [mapTwoPages, .mremap 0x400000000000 8192 12288 1 0, .munmap 0x400000000000 4096]

theorem consistent_run_mapTwoPages :
    (run Ledger.step ⟨freshProcess, fun _ => False⟩ (growTwoPages.take 2)).process.vmaManager.vmUsed =
        12288 ∧
      (run Ledger.step ⟨freshProcess, fun _ => False⟩ growTwoPages).Consistent := by
  refine ⟨by decide +kernel, consistent_run ⟨freshProcess, fun _ => False⟩ growTwoPages
    freshLedger_consistent freshProcess_wellFormed ⟨trivial, ?_, trivial, trivial⟩⟩
  intro before vma after size hfind _ hsize
  have hlength : (vmaFind (Ledger.step ⟨freshProcess, fun _ => False⟩ mapTwoPages).process.vmaManager
      (pageDown (0x400000000000 : UInt64).toNat)).map (fun found => found.2.1.length) = some 8192 := by
    decide +kernel
  rw [hfind] at hlength
  obtain rfl : 12288 = size := Option.some.inj (show some 12288 = some size from hsize)
  exact (Option.some.inj hlength).trans_le (by decide)

/-- Shrinking the mapping to one page leaves the counter at two. -/
theorem mremap_shrink_breaks_books :
    Ledger.Consistent ⟨freshProcess, fun _ => False⟩ ∧ freshProcess.WellFormed ∧
      ¬(run Ledger.step ⟨freshProcess, fun _ => False⟩
        [mapTwoPages, .mremap 0x400000000000 8192 4096 0 0]).Consistent :=
  ⟨freshLedger_consistent, freshProcess_wellFormed, fun h => absurd h.used (by decide +kernel)⟩

end OpenXJ380.Memory
