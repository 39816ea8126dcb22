/-
# Ranges that are handed out twice

Four functions choose addresses in the same user area: `sys_mmap`, `sys_mremap`,
`page_reserve_process_user_range` and `page_alloc_random`. A range they hand out
should be vacant: outside every area, outside every lazily allocated range and
without a present page.

Only the last two look at all three. `sys_mmap` and a moving `sys_mremap` do not
look at the lazily allocated ranges, and a stack is one of those without an area
around it; growing in place and moving to a fixed address do not look at the page
table either. The condition `Clear` says where that does no harm.
-/

import OpenXJ380.Memory.Ledger
import OpenXJ380.Memory.Reserve
import OpenXJ380.Memory.Walk

namespace OpenXJ380.Memory

open Data Protocol

/-- No lazily allocated range reaches into the range. -/
def Unreserved (p : Process) (start stop : Nat) : Prop :=
  ∀ page ∈ p.virtQueue.pages, page.start + page.count * pageSize ≤ start ∨ stop ≤ page.start

/-- No page of the range is present. -/
def Unmapped (p : Process) (start stop : Nat) : Prop :=
  ∀ page, pageSize ∣ page → start ≤ page → page < stop → presentWord 3 p.pagedir page = none

/-- Nothing of the process lies in the range. -/
structure Vacant (p : Process) (start stop : Nat) : Prop where
  areas : ∀ vma ∈ p.vmaManager.vmaList, stop ≤ vma.vmStart ∨ vma.vmEnd ≤ start
  queue : Unreserved p start stop
  pages : Unmapped p start stop

/-- The calls that choose an address. -/
inductive RangeCall
  | mmap (addr length prot flags : UInt64) (fd : Int) (offset : UInt64) (file : FileMapping)
  | mremap (oldAddr oldSize newSize flags newAddr : UInt64)
  | reserve (length : UInt64)
  | allocRandom (length flags : UInt64)

namespace RangeCall

variable (p : Process)

def execute : RangeCall → Process
  | .mmap addr length prot flags fd offset file =>
    (sysMmap p addr length prot flags fd offset file).2
  | .mremap oldAddr oldSize newSize flags newAddr =>
    (sysMremap p oldAddr oldSize newSize flags newAddr).2
  | .reserve length => (pageReserveProcessUserRange p length).2
  | .allocRandom length flags => (pageAllocRandom p length flags).2

/-- The part of the address space that a call hands out, if any. A mapping that
grows where it is keeps what it had, so only the growth counts. -/
def handsOut : RangeCall → Option (Nat × Nat)
  | .mmap addr length prot flags fd offset file =>
    match (sysMmap p addr length prot flags fd offset file).1, alignUp length.toNat with
    | .ok start, some size =>
      if hasFlag flags mapFixed then none else some (start, start + size)
    | _, _ => none
  | .mremap oldAddr oldSize newSize flags newAddr =>
    match (sysMremap p oldAddr oldSize newSize flags newAddr).1, alignUp newSize.toNat,
      vmaFind p.vmaManager (pageDown oldAddr.toNat) with
    | .ok start, some size, some (_, vma, _) =>
      if size ≤ vma.length then none
      else if start = vma.vmStart then some (vma.vmEnd, start + size)
      else some (start, start + size)
    | _, _, _ => none
  | .reserve length =>
    let addr := (pageReserveProcessUserRange p length).1
    if addr = 0 then none else some (addr, addr + pageAlignUp length.toNat)
  | .allocRandom length flags =>
    let addr := (pageAllocRandom p length flags).1
    if addr = 0 || !hasFlag flags pteUser then none
    else some (addr, addr + pageAlignUp length.toNat)

end RangeCall

section

variable (p : Process)

/-- Physical address zero stands for a failed allocation, so no page has it. -/
def Framed : Prop :=
  ∀ page, pageSize ∣ page → presentWord 3 p.pagedir page ≠ none → translate 3 p.pagedir page ≠ 0

/-- Every window that `user_range_available` accepts from an address on is outside
the lazily allocated ranges. -/
def SearchClear (low size : Nat) : Prop :=
  ∀ start, low ≤ start → userRangeAvailable p start size = true → Unreserved p start (start + size)

/-- The cursor from which `sys_mmap` searches. -/
def searchStart : Nat := pageDown (resetCursor p).mmapStart

/-- Some window from the cursor on is accepted. -/
def SearchSucceeds (size : Nat) : Prop :=
  ∃ start, pageSize ∣ start ∧ searchStart p ≤ start ∧ start + size ≤ userBrkStart ∧
    userRangeAvailable p start size = true

/-- A mapping with a hint asks for an unreserved window; one without finds only
unreserved windows, where it looks. -/
def MmapClear (addr size : Nat) : Prop :=
  if addr ≠ 0 then Unreserved p addr (addr + size)
  else SearchClear p userMmapStart size ∨
    (SearchClear p (searchStart p) size ∧ SearchSucceeds p size)

/-- Growing in place takes an untouched window, moving to a fixed address goes to
one, and any other move finds unreserved windows only. -/
def MremapClear (vma : Vma) (size newAddr : Nat) (fixed : Bool) : Prop :=
  if vmaFindIntersection p.vmaManager vma.vmEnd (vma.vmStart + size) = none then
    Unreserved p vma.vmEnd (vma.vmStart + size) ∧ Unmapped p vma.vmEnd (vma.vmStart + size)
  else if fixed then
    Unreserved p newAddr (newAddr + size) ∧ Unmapped p newAddr (newAddr + size)
  else SearchClear p userMmapStart size

/-- The condition under which a call hands out a vacant range. -/
def RangeCall.Clear : RangeCall → Prop
  | .mmap addr length _ flags _ _ _ =>
    Framed p ∧ (hasFlag flags mapFixed = false → ∀ size, alignUp length.toNat = some size →
      MmapClear p (pageDown addr.toNat) size)
  | .mremap oldAddr _ newSize flags newAddr =>
    Framed p ∧ ∀ size before vma after, alignUp newSize.toNat = some size →
      vmaFind p.vmaManager (pageDown oldAddr.toNat) = some (before, vma, after) →
        MremapClear p vma size (pageDown newAddr.toNat) (hasFlag flags mremapFixed)
  | .reserve _ | .allocRandom _ _ => Framed p

end

section Tests

variable {p : Process} {start size length : Nat} {flags : UInt64}

theorem Framed.unmapped (h : Framed p) (hstart : pageSize ∣ start)
    (hzero : mappedPageIntersects p.pagedir start (size / pageSize) = false)
    (hsize : pageSize ∣ size) : Unmapped p start (start + size) := by
  intro page hdvd hlow hhigh
  by_contra hpresent
  exact h page hdvd hpresent (translate_of_unmapped hstart hsize hzero hdvd hlow hhigh)

/-- `user_range_available` answers for the areas and the page table. -/
theorem userRangeAvailable_vacant (hframed : Framed p) (hstart : pageSize ∣ start)
    (hsize : pageSize ∣ size) (h : userRangeAvailable p start size = true)
    (hqueue : Unreserved p start (start + size)) :
    Vacant p start (start + size) := by
  simp only [userRangeAvailable, Bool.and_eq_true, Bool.not_eq_true'] at h
  rcases h with ⟨⟨-, hareas⟩, hpages⟩
  exact
    { areas := vmaFindIntersection_eq_none.mp (Option.isNone_iff_eq_none.mp hareas)
      queue := hqueue
      pages := hframed.unmapped hstart hpages hsize }

/-- `find_free_user_range` answers for everything. -/
theorem nextCandidate_vacant (hframed : Framed p) (hqueue : p.virtQueue.WellFormed)
    (hstart : pageSize ∣ start) (hsize : pageSize ∣ size) (h : nextCandidate p start size = none) :
    Vacant p start (start + size) := by
  rcases nextCandidate_eq_none h with ⟨hareas, hmeets, hpages⟩
  refine ⟨vmaFindIntersection_eq_none.mp hareas, fun page hpage => ?_,
    hframed.unmapped hstart hpages hsize⟩
  have hout := hmeets page hpage
  rw [← Bool.not_eq_true, VirtQueue.meets_iff (hqueue.fits hpage)] at hout
  omega

variable {stop limit fuel window hint : Nat} {oldAddr oldSize newSize newAddr : UInt64}
  {before after : List Vma} {vma : Vma}

theorem Vacant.mono {start' : Nat} (h : Vacant p start stop) (hle : start ≤ start') :
    Vacant p start' stop where
  areas vma hvma := (h.areas vma hvma).imp id (Nat.le_trans · hle)
  queue page hpage := (h.queue page hpage).imp (Nat.le_trans · hle) id
  pages page hdvd hlow := h.pages page hdvd (Nat.le_trans hle hlow)

/-- The search never returns an address before its first candidate. -/
theorem le_findLoop (hfound : findLoop p length limit fuel start ≠ 0) :
    start ≤ findLoop p length limit fuel start := by
  induction fuel generalizing start with
  | zero => exact absurd rfl hfound
  | succ fuel ih =>
    rw [findLoop] at hfound ⊢
    split at hfound
    · exact absurd rfl hfound
    rename_i hlimit
    rw [if_neg hlimit]
    split at hfound
    · rename_i havailable
      rw [if_pos havailable]
    · rename_i hoccupied
      rw [if_neg hoccupied]
      exact Nat.le_trans (Nat.le_add_right _ _) (ih hfound)

/-- With fuel for every page up to the limit the search finds a window if one is
accepted. -/
theorem findLoop_ne_zero (hstart : pageSize ∣ start) (hpos : 0 < start)
    (hwindow : pageSize ∣ window) (hlow : start ≤ window) (hhigh : window ≤ limit)
    (havailable : userRangeAvailable p window length = true)
    (hfuel : (limit - start) / pageSize < fuel) : findLoop p length limit fuel start ≠ 0 := by
  induction fuel generalizing start with
  | zero => exact absurd hfuel (Nat.not_lt_zero _)
  | succ fuel ih =>
    rw [findLoop, if_neg (by omega)]
    split
    · exact Nat.pos_iff_ne_zero.mp hpos
    rename_i hoccupied
    -- This window is refused, so the accepted one is a page further on at least.
    have hne : start ≠ window := fun heq => hoccupied (heq ▸ havailable)
    have hnext : start + pageSize ≤ window := by
      rcases hstart with ⟨m, rfl⟩
      rcases hwindow with ⟨n, rfl⟩
      simp only [pageSize] at *
      omega
    apply ih (Nat.dvd_add hstart (Nat.dvd_refl _)) (Nat.add_pos_left hpos _) hnext
    simp only [pageSize] at *
    omega

/-- Where the search from a hint begins. -/
theorem le_findUserMmapRange (hhint : userMmapStart ≤ hint)
    (hfound : findUserMmapRange p hint length ≠ 0) :
    pageDown hint ≤ findUserMmapRange p hint length := by
  rw [findUserMmapRange, if_pos hhint] at hfound ⊢
  split at hfound
  · exact absurd rfl hfound
  · rename_i hfits
    rw [if_neg hfits]
    exact le_findLoop hfound

theorem findUserMmapRange_ne_zero (hhint : userMmapStart ≤ hint) (hlength : 0 < length)
    (hwindow : pageSize ∣ window) (hlow : pageDown hint ≤ window)
    (hhigh : window + length ≤ userBrkStart)
    (havailable : userRangeAvailable p window length = true) :
    findUserMmapRange p hint length ≠ 0 := by
  have hpos : 0 < pageDown hint := by
    simp only [pageDown, pageSize, userMmapStart] at *
    omega
  rw [findUserMmapRange, if_pos hhint]
  rw [if_neg]
  · exact findLoop_ne_zero (pageDown_dvd hint) hpos hwindow hlow (by omega) havailable
      (Nat.lt_succ_self _)
  · simp only [Bool.or_eq_true, decide_eq_true_eq]
    omega

section

variable (p : Process)

theorem resetCursor_eq :
    resetCursor p = { p with mmapStart := (resetCursor p).mmapStart } := by
  rw [resetCursor]
  split <;> rfl

theorem userMmapStart_le_resetCursor : userMmapStart ≤ (resetCursor p).mmapStart := by
  rw [resetCursor]
  split
  · exact le_rfl
  · rename_i hcursor
    simp only [Bool.or_eq_true, decide_eq_true_eq] at hcursor
    omega

/-- The tests look at nothing that resetting the cursor changes. -/
theorem userRangeAvailable_resetCursor (start size : Nat) :
    userRangeAvailable (resetCursor p) start size = userRangeAvailable p start size := by
  rw [resetCursor_eq]
  rfl

end

/-- The window that a search without a hint returns is unreserved. -/
theorem searchPlace_unreserved (hsize : 0 < size) (hclear : SearchClear p userMmapStart size ∨
      (SearchClear p (searchStart p) size ∧ SearchSucceeds p size))
    (h : searchPlace (resetCursor p) size = .ok start) : Unreserved p start (start + size) := by
  have havailable := (searchPlace_spec h).2.2
  rw [userRangeAvailable_resetCursor] at havailable
  have hcursor := userMmapStart_le_resetCursor p
  have hlow : userMmapStart ≤ pageDown (resetCursor p).mmapStart := by
    simp only [userMmapStart, pageDown, pageSize] at *
    omega
  rw [searchPlace] at h
  rcases hclear with hall | ⟨hlater, window, hdvd, hfrom, hend, haccepted⟩
  · apply hall start _ havailable
    split at h
    · rename_i hfound
      cases h
      exact Nat.le_trans hlow (le_findUserMmapRange hcursor hfound)
    · split at h
      · rename_i hfound
        cases h
        exact le_findUserMmapRange (Nat.le_refl userMmapStart) hfound.2
      · simp at h
  · -- The first search succeeds, so its result lies behind the cursor.
    rw [← userRangeAvailable_resetCursor] at haccepted
    have hfound := findUserMmapRange_ne_zero hcursor hsize hdvd hfrom hend haccepted
    rw [if_pos hfound] at h
    cases h
    exact hlater _ (le_findUserMmapRange hcursor hfound) havailable

theorem sysMmap_vacant (hframed : Framed p) {addr length prot : UInt64} {fd : Int}
    {offset : UInt64} {file : FileMapping}
    (h : (sysMmap p addr length prot flags fd offset file).1 = .ok start)
    (hsize : alignUp length.toNat = some size) (hfixed : hasFlag flags mapFixed = false)
    (hclear : MmapClear p (pageDown addr.toNat) size) : Vacant p start (start + size) := by
  rcases sysMmap_ok h hsize with ⟨hpos, q, hplaced, -⟩
  have hplace := congrArg Prod.fst hplaced
  rw [mmapPlace, hfixed, if_neg (by simp)] at hplace
  rw [MmapClear] at hclear
  split at hplace
  · rename_i hhint
    rw [if_pos hhint] at hclear
    rcases hintedPlace_spec hplace with ⟨rfl, -, havailable⟩
    rw [userRangeAvailable_resetCursor] at havailable
    exact userRangeAvailable_vacant hframed (pageDown_dvd _) (alignUp_dvd hsize) havailable hclear
  · rename_i hhint
    rw [if_neg hhint] at hclear
    rcases searchPlace_spec hplace with ⟨hdvd, -, havailable⟩
    rw [userRangeAvailable_resetCursor] at havailable
    exact userRangeAvailable_vacant hframed hdvd (alignUp_dvd hsize) havailable
      (searchPlace_unreserved hpos hclear hplace)

/-- A `sys_mremap` that grows an area does so in place, behind the area, or moves
it. -/
theorem sysMremap_grows (h : (sysMremap p oldAddr oldSize newSize flags newAddr).1 = .ok start)
    (hsize : alignUp newSize.toNat = some size)
    (hfind : vmaFind p.vmaManager (pageDown oldAddr.toNat) = some (before, vma, after))
    (hgrows : ¬size ≤ vma.length) :
    (start = vma.vmStart ∧ vmaFindIntersection p.vmaManager vma.vmEnd (vma.vmStart + size) = none) ∨
      (¬vmaFindIntersection p.vmaManager vma.vmEnd (vma.vmStart + size) = none ∧
        mremapPlace p (pageDown newAddr.toNat) size (hasFlag flags mremapFixed) = .ok start) := by
  rw [sysMremap] at h
  simp only [hsize, hfind] at h
  split at h
  · rename_i oldLength grown _ heq
    cases heq
    split at h
    · simp at h
    split at h
    · simp at h
    rename_i hstart
    split at h
    · simp at h
    split at h
    · rename_i hfree
      refine .inl ⟨?_, Option.isNone_iff_eq_none.mp hfree⟩
      split at h
      · simp at h
      · cases h
        exact (Decidable.not_not.mp hstart).symm
    · rename_i hmeets
      rw [Option.isNone_iff_eq_none] at hmeets
      split at h
      · split at h
        · simp at h
        · rename_i found hplace
          rw [mremapMove_ok h]
          exact .inr ⟨hmeets, hplace⟩
      · simp at h
  · simp at h

theorem sysMremap_vacant (hframed : Framed p)
    (h : (sysMremap p oldAddr oldSize newSize flags newAddr).1 = .ok start)
    (hsize : alignUp newSize.toNat = some size)
    (hfind : vmaFind p.vmaManager (pageDown oldAddr.toNat) = some (before, vma, after))
    (hgrows : ¬size ≤ vma.length)
    (hclear : MremapClear p vma size (pageDown newAddr.toNat) (hasFlag flags mremapFixed)) :
    (start = vma.vmStart ∧ Vacant p vma.vmEnd (start + size)) ∨ Vacant p start (start + size) := by
  rw [MremapClear] at hclear
  rcases sysMremap_grows h hsize hfind hgrows with ⟨rfl, hfree⟩ | ⟨hmeets, hplace⟩
  · rw [if_pos hfree] at hclear
    exact .inl ⟨rfl, vmaFindIntersection_eq_none.mp hfree, hclear.1, hclear.2⟩
  right
  rw [if_neg hmeets] at hclear
  rw [mremapPlace] at hplace
  split at hplace
  · rename_i hfixed
    rw [if_pos hfixed] at hclear
    iterate 3
      split at hplace
      · simp at hplace
    · rename_i hareas
      cases hplace
      exact ⟨vmaFindIntersection_eq_none.mp (by simpa using hareas), hclear.1, hclear.2⟩
  · rename_i hsearch
    rw [if_neg hsearch] at hclear
    dsimp only at hplace
    split at hplace
    · simp at hplace
    rename_i hfound
    cases hplace
    rcases findUserMmapRange_spec hfound with ⟨hdvd, -, havailable⟩
    exact userRangeAvailable_vacant hframed hdvd (alignUp_dvd hsize) havailable
      (hclear _ (le_findUserMmapRange (Nat.le_refl userMmapStart) hfound) havailable)

theorem pageAlignUp_dvd (length : Nat) : pageSize ∣ pageAlignUp length := by
  rw [pageAlignUp]
  split
  · exact Nat.dvd_zero _
  · exact pageDown_dvd _

theorem pageAlignUp_idem (length : Nat) : pageAlignUp (pageAlignUp length) = pageAlignUp length := by
  have hlt : pageAlignUp length < 2 ^ 64 := by
    rw [pageAlignUp]
    split
    · decide
    · exact Nat.lt_of_le_of_lt (pageDown_le _) (Nat.mod_lt _ (by decide))
  rcases pageAlignUp_dvd length with ⟨n, hn⟩
  rw [pageAlignUp]
  split
  · rename_i hzero
    exact hzero.symm
  · simp only [pageDown, pageSize] at *
    omega

theorem freeUserRange_vacant (hframed : Framed p) (hqueue : p.virtQueue.WellFormed)
    (hfound : freeUserRange p (pageAlignUp length) ≠ 0) :
    Vacant p (freeUserRange p (pageAlignUp length))
      (freeUserRange p (pageAlignUp length) + pageAlignUp length) := by
  rcases freeUserRange_spec hqueue hfound with ⟨hdvd, -, hfree⟩
  rw [pageAlignUp_idem] at hfree
  exact nextCandidate_vacant hframed hqueue hdvd (pageAlignUp_dvd length) hfree

theorem pageReserve_place {length : UInt64} (h : (pageReserveProcessUserRange p length).1 ≠ 0) :
    (pageReserveProcessUserRange p length).1 = freeUserRange p (pageAlignUp length.toNat) := by
  rw [pageReserveProcessUserRange] at h ⊢
  dsimp only at h ⊢
  split at h
  · exact absurd rfl h
  rename_i hlength
  rw [if_neg hlength]
  split at h
  · exact absurd rfl h
  rename_i hfound
  rw [if_neg hfound]
  split at h
  · rfl
  · exact absurd rfl h

theorem pageAllocRandom_place {length : UInt64} (huser : hasFlag flags pteUser = true)
    (h : (pageAllocRandom p length flags).1 ≠ 0) :
    (pageAllocRandom p length flags).1 = freeUserRange p (pageAlignUp length.toNat) := by
  rw [pageAllocRandom] at h ⊢
  dsimp only at h ⊢
  split at h
  · exact absurd rfl h
  rename_i hlength
  rw [if_neg hlength]
  split at h
  · exact absurd rfl h
  rename_i hframe
  rw [if_neg hframe, if_pos huser]
  split at h
  · exact absurd rfl h
  · rename_i hfound
    rw [if_neg hfound]

section

variable (h : p.virtQueue.WellFormed)
include h

theorem wellFormed_lazyInfoalloc {vaddr : Nat}
    (hvaddr : pageSize ∣ vaddr) (hlength : pageSize ∣ length)
    (hend : vaddr + length ≤ kernelAreaMem) (pageFlags flags : UInt64) :
    (lazyInfoalloc p vaddr length pageFlags flags).2.virtQueue.WellFormed := by
  rw [lazyInfoalloc]
  split
  · exact h
  · split
    · exact (unmapVirtualPage_spec hvaddr hlength hend h p.allocators).1.wellFormed
    · have hlt : vaddr + length < 2 ^ 64 := Nat.lt_of_le_of_lt hend (by decide)
      exact (VirtQueue.record_spec h hvaddr hlength hlt pageFlags flags p.allocators).1

theorem wellFormed_sysMunmap (addr size : UInt64) :
    (sysMunmap p addr size).2.virtQueue.WellFormed := by
  rw [sysMunmap]
  split
  · exact h
  rename_i hzero
  dsimp only
  split
  · exact h
  rename_i size' hsize
  split
  · exact h
  · rename_i hrange
    split
    · exact h
    · exact (unmapVirtualPage_spec (pageDown_dvd _) (alignUp_dvd hsize)
        (range_le (by simpa using hrange) (alignUp_pos hsize (toNat_pos hzero))) h _).1.wellFormed

theorem wellFormed_mmapAt (hstart : pageSize ∣ start)
    (hsize : pageSize ∣ size) (hend : start + size ≤ kernelAreaMem) (prot flags : UInt64)
    (fd : Int) (offset : UInt64) (file : FileMapping) :
    (mmapAt p start size prot flags fd offset file).2.virtQueue.WellFormed := by
  rw [mmapAt]
  dsimp only
  split
  · exact h
  have hprepared : (prepareRange { p with allocators := p.allocators.malloc.2 }
      (hasFlag flags mapFixed) start size).virtQueue.WellFormed := by
    rw [prepareRange]
    split
    · exact (unmapVirtualPage_spec hstart hsize hend h _).1.wellFormed
    · exact h
  split
  · exact hprepared
  rename_i mgr hinsert
  have hfilled : (advanceCursor { prepareRange { p with allocators := p.allocators.malloc.2 }
      (hasFlag flags mapFixed) start size with vmaManager := mgr } (hasFlag flags mapFixed)
      (start + size)).virtQueue.WellFormed := by
    rw [(advanceCursor_state _ _ _).2]
    exact hprepared
  generalize advanceCursor _ _ _ = q at hfilled
  rw [mmapFill]
  split
  · have hqueue := (vfsMap_state (p := q) start size prot file).2
    split <;>
    · rename_i hmap
      rw [hmap] at hqueue
      exact hqueue ▸ hfilled
  · have hinfo := wellFormed_lazyInfoalloc hfilled hstart hsize hend (mmapPteFlags prot) flags
    split <;>
    · rename_i hlazy
      rw [hlazy] at hinfo
      exact hinfo

theorem wellFormed_sysMmap (addr length prot flags : UInt64)
    (fd : Int) (offset : UInt64) (file : FileMapping) :
    (sysMmap p addr length prot flags fd offset file).2.virtQueue.WellFormed := by
  rw [sysMmap]
  split
  · exact h
  rename_i size hsize
  split
  · exact h
  split
  · exact h
  rename_i hzero
  have hqueue := (mmapPlace_state p (pageDown addr.toNat) size (hasFlag flags mapFixed)).2
  split
  · rename_i error q hplace
    rw [hplace] at hqueue
    exact hqueue ▸ h
  · rename_i start q hplace
    rw [hplace] at hqueue
    have hplaced : q.virtQueue.WellFormed := hqueue ▸ h
    rcases mmapPlace_spec (pageDown_dvd addr.toNat) (Nat.pos_of_ne_zero hzero)
      (congrArg Prod.fst hplace) with ⟨hstart, hend⟩
    split
    · exact hplaced
    · exact wellFormed_mmapAt hplaced hstart (alignUp_dvd hsize) hend prot flags fd offset _

theorem wellFormed_mremapMove (vma : Vma) (oldAddr oldSize : UInt64)
    (start size : Nat) : (mremapMove p vma oldAddr oldSize start size).2.virtQueue.WellFormed := by
  rw [mremapMove]
  dsimp only
  iterate 3
    split
    · exact h
  · split
    · exact h
    · rename_i mgr _ _ pagedir a _
      exact wellFormed_sysMunmap
        (p := { p with vmaManager := mgr, pagedir := pagedir, allocators := a }) h _ _

theorem wellFormed_sysMremap (oldAddr oldSize newSize flags newAddr : UInt64) :
    (sysMremap p oldAddr oldSize newSize flags newAddr).2.virtQueue.WellFormed := by
  rw [sysMremap]
  dsimp only
  split
  · split
    · exact h
    iterate 4
      split
      · exact h
    split
    · split <;> exact h
    · split
      · split
        · exact h
        · exact wellFormed_mremapMove h _ _ _ _ _
      · exact h
  · exact h

theorem wellFormed_pageReserve (length : UInt64) :
    (pageReserveProcessUserRange p length).2.virtQueue.WellFormed := by
  rw [pageReserveProcessUserRange]
  dsimp only
  split
  · exact h
  split
  · exact h
  rename_i hfound
  rcases freeUserRange_spec h hfound with ⟨hdvd, hend, -⟩
  rw [pageAlignUp_idem] at hend
  have hinfo (cursor : Nat) := wellFormed_lazyInfoalloc (p := { p with mmapStart := cursor })
    h hdvd (pageAlignUp_dvd _) (Nat.le_trans hend (by decide)) heapPteFlags 0
  specialize hinfo (freeUserRange p (pageAlignUp length.toNat) + pageAlignUp length.toNat)
  split <;>
  · rename_i hlazy
    rw [hlazy] at hinfo
    exact hinfo

end

theorem virtQueue_pageAllocRandom (p : Process) (length flags : UInt64) :
    (pageAllocRandom p length flags).2.virtQueue = p.virtQueue := by
  rw [pageAllocRandom]
  dsimp only
  split
  · rfl
  · split
    · rfl
    · split
      · split <;> rfl
      · rfl

theorem RangeCall.wellFormed_execute (h : p.virtQueue.WellFormed) (call : RangeCall) :
    (call.execute p).virtQueue.WellFormed := by
  cases call with
  | mmap addr length prot flags fd offset file => exact wellFormed_sysMmap h _ _ _ _ _ _ _
  | mremap oldAddr oldSize newSize flags newAddr => exact wellFormed_sysMremap h _ _ _ _ _
  | reserve length => exact wellFormed_pageReserve h length
  | allocRandom length flags => exact (virtQueue_pageAllocRandom p length flags).symm ▸ h

theorem RangeCall.vacant_of_clear (hqueue : p.virtQueue.WellFormed) {call : RangeCall}
    (hclear : call.Clear p) (h : call.handsOut p = some (start, stop)) :
    Vacant p start stop := by
  cases call with
  | mmap addr length prot flags fd offset file =>
    rw [handsOut] at h
    split at h
    · rename_i found size hok hsize
      split at h
      · simp at h
      rename_i hfixed
      cases h
      have hfixed' : hasFlag flags mapFixed = false := by simpa using hfixed
      exact sysMmap_vacant hclear.1 hok hsize hfixed' (hclear.2 hfixed' size hsize)
    · simp at h
  | mremap oldAddr oldSize newSize flags newAddr =>
    rw [handsOut] at h
    split at h
    · rename_i found size before vma after hok hsize hfind
      split at h
      · simp at h
      rename_i hgrows
      have hfound := sysMremap_vacant hclear.1 hok hsize hfind hgrows
        (hclear.2 size before vma after hsize hfind)
      split at h
      · cases h
        rcases hfound with ⟨-, hvacant⟩ | hvacant
        · exact hvacant
        · have hcontains := (focus_eq_some hfind).2.1
          simp only [Vma.contains, Bool.and_eq_true, decide_eq_true_eq] at hcontains
          exact hvacant.mono (by omega)
      · rename_i hplace
        cases h
        exact hfound.resolve_left fun hsame => hplace hsame.1
    · simp at h
  | reserve length =>
    rw [handsOut] at h
    split at h
    · simp at h
    rename_i hfound
    cases h
    have hplace := pageReserve_place hfound
    rw [hplace]
    exact freeUserRange_vacant hclear hqueue (hplace ▸ hfound)
  | allocRandom length flags =>
    rw [handsOut] at h
    split at h
    · simp at h
    rename_i hfound
    cases h
    simp only [Bool.or_eq_true, decide_eq_true_eq, not_or, Bool.not_eq_true',
      Bool.not_eq_false] at hfound
    have hplace := pageAllocRandom_place hfound.2 hfound.1
    rw [hplace]
    exact freeUserRange_vacant hclear hqueue (hplace ▸ hfound.1)

end Tests

/-- In every state that these calls lead to, a call that meets its condition hands
out a vacant range. -/
theorem handsOut_vacant (p : Process) (calls : List RangeCall) (call : RangeCall)
    (hqueue : p.virtQueue.WellFormed) (hclear : call.Clear (run RangeCall.execute p calls))
    {start stop : Nat} (h : call.handsOut (run RangeCall.execute p calls) = some (start, stop)) :
    Vacant (run RangeCall.execute p calls) start stop := by
  have hreached : (run RangeCall.execute p calls).virtQueue.WellFormed :=
    invariant_run_of_step RangeCall.execute (fun p => p.virtQueue.WellFormed)
      (fun _ call hwf => call.wellFormed_execute hwf) hqueue calls
  exact RangeCall.vacant_of_clear hreached hclear h

/-- A process whose stack takes the first two pages of the mapping area. -/
def stackProcess : Process := run RangeCall.execute freshProcess [.reserve 8192]

theorem stackProcess_framed : Framed stackProcess := by
  intro page _ hpresent
  exact absurd presentWord_empty hpresent

theorem stackProcess_pages :
    stackProcess.virtQueue.pages = [⟨0x400000000000, 2, 0, heapPteFlags, 0⟩] := by
  decide +kernel

/-- The search starts behind the stack and succeeds at once. -/
theorem stackProcess_mmapClear : MmapClear stackProcess 0 4096 := by
  refine .inr ⟨fun start hlow _ page hpage => .inl ?_, 0x400000002000, by decide,
    by decide +kernel, by decide, by decide +kernel⟩
  rw [stackProcess_pages, List.mem_singleton] at hpage
  rw [hpage]
  exact hlow

/-- A mapping without a hint goes behind the stack. -/
theorem handsOut_vacant_behindStack : Vacant stackProcess 0x400000002000 0x400000003000 :=
  handsOut_vacant freshProcess [.reserve 8192] (.mmap 0 4096 3 34 (-1) 0 (.denied .ebadf))
    freshProcess_wellFormed.queue
    ⟨stackProcess_framed, fun _ size hsize => by
      cases show some 4096 = some size from hsize
      exact stackProcess_mmapClear⟩ (by decide +kernel)

/-- With a hint, `sys_mmap` hands out a page of the stack. -/
theorem mmap_hands_out_stack : freshProcess.virtQueue.WellFormed ∧
      (RangeCall.mmap 0x400000000000 4096 3 34 (-1) 0 (.denied .ebadf)).handsOut
        (run RangeCall.execute freshProcess [.reserve 8192]) =
        some (0x400000000000, 0x400000001000) ∧
      ¬Vacant (run RangeCall.execute freshProcess [.reserve 8192])
        0x400000000000 0x400000001000 := by
  refine ⟨freshProcess_wellFormed.queue, by decide +kernel, fun hvacant => ?_⟩
  have hmem : (⟨0x400000000000, 2, 0, heapPteFlags, 0⟩ : LazyPage) ∈
      (run RangeCall.execute freshProcess [.reserve 8192]).virtQueue.pages := by
    decide +kernel
  exact absurd (hvacant.queue _ hmem) (by decide)

end OpenXJ380.Memory
