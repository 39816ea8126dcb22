/-
# `page_alloc_random` and unmapping

`page_alloc_random` takes one block for all of its pages and maps the pages with
`PTE_FRAME_ALLOCATED`; `unmap_page_range` gives the frames back page by page. The allocator
rounds the block up to a power of two, so the two balance only where the number of pages is one.

The answers of the frame oracle are tied to the buddy allocator by `Served`, and the calls of the
allocator are replayed there to count the free frames.
-/

import OpenXJ380.Buddy.Count
import OpenXJ380.Memory.Frames
import OpenXJ380.Memory.Reserve

namespace OpenXJ380.Memory

open Protocol
open Buddy (Action Platform System)
open System (smallPlatform step)

/-- The upper entries on the way to an address are empty or present tables. -/
def Walkable : (height : Nat) → Table (height + 1) → Nat → Prop
  | 0, _, _ => True
  | height + 1, table, addr =>
    (table.get (entryIndex (height + 1) addr)).1 = 0 ∨
      (hasFlag (table.get (entryIndex (height + 1) addr)).1 ptePresent = true ∧
        hasFlag (table.get (entryIndex (height + 1) addr)).1 pteHuge = false ∧
        Walkable height (table.get (entryIndex (height + 1) addr)).2 addr)

/-- The number of tables that are missing on the way to an address. -/
def missingTables : (height : Nat) → Table (height + 1) → Nat → Nat
  | 0, _, _ => 0
  | height + 1, table, addr =>
    if (table.get (entryIndex (height + 1) addr)).1 = 0 then height + 1
    else missingTables height (table.get (entryIndex (height + 1) addr)).2 addr

/-- The number of tables on the way to an address that are not on the way to another one. -/
def unsharedTables : Nat → Nat → Nat → Nat
  | 0, _, _ => 0
  | height + 1, addr, other =>
    if entryIndex (height + 1) addr = entryIndex (height + 1) other then unsharedTables height addr other
    else height + 1

/-- The number of tables that are missing for an address besides those on the way to the first pages
of a block. -/
def tablesBeside (table : PageDirectory) (start addr count : Nat) : Nat :=
  (List.range count).foldl (fun missing i => min missing (unsharedTables 3 addr (start + i * pageSize)))
    (missingTables 3 table addr)

/-- The number of tables that are missing for the pages of a block. -/
def tableRequests (table : PageDirectory) (start : Nat) : Nat → Nat
  | 0 => 0
  | count + 1 => tableRequests table start count + tablesBeside table start (start + count * pageSize) count

section Page

variable {height addr other : Nat} {frame flags word : UInt64} {table : Table (height + 1)}

theorem walkable_empty : Walkable height (Table.empty (height + 1)) addr := by
  cases height with
  | zero => trivial
  | succ height => exact .inl rfl

theorem walkable_succ_congr {table table' : Table (height + 2)} (h : Walkable (height + 1) table addr)
    (hget : table'.get (entryIndex (height + 1) addr) = table.get (entryIndex (height + 1) addr)) :
    Walkable (height + 1) table' addr := by
  unfold Walkable at h ⊢
  rw [hget]
  exact h

theorem leaf_pageMapTo_self (h : Walkable height table addr) (a : Allocators) :
    leaf height (pageMapTo frame flags height table addr a).1 addr =
      some (frame &&& pteAddrMask ||| flags) := by
  induction height generalizing a with
  | zero =>
    rw [pageMapTo, leaf]
    simp
  | succ height ih =>
    rw [pageMapTo]
    dsimp only
    split
    · rcases hasFlag_newTable a (hasFlag flags pteUser) with ⟨hpresent, hhuge⟩
      apply leaf_succ_eq_some.mpr
      rw [Table.get_set_self]
      exact ⟨hpresent, hhuge, ih walkable_empty _⟩
    · rename_i hvalue
      rcases h with hzero | ⟨hpresent, hhuge, hnext⟩
      · exact absurd hzero hvalue
      · apply leaf_succ_eq_some.mpr
        rw [Table.get_set_self, hasFlag_or_user _ _ (by decide), hasFlag_or_user _ _ (by decide)]
        exact ⟨hpresent, hhuge, ih hnext _⟩

theorem leaf_pageMapTo_other (h : leaf height table addr = some word)
    (hother : ¬SamePage height addr other) (a : Allocators) :
    leaf height (pageMapTo frame flags height table other a).1 addr = some word := by
  induction height generalizing a with
  | zero => exact (leaf_set_of_ne hother).trans h
  | succ height ih =>
    rcases leaf_succ_eq_some.mp h with ⟨hpresent, hhuge, hnext⟩
    by_cases hindex : entryIndex (height + 1) addr = entryIndex (height + 1) other
    · apply leaf_succ_eq_some.mpr
      have hbelow : ¬SamePage height addr other := fun hsame => hother ⟨hindex, hsame⟩
      rw [hindex] at hpresent hhuge hnext ⊢
      rw [pageMapTo]
      dsimp only
      split
      · rename_i hvalue
        rw [hvalue, hasFlag_zero] at hpresent
        cases hpresent
      · rw [Table.get_set_self, hasFlag_or_user _ _ (by decide), hasFlag_or_user _ _ (by decide)]
        exact ⟨hpresent, hhuge, ih hnext hbelow _⟩
    · rw [pageMapTo]
      dsimp only
      split
      all_goals exact (leaf_set_of_ne hindex).trans h

theorem walkable_pageMapTo (h : Walkable height table addr) (a : Allocators) :
    Walkable height (pageMapTo frame flags height table other a).1 addr := by
  induction height generalizing a with
  | zero => trivial
  | succ height ih =>
    rw [pageMapTo]
    by_cases hindex : entryIndex (height + 1) addr = entryIndex (height + 1) other
    · dsimp only
      split
      · rcases hasFlag_newTable a (hasFlag flags pteUser) with ⟨hpresent, hhuge⟩
        right
        rw [hindex, Table.get_set_self]
        exact ⟨hpresent, hhuge, ih walkable_empty _⟩
      · rename_i hvalue
        rcases h with hzero | ⟨hpresent, hhuge, hnext⟩
        · exact absurd (hindex ▸ hzero) hvalue
        · rw [hindex] at hpresent hhuge hnext
          right
          rw [hindex, Table.get_set_self, hasFlag_or_user _ _ (by decide),
            hasFlag_or_user _ _ (by decide)]
          exact ⟨hpresent, hhuge, ih hnext _⟩
    · dsimp only
      split
      all_goals exact walkable_succ_congr h (Table.get_set_of_ne _ hindex _)

theorem leaf_unmapPage_other (h : leaf height table addr = some word)
    (hother : ¬SamePage height addr other) (a : Allocators) :
    leaf height (unmapPage height table other a).1 addr = some word := by
  induction height with
  | zero =>
    rw [unmapPage]
    dsimp only
    split
    · exact h
    · exact (leaf_set_of_ne hother).trans h
  | succ height ih =>
    rcases leaf_succ_eq_some.mp h with ⟨hpresent, hhuge, hnext⟩
    by_cases hindex : entryIndex (height + 1) addr = entryIndex (height + 1) other
    · have hbelow : ¬SamePage height addr other := fun hsame => hother ⟨hindex, hsame⟩
      rw [unmapPage]
      simp only [← hindex]
      apply leaf_succ_eq_some.mpr
      simp [hpresent, hhuge, ih hnext hbelow]
    · rw [unmapPage]
      dsimp only
      split
      · exact h
      · split
        · exact h
        · exact (leaf_set_of_ne hindex).trans h

theorem missingTables_le : missingTables height table addr ≤ height := by
  induction height with
  | zero => exact le_rfl
  | succ height ih =>
    rw [missingTables]
    split
    · exact le_rfl
    · exact Nat.le_succ_of_le ih

theorem unsharedTables_le : unsharedTables height addr other ≤ height := by
  induction height with
  | zero => exact le_rfl
  | succ height ih =>
    rw [unsharedTables]
    split
    · exact Nat.le_succ_of_le ih
    · exact le_rfl

theorem missingTables_empty : missingTables height (Table.empty (height + 1)) addr = height := by
  cases height <;> rfl

/-- A mapped page has its tables; those of another page are there as far as the two share them. -/
theorem missingTables_pageMapTo (a : Allocators) :
    missingTables height (pageMapTo frame flags height table other a).1 addr =
      min (missingTables height table addr) (unsharedTables height addr other) := by
  induction height generalizing a with
  | zero => rfl
  | succ height ih =>
    rw [pageMapTo, unsharedTables]
    by_cases hindex : entryIndex (height + 1) addr = entryIndex (height + 1) other
    · rw [if_pos hindex, missingTables, missingTables, hindex]
      dsimp only
      split
      next hvalue =>
        rw [Table.get_set_self, if_neg fun hzero => ?_, ih, missingTables_empty, Nat.min_eq_right unsharedTables_le,
          Nat.min_eq_right (Nat.le_succ_of_le unsharedTables_le)]
        have hpresent := (hasFlag_newTable a (hasFlag flags pteUser)).1
        rw [show (a.allocFrames 1).1 ||| ptePresent ||| pteWriteable ||| _ = 0 from hzero, hasFlag_zero] at hpresent
        cases hpresent
      next hvalue =>
        rw [Table.get_set_self, if_neg fun hzero => hvalue (UInt64.or_eq_zero_iff.mp hzero).1, ih]
    · have hsame : ∀ entry, missingTables (height + 1) (table.set (entryIndex (height + 1) other) entry) addr =
          missingTables (height + 1) table addr := by
        intro entry
        rw [missingTables, missingTables, Table.get_set_of_ne _ hindex]
      rw [if_neg hindex, Nat.min_eq_left missingTables_le]
      dsimp only
      split
      all_goals exact hsame _

theorem pageMapTo_allocators (a : Allocators) : (pageMapTo frame flags height table addr a).2 =
    { a with frames := a.frames + missingTables height table addr } := by
  induction height generalizing a with
  | zero => rfl
  | succ height ih =>
    rw [pageMapTo, missingTables]
    dsimp only
    split
    · rw [ih, missingTables_empty]
      simp only [Allocators.allocFrames, Nat.add_assoc, Nat.add_comm 1]
    · exact ih _

end Page

theorem not_samePage_of_ne {start i j : Nat} (hi : i < 2 ^ 36) (hj : j < 2 ^ 36) (hne : i ≠ j) :
    ¬SamePage 3 (start + i * pageSize) (start + j * pageSize) := by
  intro hsame
  simp only [SamePage, entryIndex, Fin.mk.injEq, pageSize] at hsame
  omega

/-- The address field of a page boundary below `2 ^ 52`. -/
theorem and_pteAddrMask {page : Nat} (h : page < 2 ^ 40) :
    (UInt64.ofNat (page * pageSize) &&& pteAddrMask).toNat = page * pageSize := by
  have hlt : page * pageSize < 2 ^ 64 := by
    simp only [pageSize]
    omega
  have hmask : pteAddrMask.toNat = (2 ^ 40 - 1) <<< 12 := by decide
  have hshift : page * pageSize = page <<< 12 := by
    rw [Nat.shiftLeft_eq]
    rfl
  rw [UInt64.toNat_and, UInt64.toNat_ofNat_of_lt' hlt, hmask, hshift, ← Nat.shiftLeft_and_distrib,
    Nat.and_two_pow_sub_one_eq_mod, Nat.mod_eq_of_lt h]

section Block

variable {start count : Nat} {frame flags : UInt64} {table : PageDirectory}

theorem walkable_mapBlock {addr : Nat} (h : Walkable 3 table addr) (a : Allocators) :
    Walkable 3 (mapBlock frame flags start table a count).1 addr := by
  induction count with
  | zero => exact h
  | succ count ih => exact walkable_pageMapTo ih _

theorem missingTables_mapBlock (addr : Nat) (a : Allocators) :
    missingTables 3 (mapBlock frame flags start table a count).1 addr = tablesBeside table start addr count := by
  induction count with
  | zero => rfl
  | succ count ih =>
    rw [tablesBeside, List.range_succ, List.foldl_append]
    exact (missingTables_pageMapTo _).trans (congrArg (min · _) ih)

/-- One request is made for each table that is missing. -/
theorem mapBlock_allocators (a : Allocators) : (mapBlock frame flags start table a count).2 =
    { a with frames := a.frames + tableRequests table start count } := by
  induction count with
  | zero => rfl
  | succ count ih =>
    refine (pageMapTo_allocators _).trans ?_
    rw [missingTables_mapBlock, ih, tableRequests]
    simp only [Nat.add_assoc]

/-- The word of a page of a mapped block. -/
def blockWord (frame flags : UInt64) (i : Nat) : UInt64 :=
  (frame + UInt64.ofNat (i * pageSize)) &&& pteAddrMask ||| (flags ||| pteFrameAllocated)

theorem leaf_mapBlock (hcount : count ≤ 2 ^ 36) (a : Allocators)
    (hwalk : ∀ i < count, Walkable 3 table (start + i * pageSize)) :
    ∀ i < count, leaf 3 (mapBlock frame flags start table a count).1 (start + i * pageSize) =
      some (blockWord frame flags i) := by
  induction count with
  | zero => exact fun i hi => absurd hi (Nat.not_lt_zero i)
  | succ count ih =>
    intro i hi
    rcases Nat.lt_succ_iff_lt_or_eq.mp hi with hlt | rfl
    · apply leaf_pageMapTo_other
      · exact ih (by omega) (fun j hj => hwalk j (Nat.lt_succ_of_lt hj)) i hlt
      · exact not_samePage_of_ne (by omega) (by omega) (Nat.ne_of_lt hlt)
    · exact leaf_pageMapTo_self (walkable_mapBlock (hwalk i hi) a) _

theorem unmapPageRange_frees {words : Nat → UInt64} {total : Nat} (htotal : total ≤ 2 ^ 36)
    (hcount : count ≤ total) (a : Allocators)
    (hleaf : ∀ i < total, leaf 3 table (start + i * pageSize) = some (words i))
    (hwords : ∀ i < total, hasFlag (words i) ptePresent = true ∧
      hasFlag (words i) pteFrameAllocated = true) :
    (unmapPageRange table start a count).2.freed =
        ((List.range count).map fun i => words i &&& pteAddrMask).reverse ++ a.freed ∧
      ∀ i, count ≤ i → i < total →
        leaf 3 (unmapPageRange table start a count).1 (start + i * pageSize) = some (words i) := by
  induction count with
  | zero => exact ⟨rfl, fun i _ hi => hleaf i hi⟩
  | succ count ih =>
    rcases ih (by omega) with ⟨hfreed, hrest⟩
    have hpage := hrest count le_rfl (by omega)
    have hword := hwords count (by omega)
    have hone := unmapPage_frees hpage hword.1 hword.2 (unmapPageRange table start a count).2
    refine ⟨?_, ?_⟩
    · change (unmapPage 3 _ _ _).2.freed = _
      rw [hone, Allocators.freeFrame, hfreed, List.range_succ]
      simp
    · intro i hlow hhigh
      exact leaf_unmapPage_other (hrest i (by omega) hhigh)
        (not_samePage_of_ne (by omega) (by omega) (by omega)) _

end Block

/-- The number of pages of a length. -/
def pagesOf (length : UInt64) : Nat := pageAlignUp length.toNat / pageSize

/-- Where a block is mapped: in a free range of the user, or at its physical address. -/
def blockAddr (p : Process) (length flags : UInt64) : Nat :=
  if hasFlag flags pteUser then freeUserRange p (pageAlignUp length.toNat)
  else (p.allocators.allocFrames (pagesOf length)).1.toNat

theorem le_countToBlockPages (length : UInt64) :
    pagesOf length ≤ Buddy.countToBlockPages (pagesOf length) := by
  have hsmall : pagesOf length < 2 ^ 63 := by
    simp only [pagesOf, pageAlignUp, pageDown, pageSize]
    split <;> omega
  unfold Buddy.countToBlockPages Buddy.nextPowerOfTwo
  split_ifs with hone
  · exact hone
  · exact le_rfl
  · have hlog : (pagesOf length).log2 < 63 := (Nat.log2_lt (by omega)).mpr hsmall
    rw [Buddy.shiftedOne, Buddy.log2Floor, Nat.mod_eq_of_lt (by omega)]
    exact Nat.lt_log2_self.le

/-- The oracle answers a request for a block, and then requests for single frames, as the buddy
allocator does. -/
structure Served (platform : Platform) (system : System) (a : Allocators) (count : Nat) :
    Prop where
  block : (a.frameAt a.frames count).address.toNat = (system.state.allocFrames platform count).1
  tables : ∀ done, (a.frameAt (a.frames + 1 + done) 1).address.toNat =
    ((run (step platform) (system.step platform (.alloc count))
      (List.replicate done (.alloc 1))).state.allocFrames platform 1).1

/-- The calls of the allocator: the block, the frames of the tables, and the frames that
unmapping gives back. -/
def frameCalls (count tables : Nat) (freed : List UInt64) : List Action :=
  .alloc count :: (List.replicate tables (.alloc 1) ++ freed.map fun frame => .free frame.toNat 1)

section Call

variable {p : Process} {length flags : UInt64}

/-- A call that returns an address has mapped its block there. -/
theorem pageAllocRandom_mapped (h : (pageAllocRandom p length flags).1 ≠ 0) :
    let (frame, a) := p.allocators.allocFrames (pagesOf length)
    frame ≠ 0 ∧ (pageAllocRandom p length flags).1 = blockAddr p length flags ∧
      (pageAllocRandom p length flags).2.pagedir =
        (mapBlock frame flags (blockAddr p length flags) p.pagedir a (pagesOf length)).1 ∧
      (pageAllocRandom p length flags).2.allocators =
        (mapBlock frame flags (blockAddr p length flags) p.pagedir a (pagesOf length)).2 := by
  unfold pageAllocRandom blockAddr at *
  dsimp only at h ⊢
  split at h
  · exact absurd rfl h
  rename_i hlength
  rw [if_neg hlength]
  split at h
  · exact absurd rfl h
  rename_i hframe
  rw [if_neg hframe]
  refine ⟨hframe, ?_⟩
  split at h
  · rename_i huser
    rw [if_pos huser]
    split at h
    · exact absurd rfl h
    · rename_i haddr
      rw [if_neg haddr, if_pos huser]
      exact ⟨rfl, rfl, rfl⟩
  · rename_i huser
    rw [if_neg huser, if_neg huser]
    exact ⟨rfl, rfl, rfl⟩

theorem blockWord_flags (frame : UInt64) (i : Nat) (hpresent : hasFlag flags ptePresent = true) :
    hasFlag (blockWord frame flags i) ptePresent = true ∧
      hasFlag (blockWord frame flags i) pteFrameAllocated = true := by
  simp only [blockWord, hasFlag_or, hpresent]
  rw [show hasFlag pteFrameAllocated pteFrameAllocated = true by decide]
  simp

theorem blockWord_frame {frame : UInt64} {page i : Nat} (hflags : flags &&& pteAddrMask = 0)
    (hframe : frame.toNat = page * pageSize) (hbound : page + i < 2 ^ 40) :
    (blockWord frame flags i &&& pteAddrMask).toNat = (page + i) * pageSize := by
  have hsum : frame + UInt64.ofNat (i * pageSize) = UInt64.ofNat ((page + i) * pageSize) := by
    rw [← UInt64.ofNat_toNat (x := frame), hframe, ← UInt64.ofNat_add, Nat.add_mul]
  have howner : pteFrameAllocated &&& pteAddrMask = 0 := by decide
  rw [blockWord, word_or_and, word_or_and, hflags, howner, UInt64.and_assoc, UInt64.and_self, hsum,
    UInt64.or_zero, UInt64.or_zero]
  exact and_pteAddrMask hbound

/-- **Unmapping balances `page_alloc_random`** if and only if the number of pages is a power of two:
the number of free frames is the one before the call, but for the frames of new tables. The flags
make the pages present, the way to them leads through tables, and no table frame is refused. -/
theorem pageAllocRandom_balanced (platform : Platform) (system : System) (p : Process)
    (length flags : UInt64) (sound : system.Sound platform)
    (served : Served platform system p.allocators (pagesOf length))
    (hreturn : (pageAllocRandom p length flags).1 ≠ 0) (hpresent : hasFlag flags ptePresent = true)
    (hflags : flags &&& pteAddrMask = 0)
    (hwalk : ∀ i < pagesOf length, Walkable 3 p.pagedir (blockAddr p length flags + i * pageSize))
    (hgranted : ∀ k < tableRequests p.pagedir (blockAddr p length flags) (pagesOf length),
      (p.allocators.frameAt (p.allocators.frames + 1 + k) 1).address ≠ 0) :
    let (addr, p') := pageAllocRandom p length flags
    let tables := p'.allocators.frames - (p.allocators.frames + 1)
    ∃ freed, (unmapPageRange p'.pagedir addr p'.allocators (pagesOf length)).2.freed =
        freed.reverse ++ p.allocators.freed ∧
      ((run (step platform) system (frameCalls (pagesOf length) tables freed)).state.freeTotal + tables =
        system.state.freeTotal ↔ Buddy.countToBlockPages (pagesOf length) = pagesOf length) := by
  have hmapped := pageAllocRandom_mapped hreturn
  generalize pageAllocRandom p length flags = result at *
  obtain ⟨addr, p'⟩ := result
  dsimp only at *
  rcases hmapped with ⟨hframe, rfl, hdir, halloc⟩
  -- The block, as the buddy allocator sees it.
  have hproper : (system.state.allocFrames platform (pagesOf length)).1 ≠ 0 := by
    rw [← served.block]
    exact fun hzero => hframe (UInt64.toNat_inj.mp hzero)
  obtain ⟨page, hpage, hlevel, hlast⟩ := sound.allocFrames_block hproper
  have hle := le_countToBlockPages length
  have hbound : page + pagesOf length ≤ 2 ^ 40 := by
    have hsize := platform.bounded
    simp only [Platform.maxPfn, Buddy.pageSize] at hlast
    omega
  have hcount : pagesOf length ≤ 2 ^ 36 := hle.trans (hlevel.trans (by decide))
  have hbase : (p.allocators.allocFrames (pagesOf length)).1.toNat = page * pageSize :=
    served.block.trans hpage
  generalize (p.allocators.allocFrames (pagesOf length)).1 = frame at *
  -- The frames of the tables.
  rw [mapBlock_allocators] at halloc
  generalize blockAddr p length flags = addr at *
  generalize tableRequests p.pagedir addr (pagesOf length) = tables at *
  have hframes : p'.allocators.frames = p.allocators.frames + 1 + tables := by rw [halloc]; rfl
  have hnumber : p'.allocators.frames - (p.allocators.frames + 1) = tables := by omega
  rw [hnumber]
  have hafter : (system.step platform (.alloc (pagesOf length))).Sound platform :=
    sound.allocIn _ (pagesOf length)
  have hsingles := hafter.freeTotal_singles tables fun done hdone hzero =>
    hgranted done hdone (UInt64.toNat_inj.mp ((served.tables done).trans hzero))
  -- The frames that come back are those of the block, in order.
  have hleaf := @leaf_mapBlock addr (pagesOf length) frame flags p.pagedir hcount
    (p.allocators.allocFrames (pagesOf length)).2 hwalk
  rw [← hdir] at hleaf
  have hfrees := (unmapPageRange_frees hcount le_rfl p'.allocators hleaf
    fun i _ => blockWord_flags frame i hpresent).1
  refine ⟨(List.range (pagesOf length)).map fun i => blockWord frame flags i &&& pteAddrMask, ?_, ?_⟩
  · rw [hfrees, halloc]
    rfl
  have hpages : ((List.range (pagesOf length)).map fun i => blockWord frame flags i &&& pteAddrMask).map
      (fun f => Action.free f.toNat 1) =
      ((List.range (pagesOf length)).map (page + ·)).map fun q => .free (q * Buddy.pageSize) 1 := by
    rw [List.map_map, List.map_map]
    apply List.map_congr_left
    intro i hi
    have hlt : i < pagesOf length := List.mem_range.mp hi
    simp only [Function.comp]
    rw [blockWord_frame hflags hbase (by omega)]
    rfl
  have hlive : ∀ q ∈ (List.range (pagesOf length)).map (page + ·),
      q ∈ (run (step platform) (system.step platform (.alloc (pagesOf length)))
        (List.replicate tables (.alloc 1))).live := by
    intro q hq
    rcases List.mem_map.mp hq with ⟨i, hi, rfl⟩
    apply hsingles.2.2
    simp only [step, System.allocated]
    rw [if_neg hproper, hpage]
    apply Finset.mem_union_right
    rw [Buddy.blockFrames, Nat.mul_div_cancel _ (by decide), Finset.mem_Ico]
    have hlt := List.mem_range.mp hi
    omega
  have hnodup : ((List.range (pagesOf length)).map (page + ·)).Nodup :=
    List.Nodup.map (fun i j h => Nat.add_left_cancel h) List.nodup_range
  have htotal := hsingles.1.freeTotal_frees hnodup hlive
  have hblock := sound.freeTotal_alloc hproper
  rw [frameCalls, run_cons, run_append, hpages, htotal, List.length_map, List.length_range]
  omega

end Call

/-- A table at each level, without pages. -/
def tablesOnly : PageDirectory := fun _ => (3, fun _ => (3, fun _ => (3, Table.empty 1)))

/-- A process whose first block is at 1 MiB and that gets no further frames. -/
def smallProcess : Process where
  vmaManager := {}
  virtQueue := {}
  pagedir := tablesOnly
  brkCurrent := userBrkStart
  mmapStart := userMmapStart
  allocators := ⟨fun _ => true, 0,
    fun n _ => if n = 0 then ⟨0x100000, by decide⟩ else ⟨0, by decide⟩, 0, [], []⟩

/-- The allocator with four pages from 1 MiB on. -/
def smallSystem : System := (System.initial smallPlatform fun _ => 0).step smallPlatform
    (.add 0x100000 0x104000 .dma)

theorem sound_smallSystem : smallSystem.Sound smallPlatform := by
  apply (System.sound_initial _ _).add
  exact ⟨by decide, by decide, by decide, by decide +kernel, by decide +kernel⟩

theorem walkable_tablesOnly (addr : Nat) : Walkable 3 tablesOnly addr := by
  have hpresent : hasFlag 3 ptePresent = true := by decide
  have hhuge : hasFlag 3 pteHuge = false := by decide
  exact .inr ⟨hpresent, hhuge, .inr ⟨hpresent, hhuge, .inr ⟨hpresent, hhuge, trivial⟩⟩⟩

/-- Four pages take the whole memory, so that all later requests are refused. -/
theorem served_smallProcess : Served smallPlatform smallSystem smallProcess.allocators 4 := by
  refine ⟨by decide +kernel, ?_⟩
  have hfull : ((smallSystem.step smallPlatform (.alloc 4)).state.allocFrames
      smallPlatform 1).1 = 0 := by decide +kernel
  have hsound : (smallSystem.step smallPlatform (.alloc 4)).Sound
      smallPlatform := sound_smallSystem.allocIn [.normal, .dma32, .dma] 4
  have hsame : ∀ done, run (step smallPlatform)
      (smallSystem.step smallPlatform (.alloc 4)) (List.replicate done (.alloc 1)) =
      smallSystem.step smallPlatform (.alloc 4) := by
    intro done
    induction done with
    | zero => rfl
    | succ done ih =>
      rw [List.replicate_succ, run_cons, hsound.alloc_refused hfull]
      exact ih
  intro done
  rw [hsame, hfull]
  have hlater : smallProcess.allocators.frames + 1 + done ≠ 0 := by omega
  simp only [smallProcess] at hlater ⊢
  rw [if_neg hlater]
  rfl

theorem pageAllocRandom_balanced_fourPages :
    ∃ freed, (unmapPageRange (pageAllocRandom smallProcess 16384 3).2.pagedir 0x100000
        (pageAllocRandom smallProcess 16384 3).2.allocators 4).2.freed = freed.reverse ++ [] ∧
      (run (step smallPlatform) smallSystem
        (frameCalls 4 0 freed)).state.freeTotal + 0 = smallSystem.state.freeTotal := by
  obtain ⟨freed, hfreed, hbalanced⟩ := pageAllocRandom_balanced smallPlatform smallSystem smallProcess 16384 3
    sound_smallSystem served_smallProcess (by decide +kernel) (by decide) (by decide)
    (fun i _ => walkable_tablesOnly _) (by decide +kernel)
  exact ⟨freed, hfreed, hbalanced.mpr (by decide)⟩

/-- Three pages take a block of four and give back three frames: the fourth is lost. -/
theorem pageAllocRandom_loses_frame : (pageAllocRandom smallProcess 12288 3).1 = 0x100000 ∧
      (smallSystem.state.allocFrames smallPlatform 3).1 = 0x100000 ∧
      (pageAllocRandom smallProcess 12288 3).2.allocators.frames = 1 ∧
      (unmapPageRange (pageAllocRandom smallProcess 12288 3).2.pagedir 0x100000
        (pageAllocRandom smallProcess 12288 3).2.allocators 3).2.freed =
        [0x100000, 0x101000, 0x102000].reverse ∧
      smallSystem.state.freeTotal = 4 ∧
      (run (step smallPlatform) smallSystem
        (frameCalls 3 0 [0x100000, 0x101000, 0x102000])).state.freeTotal = 3 := by
  refine ⟨by decide +kernel, by decide +kernel, by decide +kernel, by decide +kernel,
    by decide +kernel, by decide +kernel⟩

end OpenXJ380.Memory
