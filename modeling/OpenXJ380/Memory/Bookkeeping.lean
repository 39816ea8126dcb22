/-
# The books of the memory calls

Five system calls edit the list of areas, the counter of mapped bytes and the
queue of lazily allocated ranges. The books balance when the list is sorted and
disjoint, the counter is the number of bytes in the list, and every page that a
call has promised to allocate later lies inside an area.

Cutting an area in two moves nothing, so `sys_mprotect` is described by one
relation between lists, which splits and changes of rights both satisfy.
-/

import OpenXJ380.Memory.Map
import OpenXJ380.Protocol.Run

namespace OpenXJ380.Memory

open List Data

/-- A page lies inside one area of the list. -/
def PageMapped (list : List Vma) (page : Nat) : Prop :=
  ∃ vma ∈ list, vma.vmStart ≤ page ∧ page + pageSize ≤ vma.vmEnd

/-- The same memory, cut into areas at other page boundaries. -/
structure Resplit (old new : List Vma) : Prop where
  sorted : VmaSorted old → VmaSorted new
  bytes : VmaSorted old → vmaBytes new = vmaBytes old
  pages : ∀ page, pageSize ∣ page → PageMapped old page → PageMapped new page
  bounded : ∀ bound, (∀ vma ∈ old, vma.vmEnd ≤ bound) → ∀ vma ∈ new, vma.vmEnd ≤ bound
  aligned : (∀ vma ∈ old, pageSize ∣ vma.vmStart ∧ pageSize ∣ vma.vmEnd) →
    ∀ vma ∈ new, pageSize ∣ vma.vmStart ∧ pageSize ∣ vma.vmEnd

theorem Resplit.refl (list : List Vma) : Resplit list list :=
  ⟨id, fun _ => rfl, fun _ _ => id, fun _ => id, id⟩

theorem Resplit.trans {first second third : List Vma} (h : Resplit first second)
    (h' : Resplit second third) : Resplit first third where
  sorted hs := h'.sorted (h.sorted hs)
  bytes hs := (h'.bytes (h.sorted hs)).trans (h.bytes hs)
  pages page hdvd hp := h'.pages page hdvd (h.pages page hdvd hp)
  bounded bound hb := h'.bounded bound (h.bounded bound hb)
  aligned ha := h'.aligned (h.aligned ha)

/-- Areas that fill the place of one area. -/
structure Fills (vma : Vma) (pieces : List Vma) : Prop where
  sorted : vma.vmStart < vma.vmEnd → VmaSorted pieces
  bytes : vma.vmStart < vma.vmEnd → vmaBytes pieces = vma.length
  pages : ∀ page, pageSize ∣ page → vma.vmStart ≤ page → page + pageSize ≤ vma.vmEnd →
    PageMapped pieces page
  inside : ∀ piece ∈ pieces, vma.vmStart ≤ piece.vmStart ∧ piece.vmEnd ≤ vma.vmEnd
  aligned : pageSize ∣ vma.vmStart ∧ pageSize ∣ vma.vmEnd →
    ∀ piece ∈ pieces, pageSize ∣ piece.vmStart ∧ pageSize ∣ piece.vmEnd

variable {pieces : List Vma} {vma : Vma} {after : VirtQueue}

/-- Areas inside the place of another one can replace it in a sorted list. -/
theorem VmaSorted.replace {before after : List Vma} (h : VmaSorted (before ++ vma :: after))
    (hpieces : VmaSorted pieces)
    (hinside : ∀ piece ∈ pieces, vma.vmStart ≤ piece.vmStart ∧ piece.vmEnd ≤ vma.vmEnd) :
    VmaSorted (before ++ pieces ++ after) := by
  rcases vmaSorted_append.mp h with ⟨hbefore, hrest, hcross⟩
  rcases vmaSorted_cons.mp hrest with ⟨-, hnext, hafter⟩
  rw [append_assoc]
  apply vmaSorted_append.mpr ⟨hbefore, vmaSorted_append.mpr ⟨hpieces, hafter, ?_⟩, ?_⟩
  · intro piece hpiece next hmem
    exact (hinside piece hpiece).2.trans (hnext next hmem)
  · intro first hfirst second hsecond
    rcases mem_append.mp hsecond with hpiece | hmem
    · exact (hcross first hfirst vma (by simp)).trans (hinside second hpiece).1
    · exact hcross first hfirst second (by simp [hmem])

/-- Replacing an area by areas that fill its place. -/
theorem Fills.resplit (h : Fills vma pieces) (before after : List Vma) :
    Resplit (before ++ vma :: after) (before ++ pieces ++ after) where
  sorted hs := hs.replace (h.sorted (hs.nonempty vma (by simp))) h.inside
  bytes hs := by
    have hvma := hs.nonempty vma (by simp)
    simp only [vmaBytes_append, vmaBytes_cons, h.bytes hvma]
    omega
  pages page hdvd hpage := by
    rcases hpage with ⟨found, hfound, hlow, hhigh⟩
    rcases mem_append.mp hfound with hmem | hmem
    · exact ⟨found, by simp [hmem], hlow, hhigh⟩
    · rcases mem_cons.mp hmem with rfl | hmem
      · rcases h.pages page hdvd hlow hhigh with ⟨piece, hpiece, hin⟩
        exact ⟨piece, by simp [hpiece], hin⟩
      · exact ⟨found, by simp [hmem], hlow, hhigh⟩
  bounded bound hb found hfound := by
    rw [append_assoc] at hfound
    rcases mem_append.mp hfound with hmem | hmem
    · exact hb found (by simp [hmem])
    · rcases mem_append.mp hmem with hpiece | hmem
      · exact (h.inside found hpiece).2.trans (hb vma (by simp))
      · exact hb found (by simp [hmem])
  aligned ha found hfound := by
    rw [append_assoc] at hfound
    rcases mem_append.mp hfound with hmem | hmem
    · exact ha found (by simp [hmem])
    · rcases mem_append.mp hmem with hpiece | hmem
      · exact h.aligned (ha vma (by simp)) found hpiece
      · exact ha found (by simp [hmem])

/-- An area with other rights fills the place of the area. -/
theorem fills_rights (vma : Vma) (flags : VmaFlags) : Fills vma [{ vma with vmFlags := flags }] where
  sorted hvma := vmaSorted_cons.mpr ⟨hvma, by simp, vmaSorted_nil⟩
  bytes _ := by simp [Vma.length]
  pages page _ hlow hhigh := ⟨_, mem_singleton_self _, hlow, hhigh⟩
  inside piece hpiece := by
    rw [mem_singleton.mp hpiece]
    exact ⟨le_rfl, le_rfl⟩
  aligned ha piece hpiece := by
    rw [mem_singleton.mp hpiece]
    exact ha

/-- So do the two parts of a split at a page boundary, and the area itself where
the split fails. -/
theorem fills_splitAt (vma : Vma) {addr : Nat} (haddr : pageSize ∣ addr) (a : Allocators) :
    Fills vma ((splitAt vma addr a).1 :: (splitAt vma addr a).2.1) := by
  rw [splitAt]
  split
  · exact fills_rights vma vma.vmFlags
  rename_i left right a' hsplit
  rcases vmaSplit_eq_some hsplit with ⟨hlow, hhigh, rfl, hstart, hend, -⟩
  exact
    { sorted := fun _ => vmaSorted_cons.mpr ⟨hlow,
        fun next hn => by rw [mem_singleton.mp hn, hstart],
        vmaSorted_cons.mpr ⟨by omega, by simp, vmaSorted_nil⟩⟩
      bytes := fun _ => by
        simp only [vmaBytes_cons, vmaBytes_nil, Vma.length]
        omega
      pages := fun page hdvd hfirst hlast => by
        -- Both the page and the cut are page boundaries, so the page is on one side.
        rcases Nat.lt_or_ge page addr with hlt | hge
        · refine ⟨_, mem_cons_self, hfirst, ?_⟩
          rcases hdvd with ⟨m, rfl⟩
          rcases haddr with ⟨n, rfl⟩
          simp only [pageSize] at *
          omega
        · exact ⟨right, by simp, by omega, by omega⟩
      inside := fun piece hpiece => by
        rcases mem_cons.mp hpiece with rfl | hpiece
        · exact ⟨le_rfl, by show addr ≤ vma.vmEnd; omega⟩
        · rw [mem_singleton.mp hpiece]
          omega
      aligned := fun ha piece hpiece => by
        rcases mem_cons.mp hpiece with rfl | hpiece
        · exact ⟨ha.1, haddr⟩
        · rw [mem_singleton.mp hpiece, hstart, hend]
          exact ⟨haddr, ha.2⟩ }

variable {stop start size : Nat} {foreign : Nat → Prop} {mgr : VmaManager} {queue : VirtQueue}

/-- Cutting the focused area at the end of the range and changing its rights. -/
theorem resplit_protect (hstop : pageSize ∣ stop) (prot : UInt64) (before after : List Vma)
    (vma : Vma) (a : Allocators) :
    let cut := if stop < vma.vmEnd then splitAt vma stop a else (vma, [], a)
    Resplit (before ++ vma :: after)
      (before ++ { cut.1 with vmFlags := cut.1.vmFlags.withProt prot } :: cut.2.1 ++ after) := by
  intro cut
  have hcut : Fills vma (cut.1 :: cut.2.1) := by
    show Fills vma ((if stop < vma.vmEnd then splitAt vma stop a else (vma, [], a)).1 ::
      (if stop < vma.vmEnd then splitAt vma stop a else (vma, [], a)).2.1)
    split
    · exact fills_splitAt vma hstop a
    · exact fills_rights vma vma.vmFlags
  have hfirst := hcut.resplit before after
  have hsecond := (fills_rights cut.1 (cut.1.vmFlags.withProt prot)).resplit before
    (cut.2.1 ++ after)
  simp only [append_assoc] at hfirst hsecond ⊢
  exact hfirst.trans hsecond

/-- The loop of `sys_mprotect` cuts areas at the ends of its range and changes
rights, nothing else. -/
theorem resplit_protectLoop (hstart : pageSize ∣ start) (hstop : pageSize ∣ stop) (prot : UInt64)
    (fuel cursor : Nat) (list : List Vma) (a : Allocators) :
    Resplit list (protectLoop start stop prot fuel cursor list a).1 := by
  induction fuel generalizing cursor list a with
  | zero => exact .refl list
  | succ fuel ih =>
    rw [protectLoop]
    split
    · exact .refl list
    split
    · exact .refl list
    rename_i before vma after hfocus
    rcases focus_eq_some hfocus with ⟨rfl, -, -⟩
    by_cases hbefore : vma.vmStart < start
    · simp only [hbefore]
      have hcut := (fills_splitAt vma hstart a).resplit before after
      split
      · exact hcut.trans (ih _ _ _)
      · rename_i before' vma' after' hagain
        rcases focus_eq_some hagain with ⟨hlist, -, -⟩
        rw [hlist] at hcut
        apply hcut.trans
        exact (resplit_protect hstop prot before' after' vma' _).trans (ih _ _ _)
    · simp only [hbefore]
      exact (resplit_protect hstop prot before after vma a).trans (ih _ _ _)

/-- A page that the queue promises to allocate on first use. -/
def Promised (queue : VirtQueue) (page : Nat) : Prop := ∃ entry ∈ queue.pages, entry.start ≤ page ∧
    page + pageSize ≤ entry.start + entry.count * pageSize

/-- The books balance. `foreign` are the pages promised by others than `sys_mmap`
and `sys_brk`, such as thread stacks, which have no area. -/
structure Books (foreign : Nat → Prop) (mgr : VmaManager) (queue : VirtQueue) : Prop where
  sorted : VmaSorted mgr.vmaList
  used : mgr.vmUsed = UInt64.ofNat (vmaBytes mgr.vmaList)
  bounded : ∀ vma ∈ mgr.vmaList, vma.vmEnd ≤ kernelAreaMem
  wellFormed : queue.WellFormed
  promised : ∀ page, pageSize ∣ page → Promised queue page →
    PageMapped mgr.vmaList page ∨ foreign page

theorem Books.of_resplit (h : Books foreign mgr queue) {list : List Vma}
    (hlist : Resplit mgr.vmaList list) :
    Books foreign { mgr with vmaList := list } queue where
  sorted := hlist.sorted h.sorted
  used := by rw [hlist.bytes h.sorted]; exact h.used
  bounded := hlist.bounded kernelAreaMem h.bounded
  wellFormed := h.wellFormed
  promised page hdvd hpage := (h.promised page hdvd hpage).imp (hlist.pages page hdvd) id

/-- A rewritten queue whose entries are parts of the old ones promises no more. -/
theorem promised_of_origin {part : LazyPage → LazyPage → Prop} {before : VirtQueue}
    (horigin : ∀ page ∈ after.pages, ∃ old ∈ before.pages, part page old)
    (hpart : ∀ {page old}, part page old → old.start ≤ page.start ∧
      page.start + page.count * pageSize ≤ old.start + old.count * pageSize) {page : Nat}
    (h : Promised after page) : Promised before page := by
  rcases h with ⟨entry, hentry, hlow, hhigh⟩
  rcases horigin entry hentry with ⟨old, hold, hrel⟩
  rcases hpart hrel with ⟨hfirst, hlast⟩
  exact ⟨old, hold, by omega, by omega⟩

section Unmap

variable {start size : Nat} (hstart : pageSize ∣ start) (hsize : pageSize ∣ size)
  (hend : start + size ≤ kernelAreaMem)

include hstart hsize hend

theorem unmapVirtualPage_spec {queue : VirtQueue} (h : queue.WellFormed) (a : Allocators) :
    VirtQueue.Rewritten VirtQueue.PartOf start (start + size) queue
        (queue.unmapVirtualPage start size a).1 ∧
      ∀ page ∈ (queue.unmapVirtualPage start size a).1.pages,
        page.meets start (start + size) = false := by
  have hwrap : (start + size) % 2 ^ 64 = start + size := by
    apply Nat.mod_eq_of_lt
    simp only [kernelAreaMem] at hend
    omega
  rw [VirtQueue.unmapVirtualPage, hwrap]
  exact VirtQueue.unmapLoop_spec hstart (Nat.dvd_add hstart hsize) h countP_le_length

/-- After the removal no promised page lies in the range. -/
theorem not_promised_unmapVirtualPage {queue : VirtQueue} (h : queue.WellFormed)
    (a : Allocators) {page : Nat}
    (hpage : Promised (queue.unmapVirtualPage start size a).1 page) :
    page + pageSize ≤ start ∨ start + size ≤ page ∨ ¬pageSize ∣ page := by
  rcases unmapVirtualPage_spec hstart hsize hend h a with ⟨hrewritten, hmeets⟩
  rcases hpage with ⟨entry, hentry, hlow, hhigh⟩
  have hout := hmeets entry hentry
  rw [← Bool.not_eq_true, VirtQueue.meets_iff (hrewritten.wellFormed.fits hentry)] at hout
  by_cases hdvd : pageSize ∣ page
  · rcases hdvd with ⟨m, rfl⟩
    rcases hstart with ⟨n, rfl⟩
    omega
  · exact .inr (.inr hdvd)

end Unmap

section

variable (h : Books foreign mgr queue)
include h

theorem Books.shrink (hafter : after.WellFormed)
    (hpromised : ∀ page, Promised after page → Promised queue page) :
    Books foreign mgr after :=
  { h with
    wellFormed := hafter
    promised := fun page hdvd hpage => h.promised page hdvd (hpromised page hpage) }

/-- Removing a range from the list keeps the books if what is promised in it is
foreign. -/
theorem Books.drop (hrange : start < stop) (a : Allocators)
    (hforeign : ∀ page, pageSize ∣ page → Promised queue page → start < page + pageSize →
      page < stop → foreign page) :
    Books foreign (vmaUnmapRange mgr start stop a).2.1 queue := by
  rw [vmaUnmapRange, if_neg (Nat.not_le.mpr hrange)]
  have hinit : mgr.vmUsed = UInt64.ofNat (0 + vmaBytes mgr.vmaList) := by
    rw [Nat.zero_add]
    exact h.used
  have hused := vmaUnmapWalk_used (a := a) hrange 0 hinit
  rw [Nat.zero_add] at hused
  exact
    { sorted := h.sorted.vmaUnmapWalk hrange mgr.vmUsed
      used := hused
      bounded := fun vma hvma => by
        rcases mem_vmaUnmapWalk hvma with ⟨old, hold, hpart⟩
        exact hpart.last.trans (h.bounded old hold)
      wellFormed := h.wellFormed
      promised := fun page hdvd hpage => by
        rcases h.promised page hdvd hpage with ⟨vma, hvma, hlow, hhigh⟩ | hout
        · by_cases hin : start < page + pageSize ∧ page < stop
          · exact .inr (hforeign page hdvd hpage hin.1 hin.2)
          · rcases vmaUnmapWalk_keeps hvma (show page < page + pageSize by simp [pageSize])
              hlow hhigh (show page + pageSize ≤ start ∨ stop ≤ page by omega) with
              ⟨part, hpart, -, hkept⟩
            exact .inl ⟨part, hpart, hkept⟩
        · exact .inr hout }

/-- Removing a range from the list and from the queue keeps the books. -/
theorem Books.clear (hstart : pageSize ∣ start)
    (hsize : pageSize ∣ size) (hpos : 0 < size) (hend : start + size ≤ kernelAreaMem)
    (a a' : Allocators) :
    Books foreign (vmaUnmapRange mgr start (start + size) a).2.1
      (queue.unmapVirtualPage start size a').1 := by
  rcases unmapVirtualPage_spec hstart hsize hend h.wellFormed a' with ⟨hrewritten, -⟩
  have hshrunk : Books foreign mgr (queue.unmapVirtualPage start size a').1 :=
    h.shrink hrewritten.wellFormed fun page hpage => promised_of_origin hrewritten.origin
      (fun hpart => ⟨hpart.first, hpart.last⟩) hpage
  apply hshrunk.drop (by omega)
  intro page hdvd hpage hlow hhigh
  rcases not_promised_unmapVirtualPage hstart hsize hend h.wellFormed a' hpage with
    hbefore | hafter | hodd
  · omega
  · omega
  · exact absurd hdvd hodd

end

section Insert

variable {foreign : Nat → Prop} {mgr mgr' : VmaManager} {queue : VirtQueue} {vma : Vma}

theorem Books.insert (h : Books foreign mgr queue) (hinsert : vmaInsert mgr vma = some mgr')
    (hvma : vma.vmStart < vma.vmEnd) (hend : vma.vmEnd ≤ kernelAreaMem) :
    Books foreign mgr' queue := by
  rcases vmaInsert_eq_some hinsert with ⟨hfree, hlist, hused⟩
  exact
    { sorted := by
        rw [hlist]
        exact h.sorted.vmaLink hvma hfree
      used := by rw [hused, hlist, vmaBytes_vmaLink, h.used, ← UInt64.ofNat_add, Nat.add_comm]
      bounded := fun other hother => by
        rw [hlist] at hother
        rcases mem_vmaLink.mp hother with rfl | hother
        · exact hend
        · exact h.bounded other hother
      wellFormed := h.wellFormed
      promised := fun page hdvd hpage => by
        rcases h.promised page hdvd hpage with ⟨other, hother, hin⟩ | hforeign
        · exact .inl ⟨other, by rw [hlist]; exact mem_vmaLink.mpr (.inr hother), hin⟩
        · exact .inr hforeign }

theorem pageMapped_insert (hinsert : vmaInsert mgr vma = some mgr') {page : Nat}
    (hlow : vma.vmStart ≤ page) (hhigh : page + pageSize ≤ vma.vmEnd) :
    PageMapped mgr'.vmaList page := by
  rcases vmaInsert_eq_some hinsert with ⟨-, hlist, -⟩
  exact ⟨vma, by rw [hlist]; exact mem_vmaLink.mpr (.inl rfl), hlow, hhigh⟩

variable {before after : List Vma}

theorem VmaSorted.grow (h : VmaSorted (before ++ vma :: after)) {stop : Nat}
    (hstop : vma.vmEnd < stop)
    (hfree : ∀ other ∈ before ++ vma :: after, stop ≤ other.vmStart ∨ other.vmEnd ≤ vma.vmEnd) :
    VmaSorted (before ++ { vma with vmEnd := stop } :: after) := by
  rcases vmaSorted_append.mp h with ⟨hbefore, hrest, hcross⟩
  rcases vmaSorted_cons.mp hrest with ⟨hvma, hnext, hafter⟩
  refine vmaSorted_append.mpr ⟨hbefore, vmaSorted_cons.mpr ⟨hvma.trans hstop, ?_, hafter⟩, ?_⟩
  · intro next hmem
    have hnonempty := hafter.nonempty next hmem
    have hbehind := hnext next hmem
    have := hfree next (by simp [hmem])
    show stop ≤ next.vmStart
    omega
  · intro first hfirst second hsecond
    rcases mem_cons.mp hsecond with rfl | hsecond
    · exact hcross first hfirst vma (by simp)
    · exact hcross first hfirst second (by simp [hsecond])

theorem Books.grow (h : Books foreign mgr queue) (hlist : mgr.vmaList = before ++ vma :: after)
    {stop : Nat} (hstop : vma.vmEnd < stop) (hend : stop ≤ kernelAreaMem)
    (hfree : ∀ other ∈ mgr.vmaList, stop ≤ other.vmStart ∨ other.vmEnd ≤ vma.vmEnd) :
    Books foreign
      { vmaList := before ++ { vma with vmEnd := stop } :: after
        vmUsed := mgr.vmUsed + UInt64.ofNat (stop - vma.vmEnd) } queue := by
  have hvma := h.sorted.nonempty vma (by rw [hlist]; simp)
  exact
    { sorted := (hlist ▸ h.sorted).grow hstop (hlist ▸ hfree)
      used := by
        rw [h.used, hlist, ← UInt64.ofNat_add]
        simp only [vmaBytes_append, vmaBytes_cons, Vma.length]
        congr 1
        omega
      bounded := fun other hother => by
        rcases mem_append.mp hother with hother | hother
        · exact h.bounded other (by rw [hlist]; simp [hother])
        · rcases mem_cons.mp hother with rfl | hother
          · exact hend
          · exact h.bounded other (by rw [hlist]; simp [hother])
      wellFormed := h.wellFormed
      promised := fun page hdvd hpage => by
        rcases h.promised page hdvd hpage with ⟨other, hother, hlow, hhigh⟩ | hforeign
        · rw [hlist] at hother
          rcases mem_append.mp hother with hother | hother
          · exact .inl ⟨other, by simp [hother], hlow, hhigh⟩
          · rcases mem_cons.mp hother with rfl | hother
            · exact .inl ⟨_, mem_append_right _ mem_cons_self, hlow, hhigh.trans hstop.le⟩
            · exact .inl ⟨other, by simp [hother], hlow, hhigh⟩
        · exact .inr hforeign }

theorem exists_vmaLink (vma : Vma) (list : List Vma) :
    ∃ before after, list = before ++ after ∧ vmaLink vma list = before ++ vma :: after := by
  induction list with
  | nil => exact ⟨[], [], rfl, rfl⟩
  | cons next rest ih =>
    rw [vmaLink]
    split
    · rcases ih with ⟨before, after, hlist, hlink⟩
      exact ⟨next :: before, after, by rw [hlist, cons_append], by rw [hlink, cons_append]⟩
    · exact ⟨[], next :: rest, rfl, rfl⟩

theorem removeArea_insert (hinsert : vmaInsert mgr vma = some mgr')
    (hvma : vma.vmStart < vma.vmEnd) : removeArea mgr' vma = mgr := by
  rcases vmaInsert_eq_some hinsert with ⟨hfree, hlist, hused⟩
  rcases exists_vmaLink vma mgr.vmaList with ⟨before, after, hold, hlink⟩
  have hbefore : ∀ other ∈ before, (other == vma) = false := fun other hother => by
    rw [beq_eq_false_iff_ne]
    rintro rfl
    have := hfree other (by rw [hold]; simp [hother])
    omega
  have hfocus : focus (· == vma) mgr'.vmaList = some (before, vma, after) := by
    rw [hlist, hlink]
    exact focus_append_of_false hbefore (beq_self_eq_true vma)
  rw [removeArea, hfocus]
  show vmaRemove mgr' before vma after = mgr
  rw [vmaRemove, hused, ← hold, UInt64.add_sub_cancel]

end Insert

/-- Recording a range whose pages all have an area keeps the books. -/
theorem Books.record (h : Books foreign mgr queue) {vaddr length : Nat}
    (hvaddr : pageSize ∣ vaddr) (hlength : pageSize ∣ length)
    (hend : vaddr + length ≤ kernelAreaMem)
    (hmapped : ∀ page, vaddr ≤ page → page + pageSize ≤ vaddr + length →
      PageMapped mgr.vmaList page) (pteFlags flags : UInt64) (a : Allocators) :
    Books foreign mgr (queue.record vaddr length pteFlags flags a).2.1 := by
  have hlt : vaddr + length < 2 ^ 64 := by
    simp only [kernelAreaMem] at hend
    omega
  rcases VirtQueue.record_spec h.wellFormed hvaddr hlength hlt pteFlags flags a with
    ⟨hafter, hpages⟩
  refine { h with wellFormed := hafter, promised := fun page hdvd hpage => ?_ }
  rcases hpage with ⟨entry, hentry, hlow, hhigh⟩
  have hpos : 0 < pageSize := by decide
  rcases hpages entry hentry with hold | ⟨-, -, hcovers⟩
  · exact h.promised page hdvd ⟨entry, hold, hlow, hhigh⟩
  rcases hcovers page ⟨hlow, by omega⟩ with ⟨hfirst, hlast⟩ | ⟨old, hold, -, -, hcover⟩
  · -- The range ends at a page boundary, so it contains the whole page.
    apply Or.inl (hmapped page hfirst ?_)
    rcases hdvd with ⟨m, rfl⟩
    rcases Nat.dvd_add hvaddr hlength with ⟨n, hn⟩
    simp only [pageSize] at *
    omega
  · apply h.promised page hdvd ⟨old, hold, hcover.1, ?_⟩
    rcases hdvd with ⟨m, rfl⟩
    rcases (h.wellFormed.fits hold).dvd_end with ⟨n, hn⟩
    have := hcover.2
    simp only [pageSize] at *
    omega

/-- The books of a process balance. -/
def Process.Balanced (foreign : Nat → Prop) (p : Process) : Prop :=
  Books foreign p.vmaManager p.virtQueue

theorem range_le (h : checkUserOverflow start size = false) (hpos : 0 < size) :
    start + size ≤ kernelAreaMem :=
  checkUserOverflow_eq_false h (Nat.pos_iff_ne_zero.mp hpos)

theorem alignUp_pos {value : Nat} (h : alignUp value = some size) (hvalue : 0 < value) :
    0 < size := Nat.lt_of_lt_of_le hvalue (le_alignUp h)

theorem toNat_pos {word : UInt64} (h : ¬word = 0) : 0 < word.toNat := by
  apply Nat.pos_of_ne_zero
  intro hzero
  exact h (UInt64.toNat_inj.mp hzero)

section Calls

variable {foreign : Nat → Prop} {p : Process}

theorem Process.Balanced.sysMprotect (h : p.Balanced foreign) (addr length prot : UInt64) :
    (sysMprotect p addr length prot).2.Balanced foreign := by
  rw [Memory.sysMprotect]
  split
  · exact h
  rename_i hlength
  dsimp only
  split
  · exact h
  rename_i size hsize
  split
  · exact h
  split
  · exact h
  have hstart := pageDown_dvd addr.toNat
  have hstop := Nat.dvd_add hstart (alignUp_dvd hsize)
  have hpos := alignUp_pos hsize (toNat_pos hlength)
  rcases VirtQueue.repaintLoop_spec
    (a := (protectLoop (pageDown addr.toNat) (pageDown addr.toNat + size) prot
      p.vmaManager.vmaList.length (pageDown addr.toNat) p.vmaManager.vmaList
      p.allocators).2) hstart hstop (by omega) h.wellFormed countP_le_length with
    ⟨hrewritten, -⟩
  exact (h.of_resplit (resplit_protectLoop hstart hstop prot _ _ _ _)).shrink
    hrewritten.wellFormed fun page hpage => promised_of_origin hrewritten.origin
      (fun hpart => ⟨hpart.first, hpart.last⟩) hpage

variable {start size length : Nat}

theorem Process.Balanced.clearRange (h : p.Balanced foreign) (hstart : pageSize ∣ start)
    (hsize : pageSize ∣ size) (hpos : 0 < size) (hend : start + size ≤ kernelAreaMem) :
    (clearRange p start size).Balanced foreign :=
  Books.clear h hstart hsize hpos hend _ _

theorem Process.Balanced.sysMunmap (h : p.Balanced foreign) (addr size : UInt64) :
    (sysMunmap p addr size).2.Balanced foreign := by
  rw [Memory.sysMunmap]
  split
  · exact h
  rename_i hzero
  dsimp only
  split
  · exact h
  rename_i size' hsize
  split
  · exact h
  rename_i hrange
  have hpos := alignUp_pos hsize (toNat_pos hzero)
  have hend := range_le (by simpa using hrange) hpos
  have hclear := Books.clear h (pageDown_dvd addr.toNat) (alignUp_dvd hsize) hpos hend p.allocators
  split
  · -- Out of memory: the list is unchanged.
    rename_i mgr a hunmap
    have hsame : mgr = p.vmaManager := vmaUnmapRange_failed h.sorted hunmap
    rw [hsame]
    exact h
  · rename_i mgr a hunmap
    rw [hunmap] at hclear
    exact hclear a

/-- A range the search returns starts at a page, ends before the heap and passed
the availability test. -/
theorem findLoop_spec {limit fuel : Nat} (hstart : pageSize ∣ start)
    (hfound : findLoop p length limit fuel start ≠ 0) :
    pageSize ∣ findLoop p length limit fuel start ∧ findLoop p length limit fuel start ≤ limit ∧
      userRangeAvailable p (findLoop p length limit fuel start) length = true := by
  induction fuel generalizing start with
  | zero => exact absurd rfl hfound
  | succ fuel ih =>
    rw [findLoop] at hfound ⊢
    split at hfound
    · exact absurd rfl hfound
    rename_i hlimit
    rw [if_neg hlimit]
    split at hfound
    · rename_i havailable
      rw [if_pos havailable]
      exact ⟨hstart, Nat.not_lt.mp hlimit, havailable⟩
    · rename_i hoccupied
      rw [if_neg hoccupied]
      exact ih (Nat.dvd_add hstart (Nat.dvd_refl _)) hfound

theorem findUserMmapRange_spec {hint : Nat} (hfound : findUserMmapRange p hint length ≠ 0) :
    pageSize ∣ findUserMmapRange p hint length ∧
      findUserMmapRange p hint length + length ≤ userBrkStart ∧
      userRangeAvailable p (findUserMmapRange p hint length) length = true := by
  rw [findUserMmapRange] at hfound ⊢
  dsimp only at hfound ⊢
  have hstart : pageSize ∣ if userMmapStart ≤ hint then pageDown hint else userMmapStart := by
    split
    · exact pageDown_dvd hint
    · decide
  generalize (if userMmapStart ≤ hint then pageDown hint else userMmapStart) = start at *
  split at hfound
  · exact absurd rfl hfound
  rename_i hfits
  rw [if_neg hfits]
  rcases findLoop_spec hstart hfound with ⟨hdvd, hle, havailable⟩
  exact ⟨hdvd, by omega, havailable⟩

variable {addr vaddr : Nat}

theorem hintedPlace_spec (h : hintedPlace p addr size = .ok start) :
    start = addr ∧ addr + size ≤ userBrkStart ∧ userRangeAvailable p addr size = true := by
  rw [hintedPlace] at h
  split at h
  · simp at h
  rename_i hwindow
  split at h
  · simp at h
  rename_i havailable
  cases h
  simp only [Bool.or_eq_true, decide_eq_true_eq] at hwindow
  exact ⟨rfl, by omega, by simpa using havailable⟩

theorem searchPlace_spec (h : searchPlace p size = .ok start) :
    pageSize ∣ start ∧ start + size ≤ userBrkStart ∧ userRangeAvailable p start size = true := by
  rw [searchPlace] at h
  split at h
  · rename_i hfound
    cases h
    exact findUserMmapRange_spec hfound
  · split at h
    · rename_i hfound
      cases h
      exact findUserMmapRange_spec hfound.2
    · simp at h

/-- Resetting the cursor leaves the areas and the queue alone. -/
theorem resetCursor_spec (p : Process) : (resetCursor p).vmaManager = p.vmaManager ∧
    (resetCursor p).virtQueue = p.virtQueue := by
  rw [resetCursor]
  split <;> exact ⟨rfl, rfl⟩

/-- A place for a mapping is a range of user pages; finding it leaves the areas
and the queue alone. -/
theorem mmapPlace_spec {fixed : Bool} (haddr : pageSize ∣ addr) (hpos : 0 < size)
    (h : (mmapPlace p addr size fixed).1 = .ok start) :
    pageSize ∣ start ∧ start + size ≤ kernelAreaMem := by
  have hbrk : userBrkStart ≤ kernelAreaMem := by decide
  rw [mmapPlace] at h
  split at h
  · split at h
    · simp at h
    rename_i hrange
    cases h
    simp only [Bool.or_eq_true, not_or, Bool.not_eq_true] at hrange
    exact ⟨haddr, range_le hrange.2 hpos⟩
  · split at h
    · rcases hintedPlace_spec h with ⟨rfl, hend, -⟩
      exact ⟨haddr, hend.trans hbrk⟩
    · rcases searchPlace_spec h with ⟨hdvd, hend, -⟩
      exact ⟨hdvd, hend.trans hbrk⟩

theorem mmapPlace_state (p : Process) (addr size : Nat) (fixed : Bool) :
    (mmapPlace p addr size fixed).2.vmaManager = p.vmaManager ∧
      (mmapPlace p addr size fixed).2.virtQueue = p.virtQueue := by
  rw [mmapPlace]
  split
  · exact ⟨rfl, rfl⟩
  · exact resetCursor_spec p

/-- Handing a mapped range to the lazy allocator keeps the books. -/
theorem Process.Balanced.lazyInfoalloc (h : p.Balanced foreign) (hvaddr : pageSize ∣ vaddr)
    (hlength : pageSize ∣ length) (hend : vaddr + length ≤ kernelAreaMem)
    (hmapped : ∀ page, vaddr ≤ page → page + pageSize ≤ vaddr + length →
      PageMapped p.vmaManager.vmaList page) (pageFlags flags : UInt64) :
    (lazyInfoalloc p vaddr length pageFlags flags).2.Balanced foreign := by
  rw [Memory.lazyInfoalloc]
  split
  · exact h
  split
  · rcases unmapVirtualPage_spec hvaddr hlength hend h.wellFormed p.allocators with
      ⟨hrewritten, -⟩
    exact h.shrink hrewritten.wellFormed fun page hpage => promised_of_origin hrewritten.origin
      (fun hpart => ⟨hpart.first, hpart.last⟩) hpage
  · exact h.record hvaddr hlength hend hmapped pageFlags flags _

theorem vmaManager_lazyInfoalloc (vaddr length : Nat) (pageFlags flags : UInt64) :
    (lazyInfoalloc p vaddr length pageFlags flags).2.vmaManager = p.vmaManager := by
  rw [lazyInfoalloc]
  split
  · rfl
  · split <;> rfl

/-- Where it fails, it promises nothing new. -/
theorem promised_lazyInfoalloc_failed (h : p.virtQueue.WellFormed) {pageFlags flags : UInt64}
    (hfail : (lazyInfoalloc p vaddr length pageFlags flags).1 = false) {page : Nat}
    (hpage : Promised (lazyInfoalloc p vaddr length pageFlags flags).2.virtQueue page) :
    Promised p.virtQueue page := by
  rw [lazyInfoalloc] at hfail hpage
  split at hfail
  · rename_i hcount
    rw [if_pos hcount] at hpage
    exact hpage
  · rename_i hcount
    rw [if_neg hcount] at hpage
    split at hfail
    · simp at hfail
    rename_i hfixed
    rw [if_neg hfixed] at hpage
    rcases hpage with ⟨entry, hentry, hin⟩
    exact ⟨entry, VirtQueue.record_failed h hfail entry hentry, hin⟩

theorem vfsMap_state (start size : Nat) (prot : UInt64) (file : FileMapping) :
    (vfsMap p start size prot file).2.vmaManager = p.vmaManager ∧
      (vfsMap p start size prot file).2.virtQueue = p.virtQueue := by
  cases file <;> exact ⟨rfl, rfl⟩

/-- Undoing a promise: a range that no area met is mapped, cannot be recorded and
is removed again. What is promised there was promised before any area covered
it, so by others. -/
theorem Process.Balanced.undo (h : p.Balanced foreign) {mgr : VmaManager} {queue : VirtQueue}
    (hmapped : Books foreign mgr queue) {stop : Nat} (hrange : start < stop)
    (hfree : ∀ other ∈ p.vmaManager.vmaList, stop ≤ other.vmStart ∨ other.vmEnd ≤ start)
    (hpromised : ∀ page, Promised queue page → Promised p.virtQueue page) (a : Allocators) :
    Books foreign (vmaUnmapRange mgr start stop a).2.1 queue := by
  apply hmapped.drop hrange
  intro page hdvd hpage hlow hhigh
  rcases h.promised page hdvd (hpromised page hpage) with ⟨other, hother, hfirst, hlast⟩ | hout
  · have := hfree other hother
    omega
  · exact hout

theorem advanceCursor_state (p : Process) (fixed : Bool) (stop : Nat) :
    (advanceCursor p fixed stop).vmaManager = p.vmaManager ∧
      (advanceCursor p fixed stop).virtQueue = p.virtQueue := by
  rw [advanceCursor]
  split <;> exact ⟨rfl, rfl⟩

variable (h : p.Balanced foreign)
include h

/-- Filling a freshly inserted area keeps the books; `p` is the process before
the insertion and `q` the one after it. -/
theorem Process.Balanced.mmapFill {q : Process} {mgr : VmaManager}
    {vma : Vma} (hinsert : vmaInsert p.vmaManager vma = some mgr) (hmgr : q.vmaManager = mgr)
    (hqueue : q.virtQueue = p.virtQueue) (hstart : vma.vmStart = start)
    (hstop : vma.vmEnd = start + size) (hdvd : pageSize ∣ start) (hsize : pageSize ∣ size)
    (hpos : 0 < size) (hend : start + size ≤ kernelAreaMem) (prot flags : UInt64)
    (file : FileMapping) : (mmapFill q vma start size prot flags file).2.Balanced foreign := by
  have hvma : vma.vmStart < vma.vmEnd := by omega
  have hinserted : q.Balanced foreign := by
    rw [Process.Balanced, hmgr, hqueue]
    exact Books.insert h hinsert hvma (by omega)
  rw [Memory.mmapFill]
  split
  · rcases vfsMap_state (p := q) start size prot file with ⟨hfileMgr, hfileQueue⟩
    split
    · rename_i error r hmap
      rw [hmap] at hfileMgr hfileQueue
      rw [hfileMgr, hfileQueue, hmgr, hqueue, removeArea_insert hinsert hvma]
      exact h
    · rename_i r hmap
      rw [hmap] at hfileMgr hfileQueue
      show Books foreign r.vmaManager r.virtQueue
      rw [hfileMgr, hfileQueue]
      exact hinserted
  · have hlazy := hinserted.lazyInfoalloc hdvd hsize hend (fun page hlow hhigh => by
        rw [hmgr]
        exact pageMapped_insert hinsert (by omega) (by omega)) (mmapPteFlags prot) flags
    split
    · rename_i r hinfo
      rw [hinfo] at hlazy
      exact hlazy
    · rename_i r hinfo
      have hfail : (Memory.lazyInfoalloc q start size (mmapPteFlags prot) flags).1 = false := by
        rw [hinfo]
      have hold : ∀ page, Promised r.virtQueue page → Promised p.virtQueue page := by
        intro page hpage
        rw [← hqueue]
        apply promised_lazyInfoalloc_failed hinserted.wellFormed hfail
        rw [hinfo]
        exact hpage
      have hfree := (vmaInsert_eq_some hinsert).1
      rw [hstart, hstop] at hfree
      rw [hinfo] at hlazy
      exact h.undo hlazy (by omega) hfree hold r.allocators

theorem Process.Balanced.mmapAt (hstart : pageSize ∣ start)
    (hsize : pageSize ∣ size) (hpos : 0 < size) (hend : start + size ≤ kernelAreaMem)
    (prot flags : UInt64) (fd : Int) (offset : UInt64) (file : FileMapping) :
    (mmapAt p start size prot flags fd offset file).2.Balanced foreign := by
  rw [Memory.mmapAt]
  dsimp only
  split
  · exact h
  have hprepared : (prepareRange { p with allocators := p.allocators.malloc.2 }
      (hasFlag flags mapFixed) start size).Balanced foreign := by
    rw [prepareRange]
    split
    · exact Books.clear h hstart hsize hpos hend _ _
    · exact h
  split
  · exact hprepared
  rename_i mgr hinsert
  rcases advanceCursor_state
    { prepareRange { p with allocators := p.allocators.malloc.2 }
        (hasFlag flags mapFixed) start size with vmaManager := mgr }
    (hasFlag flags mapFixed) (start + size) with ⟨hmgr, hqueue⟩
  exact hprepared.mmapFill hinsert hmgr hqueue rfl rfl hstart hsize hpos hend prot flags file

theorem Process.Balanced.sysMmap (addr length prot flags : UInt64)
    (fd : Int) (offset : UInt64) (file : FileMapping) :
    (sysMmap p addr length prot flags fd offset file).2.Balanced foreign := by
  rw [Memory.sysMmap]
  split
  · exact h
  rename_i size hsize
  split
  · exact h
  split
  · exact h
  rename_i hzero
  have hpos : 0 < size := Nat.pos_of_ne_zero hzero
  rcases mmapPlace_state p (pageDown addr.toNat) size (hasFlag flags mapFixed) with
    ⟨hmgr, hqueue⟩
  have hplaced : (mmapPlace p (pageDown addr.toNat) size
      (hasFlag flags mapFixed)).2.Balanced foreign := by
    rw [Process.Balanced, hmgr, hqueue]
    exact h
  split
  · rename_i error q hplace
    rw [hplace] at hplaced
    exact hplaced
  · rename_i start q hplace
    rcases mmapPlace_spec (pageDown_dvd addr.toNat) hpos
      (congrArg Prod.fst hplace) with ⟨hstart, hend⟩
    rw [hplace] at hplaced
    split
    · exact hplaced
    · exact hplaced.mmapAt hstart (alignUp_dvd hsize) hpos hend prot flags fd offset _

end Calls

end OpenXJ380.Memory
