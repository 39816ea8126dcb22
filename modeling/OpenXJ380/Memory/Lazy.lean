/-
# Lazily allocated ranges

`kernel/memory/lazyalloc.cpp` records the ranges a process may touch but that
have no frame yet in a queue of entries, and `kernel/lock_queue.cpp` gives each
entry the next index of a counter. An entry is taken out by its index.

Removing a range, or changing its page flags, is a loop: find the first entry
that still meets the range, put back the pieces outside it, take the entry out.
The loops run on fuel here. A piece never meets the range again, so the number
of entries that do is a bound, and that many rounds are enough.
-/

import OpenXJ380.Data.Focus
import OpenXJ380.Memory.Layout

namespace OpenXJ380.Memory

open List Data

/-- `mm_virtual_page_t`. -/
structure LazyPage where
  start : Nat
  count : Nat
  flags : UInt64
  pteFlags : UInt64
  index : Nat
  deriving DecidableEq

/-- The queue `virt_queue` of a process. -/
structure VirtQueue where
  pages : List LazyPage := []
  nextIndex : Nat := 0

/-- `start + count * PAGE_SIZE`, in 64 bits. -/
def LazyPage.stop (page : LazyPage) : Nat := (page.start + page.count * pageSize) % 2 ^ 64

def LazyPage.meets (page : LazyPage) (start stop : Nat) : Bool :=
  decide (start < page.stop) && decide (page.start < stop)

def lazyRangeEnd (start count : Nat) : Option Nat :=
  if (2 ^ 64 - 1) / pageSize < count then none
  else if 2 ^ 64 - 1 - count * pageSize < start then none
  else some (start + count * pageSize)

namespace VirtQueue

/-- Append an entry under a fresh index. -/
def enqueue (queue : VirtQueue) (page : LazyPage) (a : Allocators) :
    Option Nat × VirtQueue × Allocators :=
  if !a.malloc.1 then (none, queue, a.malloc.2)
  else if queue.nextIndex = 2 ^ 64 - 1 then (none, queue, a.malloc.2)
  else
    (some queue.nextIndex,
      { pages := queue.pages ++ [{ page with index := queue.nextIndex }]
        nextIndex := queue.nextIndex + 1 },
      a.malloc.2)

/-- `queue_remove_at`, without the returned handle. -/
def removeAt (queue : VirtQueue) (index : Nat) : VirtQueue :=
  { queue with pages := queue.pages.eraseP (·.index == index) }

/-- Allocate and enqueue pieces one after the other. Where the allocation is
tested, a piece that gets no memory is left out; a piece whose queue node gets
none is lost in any case, as the returned index is not looked at. -/
def enqueueAll (tested : Bool) (queue : VirtQueue) (a : Allocators) :
    List LazyPage → VirtQueue × Allocators
  | [] => (queue, a)
  | page :: rest =>
    if tested && !a.malloc.1 then enqueueAll tested queue a.malloc.2 rest
    else
      let (_, queue, a) := queue.enqueue page a.malloc.2
      enqueueAll tested queue a rest

/-- The parts of an entry before and after a range. -/
def outside (page : LazyPage) (start stop : Nat) : List LazyPage := (if page.start < start then
      [{ page with count := (start - page.start) / pageSize }] else []) ++
    (if stop < page.stop then
      [{ page with start := stop, count := (page.stop - stop) / pageSize }] else [])

/-- The loop of `unmap_virtual_page`. The source uses the memory of the pieces
without a test, so those allocations are taken to succeed. -/
def unmapLoop (start stop : Nat) : Nat → VirtQueue → Allocators → VirtQueue × Allocators
  | 0, queue, a => (queue, a)
  | fuel + 1, queue, a =>
    match queue.pages.find? (·.meets start stop) with
    | none => (queue, a)
    | some page =>
      let (queue, a) := enqueueAll false queue a (outside page start stop)
      unmapLoop start stop fuel (queue.removeAt page.index) a

def unmapVirtualPage (queue : VirtQueue) (vaddr length : Nat) (a : Allocators) :
    VirtQueue × Allocators :=
  unmapLoop vaddr ((vaddr + length) % 2 ^ 64) queue.pages.length queue a

/-- An entry whose flags `update_lazy_pte_flags` still has to change. -/
def stale (start stop : Nat) (pteFlags : UInt64) (page : LazyPage) : Bool :=
  page.meets start stop && page.pteFlags != pteFlags

/-- The three pieces an entry is cut into: before the range, inside, after. -/
def repainted (page : LazyPage) (start stop : Nat) (pteFlags : UInt64) : List LazyPage :=
  let first := max page.start start
  let last := min page.stop stop
  (if page.start < first then
      [{ page with count := (first - page.start) / pageSize }] else []) ++
    [{ page with start := first, count := (last - first) / pageSize, pteFlags := pteFlags }] ++
    (if last < page.stop then
      [{ page with start := last, count := (page.stop - last) / pageSize }] else [])

/-- The loop of `update_lazy_pte_flags`. -/
def repaintLoop (start stop : Nat) (pteFlags : UInt64) :
    Nat → VirtQueue → Allocators → VirtQueue × Allocators
  | 0, queue, a => (queue, a)
  | fuel + 1, queue, a =>
    match queue.pages.find? (stale start stop pteFlags) with
    | none => (queue, a)
    | some page =>
      let queue := queue.removeAt page.index
      if max page.start start = page.start ∧ min page.stop stop = page.stop then
        -- The whole entry changes and its own record is enqueued again.
        let (_, queue, a) := queue.enqueue { page with pteFlags := pteFlags } a
        repaintLoop start stop pteFlags fuel queue a
      else
        let (queue, a) := enqueueAll true queue a (repainted page start stop pteFlags)
        repaintLoop start stop pteFlags fuel queue a

def updateLazyPteFlags (queue : VirtQueue) (start stop : Nat) (pteFlags : UInt64)
    (a : Allocators) : VirtQueue × Allocators :=
  repaintLoop start stop pteFlags queue.pages.length queue a

/-- An entry that a new range with these flags overlaps or touches. -/
def mergeable (flags pteFlags : UInt64) (first last : Nat) (page : LazyPage) : Bool :=
  page.flags == flags && page.pteFlags == pteFlags &&
    match lazyRangeEnd page.start page.count with
    | none => false
    | some stop => !(decide (last < page.start) || decide (stop < first))

/-- The merging loop of `lazy_infoalloc`: the grown range and the other entries. -/
def mergeLoop (flags pteFlags : UInt64) : Nat → VirtQueue → Nat → Nat → VirtQueue × Nat × Nat
  | 0, queue, first, last => (queue, first, last)
  | fuel + 1, queue, first, last =>
    match queue.pages.find? (mergeable flags pteFlags first last) with
    | none => (queue, first, last)
    | some page =>
      let queue := queue.removeAt page.index
      match lazyRangeEnd page.start page.count with
      | none => mergeLoop flags pteFlags fuel queue first last
      | some stop => mergeLoop flags pteFlags fuel queue (min first page.start) (max last stop)

/-- `lazy_infoalloc` without `MAP_FIXED`. The merged entries are gone also where
the new one cannot be recorded. -/
def record (queue : VirtQueue) (vaddr length : Nat) (pteFlags flags : UInt64)
    (a : Allocators) : Bool × VirtQueue × Allocators :=
  let count := (length + pageSize - 1) % 2 ^ 64 / pageSize
  if count = 0 then (false, queue, a)
  else
    match lazyRangeEnd vaddr count with
    | none => (false, queue, a)
    | some stop =>
      let (queue, first, last) := mergeLoop flags pteFlags queue.pages.length queue vaddr stop
      if !a.malloc.1 then (false, queue, a.malloc.2)
      else
        let (index, queue, a) :=
          queue.enqueue ⟨first, (last - first) / pageSize, flags, pteFlags, 0⟩ a.malloc.2
        (index.isSome, queue, a)

/-- Entries are whole pages inside the address space, under distinct indices that
the counter has passed. -/
structure WellFormed (queue : VirtQueue) : Prop where
  aligned : ∀ page ∈ queue.pages, pageSize ∣ page.start
  bounded : ∀ page ∈ queue.pages, page.start + page.count * pageSize < 2 ^ 64
  fresh : ∀ page ∈ queue.pages, page.index < queue.nextIndex
  distinct : queue.pages.Pairwise fun first second => first.index ≠ second.index

variable {queue : VirtQueue} {page other piece : LazyPage} {a : Allocators} {tested : Bool}
  {pieces : List LazyPage} {start stop : Nat} {pteFlags flags : UInt64}

theorem mem_removeAt (h : queue.WellFormed) (hpage : page ∈ queue.pages) :
    other ∈ (queue.removeAt page.index).pages ↔ other ∈ queue.pages ∧ other ≠ page :=
  mem_eraseP_key h.distinct hpage

theorem WellFormed.removeAt (h : queue.WellFormed) (index : Nat) :
    (queue.removeAt index).WellFormed where
  aligned page hpage := h.aligned page (mem_of_mem_eraseP hpage)
  bounded page hpage := h.bounded page (mem_of_mem_eraseP hpage)
  fresh page hpage := h.fresh page (mem_of_mem_eraseP hpage)
  distinct := h.distinct.sublist eraseP_sublist

variable {test : LazyPage → Bool} {first second third : LazyPage} {last m n vaddr length : Nat}

/-- Taking out an entry that meets a test leaves one entry fewer that does. -/
theorem countP_removeAt (h : queue.WellFormed) (hpage : page ∈ queue.pages)
    (htest : test page = true) :
    (queue.removeAt page.index).pages.countP test + 1 = queue.pages.countP test := by
  rcases exists_of_eraseP hpage (p := (·.index == page.index)) (by simp) with
    ⟨found, before, after, -, hfound, hlist, herase⟩
  have hmem : found ∈ queue.pages := by rw [hlist]; simp
  have heq : found = page := eq_of_key_eq h.distinct hmem hpage (by simpa using hfound)
  subst heq
  show (queue.pages.eraseP _).countP test + 1 = _
  rw [herase, hlist]
  simp only [countP_append, countP_cons, htest, if_true]
  omega

/-- An entry of whole pages inside the address space. -/
def Fits (page : LazyPage) : Prop :=
  pageSize ∣ page.start ∧ page.start + page.count * pageSize < 2 ^ 64

/-- Enqueueing leaves the queue alone or appends the entry under the next index. -/
theorem enqueue_cases (queue : VirtQueue) (page : LazyPage) (a : Allocators) :
    (queue.enqueue page a).2.1 = queue ∨ (queue.enqueue page a).2.1 =
        ⟨queue.pages ++ [{ page with index := queue.nextIndex }], queue.nextIndex + 1⟩ := by
  unfold enqueue
  split
  · exact .inl rfl
  · split
    · exact .inl rfl
    · exact .inr rfl

theorem WellFormed.enqueue (h : queue.WellFormed) (hpage : Fits page) (a : Allocators) :
    (queue.enqueue page a).2.1.WellFormed := by
  rcases enqueue_cases queue page a with heq | heq
  · rw [heq]
    exact h
  rw [heq]
  exact
    { aligned := fun other ho => by
        rcases mem_append.mp ho with ho | ho
        · exact h.aligned other ho
        · rw [mem_singleton.mp ho]
          exact hpage.1
      bounded := fun other ho => by
        rcases mem_append.mp ho with ho | ho
        · exact h.bounded other ho
        · rw [mem_singleton.mp ho]
          exact hpage.2
      fresh := fun other ho => by
        rcases mem_append.mp ho with ho | ho
        · exact Nat.lt_succ_of_lt (h.fresh other ho)
        · rw [mem_singleton.mp ho]
          exact Nat.lt_succ_self _
      distinct := by
        apply pairwise_append.mpr ⟨h.distinct, pairwise_singleton _ _, ?_⟩
        intro first hfirst second hsecond
        rw [mem_singleton.mp hsecond]
        exact Nat.ne_of_lt (h.fresh first hfirst) }

theorem mem_enqueue_of_mem (h : other ∈ queue.pages) :
    other ∈ (queue.enqueue page a).2.1.pages := by
  rcases enqueue_cases queue page a with heq | heq
  · rw [heq]
    exact h
  · rw [heq]
    exact mem_append_left _ h

theorem enqueueAll_cons (tested : Bool) (queue : VirtQueue) (a : Allocators) (page : LazyPage)
    (rest : List LazyPage) :
    enqueueAll tested queue a (page :: rest) =
      if tested && !a.malloc.1 then enqueueAll tested queue a.malloc.2 rest
      else enqueueAll tested (queue.enqueue page a.malloc.2).2.1
        (queue.enqueue page a.malloc.2).2.2 rest := rfl

/-- What a queue holds after enqueueing pieces was there or is one of them, up to
its index. -/
theorem mem_enqueueAll (h : other ∈ (enqueueAll tested queue a pieces).1.pages) :
    other ∈ queue.pages ∨ ∃ piece ∈ pieces, ∃ index, other = { piece with index := index } := by
  induction pieces generalizing queue a with
  | nil => exact .inl h
  | cons page rest ih =>
    rw [enqueueAll_cons] at h
    split at h
    · rcases ih h with hold | ⟨piece, hpiece, hother⟩
      · exact .inl hold
      · exact .inr ⟨piece, by simp [hpiece], hother⟩
    · rcases ih h with hold | ⟨piece, hpiece, hother⟩
      · rcases enqueue_cases queue page a.malloc.2 with heq | heq
        · rw [heq] at hold
          exact .inl hold
        · rw [heq] at hold
          rcases mem_append.mp hold with hold | hold
          · exact .inl hold
          · exact .inr ⟨page, by simp, _, mem_singleton.mp hold⟩
      · exact .inr ⟨piece, by simp [hpiece], hother⟩

theorem mem_enqueueAll_of_mem (h : other ∈ queue.pages) :
    other ∈ (enqueueAll tested queue a pieces).1.pages := by
  induction pieces generalizing queue a with
  | nil => exact h
  | cons page rest ih =>
    rw [enqueueAll_cons]
    split
    · exact ih h
    · exact ih (mem_enqueue_of_mem h)

theorem WellFormed.enqueueAll (h : queue.WellFormed) (hpieces : ∀ piece ∈ pieces, Fits piece)
    (a : Allocators) :
    (enqueueAll tested queue a pieces).1.WellFormed := by
  induction pieces generalizing queue a with
  | nil => exact h
  | cons page rest ih =>
    have hrest : ∀ piece ∈ rest, Fits piece := fun piece hp => hpieces piece (by simp [hp])
    rw [enqueueAll_cons]
    split
    · exact ih h hrest _
    · exact ih (h.enqueue (hpieces page (by simp)) _) hrest _

theorem countP_enqueueAll
    (hpieces : ∀ piece ∈ pieces, ∀ index, test { piece with index := index } = false)
    (queue : VirtQueue) (a : Allocators) :
    (enqueueAll tested queue a pieces).1.pages.countP test = queue.pages.countP test := by
  induction pieces generalizing queue a with
  | nil => rfl
  | cons page rest ih =>
    have hrest : ∀ piece ∈ rest, ∀ index, test { piece with index := index } = false :=
      fun piece hp => hpieces piece (by simp [hp])
    rw [enqueueAll_cons]
    split
    · exact ih hrest _ _
    · rw [ih hrest]
      rcases enqueue_cases queue page a.malloc.2 with heq | heq
      · rw [heq]
      · rw [heq]
        simp [hpieces page (by simp)]

/-- A part of an entry, with its flags. -/
structure PartOf (part page : LazyPage) : Prop where
  first : page.start ≤ part.start
  last : part.start + part.count * pageSize ≤ page.start + page.count * pageSize
  flags : part.flags = page.flags
  pteFlags : part.pteFlags = page.pteFlags

theorem PartOf.refl (page : LazyPage) : PartOf page page := ⟨le_rfl, le_rfl, rfl, rfl⟩

theorem PartOf.trans (h : PartOf first second) (h' : PartOf second third) : PartOf first third :=
  ⟨Nat.le_trans h'.first h.first, Nat.le_trans h.last h'.last, h.flags.trans h'.flags,
    h.pteFlags.trans h'.pteFlags⟩

theorem stop_eq (h : Fits page) :
    page.stop = page.start + page.count * pageSize := Nat.mod_eq_of_lt h.2

theorem meets_iff (h : Fits page) : page.meets start stop = true ↔
      start < page.start + page.count * pageSize ∧ page.start < stop := by
  rw [LazyPage.meets, Bool.and_eq_true, decide_eq_true_eq, decide_eq_true_eq, stop_eq h]

/-- The number of pages between two page boundaries reaches from one to the other. -/
theorem add_pages {first last : Nat} (hfirst : pageSize ∣ first) (hlast : pageSize ∣ last)
    (hle : first ≤ last) : first + (last - first) / pageSize * pageSize = last := by
  rw [Nat.div_mul_cancel (Nat.dvd_sub hlast hfirst)]
  omega

theorem Fits.dvd_end (h : Fits page) : pageSize ∣ page.start + page.count * pageSize :=
  Nat.dvd_add h.1 (Nat.dvd_mul_left _ _)

theorem mem_outside : piece ∈ outside page start stop ↔
      (page.start < start ∧ piece = { page with count := (start - page.start) / pageSize }) ∨
      (stop < page.stop ∧
        piece = { page with start := stop, count := (page.stop - stop) / pageSize }) := by
  rw [outside, mem_append]
  apply or_congr
  all_goals split <;> simp [*]

/-- A piece cut at two page boundaries inside an entry fits and ends at the second. -/
theorem Fits.cut (h : Fits page) (piece : LazyPage) {first : Nat} (hstart : piece.start = first)
    (hcount : piece.count = (last - first) / pageSize) (hfirst : pageSize ∣ first)
    (hlast : pageSize ∣ last) (hle : first ≤ last)
    (hend : last ≤ page.start + page.count * pageSize) :
    Fits piece ∧ piece.start + piece.count * pageSize = last := by
  have hreach : piece.start + piece.count * pageSize = last := by
    rw [hstart, hcount]
    exact add_pages hfirst hlast hle
  have hbound := h.2
  exact ⟨⟨hstart ▸ hfirst, by omega⟩, hreach⟩

theorem meets_eq_false (h : Fits page)
    (hout : page.start + page.count * pageSize ≤ start ∨ stop ≤ page.start) :
    page.meets start stop = false := by
  rw [← Bool.not_eq_true, meets_iff h]
  omega

/-- The pieces left outside a range of whole pages are parts of the entry that
do not meet the range. -/
theorem outside_spec (hpage : Fits page) (hstart : pageSize ∣ start) (hstop : pageSize ∣ stop)
    (hmeets : page.meets start stop = true) (hpiece : piece ∈ outside page start stop)
    (index : Nat) :
    Fits { piece with index := index } ∧ PartOf { piece with index := index } page ∧
      LazyPage.meets { piece with index := index } start stop = false := by
  rcases (meets_iff hpage).mp hmeets with ⟨hlast, hfirst⟩
  rcases mem_outside.mp hpiece with ⟨hbefore, rfl⟩ | ⟨hafter, rfl⟩
  · rcases hpage.cut { page with count := (start - page.start) / pageSize, index := index }
      rfl rfl hpage.1 hstart (Nat.le_of_lt hbefore) (Nat.le_of_lt hlast) with ⟨hfits, hend⟩
    exact ⟨hfits, ⟨le_rfl, Nat.le_trans (Nat.le_of_eq hend) (Nat.le_of_lt hlast), rfl, rfl⟩,
      meets_eq_false hfits (.inl (Nat.le_of_eq hend))⟩
  · rw [stop_eq hpage] at hafter ⊢
    rcases hpage.cut { page with
        start := stop
        count := (page.start + page.count * pageSize - stop) / pageSize
        index := index }
      rfl rfl hstop hpage.dvd_end (Nat.le_of_lt hafter) le_rfl with ⟨hfits, hend⟩
    exact ⟨hfits, ⟨Nat.le_of_lt hfirst, Nat.le_of_eq hend, rfl, rfl⟩,
      meets_eq_false hfits (.inr le_rfl)⟩

theorem WellFormed.fits (h : queue.WellFormed) (hpage : page ∈ queue.pages) :
    Fits page := ⟨h.aligned page hpage, h.bounded page hpage⟩

/-- A queue in which entries that meet a range have given way to others, each
related to the entry it comes from. -/
structure Rewritten (part : LazyPage → LazyPage → Prop) (start stop : Nat)
    (before after : VirtQueue) : Prop where
  wellFormed : after.WellFormed
  origin : ∀ page ∈ after.pages, ∃ old ∈ before.pages, part page old
  kept : ∀ page ∈ before.pages, page.meets start stop = false → page ∈ after.pages

section Rewritten

variable {part : LazyPage → LazyPage → Prop} {start stop : Nat}

theorem Rewritten.refl (hrefl : ∀ page, part page page) {queue : VirtQueue}
    (h : queue.WellFormed) : Rewritten part start stop queue queue where
  wellFormed := h
  origin page hpage := ⟨page, hpage, hrefl page⟩
  kept _ hpage _ := hpage

theorem Rewritten.trans {first second third : VirtQueue}
    (h : Rewritten part start stop first second) (h' : Rewritten part start stop second third)
    (htrans : ∀ {x y z}, part x y → part y z → part x z) :
    Rewritten part start stop first third where
  wellFormed := h'.wellFormed
  origin page hpage := by
    rcases h'.origin page hpage with ⟨middle, hmiddle, hpart⟩
    rcases h.origin middle hmiddle with ⟨old, hold, hpart'⟩
    exact ⟨old, hold, htrans hpart hpart'⟩
  kept page hpage hout := h'.kept page (h.kept page hpage hout) hout

end Rewritten

section Unmap

variable {start stop : Nat} (hstart : pageSize ∣ start) (hstop : pageSize ∣ stop)

include hstart hstop

/-- One round: the entry that meets the range gives way to its outer pieces. -/
theorem unmapRound {queue : VirtQueue} (h : queue.WellFormed) {page : LazyPage}
    (hpage : page ∈ queue.pages) (hmeets : page.meets start stop = true) (a : Allocators) :
    Rewritten PartOf start stop queue
        ((enqueueAll false queue a (outside page start stop)).1.removeAt page.index) ∧
      ((enqueueAll false queue a (outside page start stop)).1.removeAt
          page.index).pages.countP (·.meets start stop) + 1 =
        queue.pages.countP (·.meets start stop) := by
  have hpieces := fun piece (hpiece : piece ∈ outside page start stop) (index : Nat) =>
    outside_spec (h.fits hpage) hstart hstop hmeets hpiece index
  have hgrown : (enqueueAll false queue a (outside page start stop)).1.WellFormed :=
    h.enqueueAll (fun piece hpiece => (hpieces piece hpiece piece.index).1) a
  have hmem : page ∈ (enqueueAll false queue a (outside page start stop)).1.pages :=
    mem_enqueueAll_of_mem hpage
  refine ⟨⟨hgrown.removeAt _, fun other hother => ?_, fun other hother hout => ?_⟩, ?_⟩
  · rcases mem_enqueueAll ((mem_removeAt hgrown hmem).mp hother).1 with hold | ⟨piece, hp, i, rfl⟩
    · exact ⟨other, hold, .refl other⟩
    · exact ⟨page, hpage, (hpieces piece hp i).2.1⟩
  · apply (mem_removeAt hgrown hmem).mpr ⟨mem_enqueueAll_of_mem hother, ?_⟩
    rintro rfl
    rw [hmeets] at hout
    exact Bool.noConfusion hout
  · rw [countP_removeAt hgrown hmem hmeets]
    exact countP_enqueueAll (fun piece hp i => (hpieces piece hp i).2.2) queue a

/-- With fuel for every entry that meets the range, none does at the end. -/
theorem unmapLoop_spec {fuel : Nat} {queue : VirtQueue} {a : Allocators} (h : queue.WellFormed)
    (hfuel : queue.pages.countP (·.meets start stop) ≤ fuel) :
    Rewritten PartOf start stop queue (unmapLoop start stop fuel queue a).1 ∧
      ∀ page ∈ (unmapLoop start stop fuel queue a).1.pages, page.meets start stop = false := by
  induction fuel generalizing queue a with
  | zero =>
    have hnone := countP_eq_zero.mp (Nat.le_zero.mp hfuel)
    exact ⟨.refl PartOf.refl h, fun page hpage => by simpa using hnone page hpage⟩
  | succ fuel ih =>
    rw [unmapLoop]
    split
    · rename_i hfind
      exact ⟨.refl PartOf.refl h,
        fun page hpage => by simpa using List.find?_eq_none.mp hfind page hpage⟩
    · rename_i page hfind
      have hmeets : page.meets start stop = true := by simpa using List.find?_some hfind
      rcases unmapRound hstart hstop h (mem_of_find?_eq_some hfind) hmeets a with
        ⟨hround, hcount⟩
      rcases ih (a := (enqueueAll false queue a (outside page start stop)).2)
        hround.wellFormed (by omega) with ⟨hrest, hdone⟩
      exact ⟨hround.trans hrest PartOf.trans, hdone⟩

end Unmap

/-- A part of an entry that has its page flags, or lies in the range and has the
new ones. -/
structure Repaint (start stop : Nat) (pteFlags : UInt64) (part page : LazyPage) : Prop where
  first : page.start ≤ part.start
  last : part.start + part.count * pageSize ≤ page.start + page.count * pageSize
  flags : part.flags = page.flags
  painted : part.pteFlags = page.pteFlags ∨
    (part.pteFlags = pteFlags ∧ start ≤ part.start ∧ part.start + part.count * pageSize ≤ stop)

theorem Repaint.refl (page : LazyPage) : Repaint start stop pteFlags page page :=
  ⟨le_rfl, le_rfl, rfl, .inl rfl⟩

theorem Repaint.trans (h : Repaint start stop pteFlags first second)
    (h' : Repaint start stop pteFlags second third) :
    Repaint start stop pteFlags first third where
  first := Nat.le_trans h'.first h.first
  last := Nat.le_trans h.last h'.last
  flags := h.flags.trans h'.flags
  painted := by
    rcases h.painted with heq | hpainted
    · rcases h'.painted with heq' | ⟨heq', hlow, hhigh⟩
      · exact .inl (heq.trans heq')
      · exact .inr ⟨heq.trans heq', Nat.le_trans hlow h.first, Nat.le_trans h.last hhigh⟩
    · exact .inr hpainted

theorem mem_repainted : piece ∈ repainted page start stop pteFlags ↔
      (page.start < max page.start start ∧
        piece = { page with count := (max page.start start - page.start) / pageSize }) ∨
      piece = { page with
        start := max page.start start
        count := (min page.stop stop - max page.start start) / pageSize
        pteFlags := pteFlags } ∨
      (min page.stop stop < page.stop ∧
        piece = { page with
          start := min page.stop stop
          count := (page.stop - min page.stop stop) / pageSize }) := by
  rw [repainted, mem_append, mem_append, mem_singleton, or_assoc]
  apply or_congr
  · split <;> simp [*]
  · apply or_congr Iff.rfl
    split <;> simp [*]

theorem dvd_max (hm : pageSize ∣ m) (hn : pageSize ∣ n) : pageSize ∣ max m n := by
  rcases Nat.le_total m n with h | h
  · rwa [Nat.max_eq_right h]
  · rwa [Nat.max_eq_left h]

theorem dvd_min (hm : pageSize ∣ m) (hn : pageSize ∣ n) : pageSize ∣ min m n := by
  rcases Nat.le_total m n with h | h
  · rwa [Nat.min_eq_left h]
  · rwa [Nat.min_eq_right h]

theorem stale_eq_false_of_painted (h : page.pteFlags = pteFlags) :
    stale start stop pteFlags page = false := by
  simp [stale, h]

theorem stale_eq_false_of_meets (h : page.meets start stop = false) :
    stale start stop pteFlags page = false := by
  simp [stale, h]

theorem meets_of_stale (h : stale start stop pteFlags page = true) : page.meets start stop = true :=
  (Bool.and_eq_true_iff.mp h).1

section Repaint

variable {start stop : Nat} {pteFlags : UInt64} (hstart : pageSize ∣ start)
  (hstop : pageSize ∣ stop) (hrange : start < stop)

include hstart hstop hrange

variable {page : LazyPage} {queue : VirtQueue}

/-- The pieces of a repainted entry are parts of it and none is stale. -/
theorem repainted_spec {piece : LazyPage} (hpage : Fits page)
    (hmeets : page.meets start stop = true) (hpiece : piece ∈ repainted page start stop pteFlags)
    (index : Nat) :
    Fits { piece with index := index } ∧
      Repaint start stop pteFlags { piece with index := index } page ∧
      stale start stop pteFlags { piece with index := index } = false := by
  rcases (meets_iff hpage).mp hmeets with ⟨hlast, hfirst⟩
  have hlow : pageSize ∣ max page.start start := dvd_max hpage.1 hstart
  have hhigh : pageSize ∣ min (page.start + page.count * pageSize) stop :=
    dvd_min hpage.dvd_end hstop
  have hinner : max page.start start ≤ min (page.start + page.count * pageSize) stop := by omega
  rw [mem_repainted, stop_eq hpage] at hpiece
  rcases hpiece with ⟨hbefore, rfl⟩ | rfl | ⟨hafter, rfl⟩
  · -- The entry starts before the range, so the first piece ends where it begins.
    have hcut : max page.start start = start := by omega
    rw [hcut] at hbefore ⊢
    rcases hpage.cut { page with count := (start - page.start) / pageSize, index := index }
      rfl rfl hpage.1 hstart (Nat.le_of_lt hbefore) (Nat.le_of_lt hlast) with ⟨hfits, hend⟩
    have hout : LazyPage.meets _ start stop = false :=
      meets_eq_false hfits (.inl (Nat.le_of_eq hend))
    exact ⟨hfits, ⟨le_rfl, Nat.le_trans (Nat.le_of_eq hend) (Nat.le_of_lt hlast), rfl,
      .inl rfl⟩, stale_eq_false_of_meets hout⟩
  · rcases hpage.cut { page with
        start := max page.start start
        count := (min (page.start + page.count * pageSize) stop - max page.start start) / pageSize
        pteFlags := pteFlags
        index := index }
      rfl rfl hlow hhigh hinner (Nat.min_le_left _ _) with ⟨hfits, hend⟩
    exact ⟨hfits, ⟨Nat.le_max_left _ _, Nat.le_trans (Nat.le_of_eq hend) (Nat.min_le_left _ _),
      rfl, .inr ⟨rfl, Nat.le_max_right _ _,
        Nat.le_trans (Nat.le_of_eq hend) (Nat.min_le_right _ _)⟩⟩, stale_eq_false_of_painted rfl⟩
  · have hcut : min (page.start + page.count * pageSize) stop = stop := by omega
    rw [hcut] at hafter ⊢
    rcases hpage.cut { page with
        start := stop
        count := (page.start + page.count * pageSize - stop) / pageSize
        index := index }
      rfl rfl hstop hpage.dvd_end (Nat.le_of_lt hafter) le_rfl with ⟨hfits, hend⟩
    have hout : LazyPage.meets _ start stop = false := meets_eq_false hfits (.inr le_rfl)
    exact ⟨hfits, ⟨Nat.le_of_lt hfirst, Nat.le_of_eq hend, rfl, .inl rfl⟩,
      stale_eq_false_of_meets hout⟩

omit hstart hstop hrange in
theorem repaintRound {after : VirtQueue} (h : queue.WellFormed) (hpage : page ∈ queue.pages)
    (hmeets : page.meets start stop = true) (hafter : after.WellFormed)
    (hkept : ∀ other ∈ (queue.removeAt page.index).pages, other ∈ after.pages)
    (horigin : ∀ other ∈ after.pages,
      other ∈ (queue.removeAt page.index).pages ∨ Repaint start stop pteFlags other page) :
    Rewritten (Repaint start stop pteFlags) start stop queue after where
  wellFormed := hafter
  origin other hother := by
    rcases horigin other hother with hold | hpiece
    · exact ⟨other, ((mem_removeAt h hpage).mp hold).1, .refl other⟩
    · exact ⟨page, hpage, hpiece⟩
  kept other hother hout := by
    apply hkept other ((mem_removeAt h hpage).mpr ⟨hother, ?_⟩)
    rintro rfl
    rw [hmeets] at hout
    exact Bool.noConfusion hout

omit hstart hstop hrange in
theorem repaintWhole (h : queue.WellFormed) (hpage : page ∈ queue.pages)
    (hstale : stale start stop pteFlags page = true) (hlow : start ≤ page.start)
    (hhigh : page.stop ≤ stop) (a : Allocators) :
    let after := ((queue.removeAt page.index).enqueue { page with pteFlags := pteFlags } a).2.1
    Rewritten (Repaint start stop pteFlags) start stop queue after ∧
      after.pages.countP (stale start stop pteFlags) + 1 =
        queue.pages.countP (stale start stop pteFlags) := by
  intro after
  have hremoved := h.removeAt page.index
  have hfits : Fits { page with pteFlags := pteFlags } :=
    ⟨h.aligned page hpage, h.bounded page hpage⟩
  have hcases : after = queue.removeAt page.index ∨ after = ⟨(queue.removeAt page.index).pages ++
        [{ page with pteFlags := pteFlags, index := (queue.removeAt page.index).nextIndex }],
        (queue.removeAt page.index).nextIndex + 1⟩ := enqueue_cases _ _ a
  refine ⟨repaintRound h hpage (meets_of_stale hstale) (hremoved.enqueue hfits a)
    (fun other hother => mem_enqueue_of_mem hother) (fun other hother => ?_), ?_⟩
  · rcases hcases with heq | heq
    · rw [heq] at hother
      exact .inl hother
    rw [heq] at hother
    rcases mem_append.mp hother with hold | hnew
    · exact .inl hold
    · rw [mem_singleton.mp hnew]
      rw [stop_eq (h.fits hpage)] at hhigh
      exact .inr ⟨le_rfl, le_rfl, rfl, .inr ⟨rfl, hlow, hhigh⟩⟩
  · rw [← countP_removeAt h hpage hstale]
    rcases hcases with heq | heq
    · rw [heq]
    · rw [heq]
      simp [stale]

theorem repaintPieces (h : queue.WellFormed) (hpage : page ∈ queue.pages)
    (hstale : stale start stop pteFlags page = true) (a : Allocators) :
    let after := (enqueueAll true (queue.removeAt page.index) a
      (repainted page start stop pteFlags)).1
    Rewritten (Repaint start stop pteFlags) start stop queue after ∧
      after.pages.countP (stale start stop pteFlags) + 1 =
        queue.pages.countP (stale start stop pteFlags) := by
  intro after
  have hmeets := meets_of_stale hstale
  have hpieces := fun piece (hpiece : piece ∈ repainted page start stop pteFlags) (index : Nat) =>
    repainted_spec hstart hstop hrange (h.fits hpage) hmeets hpiece index
  have hafter : after.WellFormed := (h.removeAt page.index).enqueueAll
    (fun piece hpiece => (hpieces piece hpiece piece.index).1) a
  refine ⟨repaintRound h hpage hmeets hafter (fun other hother => mem_enqueueAll_of_mem hother)
    (fun other hother => ?_), ?_⟩
  · rcases mem_enqueueAll hother with hold | ⟨piece, hpiece, index, rfl⟩
    · exact .inl hold
    · exact .inr (hpieces piece hpiece index).2.1
  · rw [← countP_removeAt h hpage hstale]
    exact congrArg (· + 1)
      (countP_enqueueAll (fun piece hpiece index => (hpieces piece hpiece index).2.2) _ a)

/-- With fuel for every stale entry, none is left at the end. -/
theorem repaintLoop_spec {fuel : Nat} {a : Allocators} (h : queue.WellFormed)
    (hfuel : queue.pages.countP (stale start stop pteFlags) ≤ fuel) :
    Rewritten (Repaint start stop pteFlags) start stop queue
        (repaintLoop start stop pteFlags fuel queue a).1 ∧
      ∀ page ∈ (repaintLoop start stop pteFlags fuel queue a).1.pages,
        stale start stop pteFlags page = false := by
  induction fuel generalizing queue a with
  | zero =>
    have hnone := countP_eq_zero.mp (Nat.le_zero.mp hfuel)
    exact ⟨.refl Repaint.refl h, fun page hpage => by simpa using hnone page hpage⟩
  | succ fuel ih =>
    rw [repaintLoop]
    split
    · rename_i hfind
      exact ⟨.refl Repaint.refl h,
        fun page hpage => by simpa using List.find?_eq_none.mp hfind page hpage⟩
    · rename_i page hfind
      have hpage := mem_of_find?_eq_some hfind
      have hstale : stale start stop pteFlags page = true := List.find?_some hfind
      split
      · rcases repaintWhole h hpage hstale (by omega) (by omega) a with ⟨hround, hcount⟩
        rcases ih (a := ((queue.removeAt page.index).enqueue
          { page with pteFlags := pteFlags } a).2.2) hround.wellFormed (by omega) with
          ⟨hrest, hdone⟩
        exact ⟨hround.trans hrest Repaint.trans, hdone⟩
      · rcases repaintPieces hstart hstop hrange h hpage hstale a with ⟨hround, hcount⟩
        rcases ih (a := (enqueueAll true (queue.removeAt page.index) a
          (repainted page start stop pteFlags)).2) hround.wellFormed (by omega) with
          ⟨hrest, hdone⟩
        exact ⟨hround.trans hrest Repaint.trans, hdone⟩

end Repaint

def Covers (page : LazyPage) (addr : Nat) : Prop :=
  page.start ≤ addr ∧ addr < page.start + page.count * pageSize

theorem lazyRangeEnd_eq_some {count : Nat} (h : lazyRangeEnd start count = some stop) :
    stop = start + count * pageSize ∧ stop < 2 ^ 64 := by
  unfold lazyRangeEnd at h
  split at h
  · simp at h
  split at h
  · simp at h
  cases h
  refine ⟨rfl, ?_⟩
  simp only [pageSize] at *
  omega

/-- What the merging loop makes of a queue and a range: entries with the flags of
the range may have joined it, and the range covers nothing else that is new. -/
structure Merged (flags pteFlags : UInt64) (before : VirtQueue) (first last : Nat)
    (after : VirtQueue) (first' last' : Nat) : Prop where
  wellFormed : after.WellFormed
  subset : ∀ page ∈ after.pages, page ∈ before.pages
  lower : first' ≤ first
  upper : last ≤ last'
  alignedFirst : pageSize ∣ first → pageSize ∣ first'
  alignedLast : pageSize ∣ last → pageSize ∣ last'
  bounded : last < 2 ^ 64 → last' < 2 ^ 64
  covered : ∀ addr, first' ≤ addr → addr < last' → (first ≤ addr ∧ addr < last) ∨
    ∃ page ∈ before.pages, page.flags = flags ∧ page.pteFlags = pteFlags ∧ Covers page addr
  joined : ∀ page ∈ before.pages, page ∉ after.pages → page.flags = flags ∧
    page.pteFlags = pteFlags ∧ first' ≤ page.start ∧ page.start + page.count * pageSize ≤ last'

theorem Merged.refl (h : queue.WellFormed) (first last : Nat) :
    Merged flags pteFlags queue first last queue first last where
  wellFormed := h
  subset _ hpage := hpage
  lower := le_rfl
  upper := le_rfl
  alignedFirst := id
  alignedLast := id
  bounded := id
  covered _ hlow hhigh := .inl ⟨hlow, hhigh⟩
  joined _ hpage hgone := absurd hpage hgone

theorem mergeable_eq_true {first : Nat} (h : mergeable flags pteFlags first last page = true) :
    page.flags = flags ∧ page.pteFlags = pteFlags ∧
      ∃ stop, lazyRangeEnd page.start page.count = some stop ∧ page.start ≤ last ∧ first ≤ stop := by
  unfold mergeable at h
  rw [Bool.and_eq_true, Bool.and_eq_true, beq_iff_eq, beq_iff_eq] at h
  rcases h with ⟨⟨hflags, hpte⟩, hrange⟩
  split at hrange
  · simp at hrange
  · rename_i stop hstop
    simp only [Bool.not_eq_true', Bool.or_eq_false_iff, decide_eq_false_iff_not, not_lt] at hrange
    exact ⟨hflags, hpte, stop, hstop, hrange.1, hrange.2⟩

/-- One entry joins the range, and the rest of the loop works on the larger one. -/
theorem Merged.step {flags pteFlags : UInt64} {queue after : VirtQueue} (h : queue.WellFormed)
    {page : LazyPage} (hpage : page ∈ queue.pages) {first last first' last' stop : Nat}
    (hmerge : mergeable flags pteFlags first last page = true)
    (hstop : lazyRangeEnd page.start page.count = some stop)
    (hrest : Merged flags pteFlags (queue.removeAt page.index) (min first page.start)
      (max last stop) after first' last') :
    Merged flags pteFlags queue first last after first' last' := by
  rcases mergeable_eq_true hmerge with ⟨hflags, hpte, stop', hstop', hlow, hhigh⟩
  cases hstop.symm.trans hstop'
  rcases lazyRangeEnd_eq_some hstop with ⟨hend, hbound⟩
  have hlower := hrest.lower
  have hupper := hrest.upper
  exact
    { wellFormed := hrest.wellFormed
      subset := fun other hother => ((mem_removeAt h hpage).mp (hrest.subset other hother)).1
      lower := by omega
      upper := by omega
      alignedFirst := fun hdvd => hrest.alignedFirst (dvd_min hdvd (h.aligned page hpage))
      alignedLast := fun hdvd => hrest.alignedLast (dvd_max hdvd (hend ▸ (h.fits hpage).dvd_end))
      bounded := fun hlt => hrest.bounded (by omega)
      covered := fun addr hfirst hlast => by
        rcases hrest.covered addr hfirst hlast with hnew | ⟨other, hother, hcover⟩
        · -- The entry overlaps or touches the range, so their hull is their union.
          by_cases hin : first ≤ addr ∧ addr < last
          · exact .inl hin
          · exact .inr ⟨page, hpage, hflags, hpte, by omega, by omega⟩
        · exact .inr ⟨other, ((mem_removeAt h hpage).mp hother).1, hcover⟩
      joined := fun other hother hgone => by
        by_cases heq : other = page
        · rw [heq]
          exact ⟨hflags, hpte, by omega, by omega⟩
        · exact hrest.joined other ((mem_removeAt h hpage).mpr ⟨hother, heq⟩) hgone }

theorem mergeLoop_spec (flags pteFlags : UInt64) (fuel : Nat) (h : queue.WellFormed)
    (first last : Nat) :
    Merged flags pteFlags queue first last (mergeLoop flags pteFlags fuel queue first last).1
      (mergeLoop flags pteFlags fuel queue first last).2.1
      (mergeLoop flags pteFlags fuel queue first last).2.2 := by
  induction fuel generalizing queue first last with
  | zero => exact .refl h first last
  | succ fuel ih =>
    rw [mergeLoop]
    split
    · exact .refl h first last
    rename_i page hfind
    have hpage := mem_of_find?_eq_some hfind
    have hmerge : mergeable flags pteFlags first last page = true := List.find?_some hfind
    rcases mergeable_eq_true hmerge with ⟨-, -, stop, hstop, -, -⟩
    rw [hstop]
    exact .step h hpage hmerge hstop (ih (h.removeAt page.index) _ _)

/-- Recording a range of whole pages: entries that are gone or new have the flags
of the range, and nothing but the range is newly covered. -/
theorem record_spec (h : queue.WellFormed) (hvaddr : pageSize ∣ vaddr)
    (hlength : pageSize ∣ length) (hend : vaddr + length < 2 ^ 64) (pteFlags flags : UInt64)
    (a : Allocators) :
    (queue.record vaddr length pteFlags flags a).2.1.WellFormed ∧
      ∀ page ∈ (queue.record vaddr length pteFlags flags a).2.1.pages, page ∈ queue.pages ∨
        (page.flags = flags ∧ page.pteFlags = pteFlags ∧ ∀ addr, Covers page addr →
          (vaddr ≤ addr ∧ addr < vaddr + length) ∨ ∃ old ∈ queue.pages,
            old.flags = flags ∧ old.pteFlags = pteFlags ∧ Covers old addr) := by
  have hcount : (length + pageSize - 1) % 2 ^ 64 / pageSize * pageSize = length := by
    rcases hlength with ⟨n, rfl⟩
    simp only [pageSize] at *
    omega
  rw [record]
  dsimp only
  split
  · exact ⟨h, fun page hpage => .inl hpage⟩
  split
  · exact ⟨h, fun page hpage => .inl hpage⟩
  rename_i stop hstop
  rcases lazyRangeEnd_eq_some hstop with ⟨hstopEq, hbound⟩
  rw [hcount] at hstopEq
  subst hstopEq
  have hmerged := mergeLoop_spec flags pteFlags queue.pages.length h vaddr (vaddr + length)
  split
  · exact ⟨hmerged.wellFormed, fun page hpage => .inl (hmerged.subset page hpage)⟩
  -- The merged range reaches from one page boundary to another.
  have hreach := add_pages (hmerged.alignedFirst hvaddr)
    (hmerged.alignedLast (Nat.dvd_add hvaddr hlength))
    (Nat.le_trans hmerged.lower (Nat.le_trans (Nat.le_add_right vaddr length) hmerged.upper))
  have hlast := hmerged.bounded hbound
  refine ⟨hmerged.wellFormed.enqueue
    ⟨hmerged.alignedFirst hvaddr, Nat.lt_of_le_of_lt (Nat.le_of_eq hreach) hlast⟩ _,
    fun page hpage => ?_⟩
  rcases enqueue_cases _ _ _ with heq | heq
  · rw [heq] at hpage
    exact .inl (hmerged.subset page hpage)
  rw [heq] at hpage
  rcases mem_append.mp hpage with hold | hnew
  · exact .inl (hmerged.subset page hold)
  · rw [mem_singleton.mp hnew]
    refine .inr ⟨rfl, rfl, fun addr hcover => ?_⟩
    exact hmerged.covered addr hcover.1 (Nat.lt_of_lt_of_eq hcover.2 hreach)

/-- Where recording fails, entries may be gone but none is new. -/
theorem record_failed (h : queue.WellFormed)
    (hfail : (queue.record vaddr length pteFlags flags a).1 = false) :
    ∀ page ∈ (queue.record vaddr length pteFlags flags a).2.1.pages, page ∈ queue.pages := by
  rw [record] at hfail ⊢
  dsimp only at hfail ⊢
  split at hfail
  · rename_i hcount
    rw [if_pos hcount]
    exact fun page hpage => hpage
  · rename_i hcount
    rw [if_neg hcount]
    split at hfail
    · exact fun page hpage => hpage
    rename_i stop hstop
    have hmerged := mergeLoop_spec flags pteFlags queue.pages.length h vaddr stop
    split at hfail
    · rename_i hmalloc
      rw [if_pos hmalloc]
      exact hmerged.subset
    · rename_i hmalloc
      rw [if_neg hmalloc]
      unfold enqueue at hfail ⊢
      split at hfail
      · rename_i hnode
        rw [if_pos hnode]
        exact hmerged.subset
      · rename_i hnode
        rw [if_neg hnode]
        split at hfail
        · rename_i hfull
          rw [if_pos hfull]
          exact hmerged.subset
        · simp at hfail

@[simp]
theorem freed_enqueue (queue : VirtQueue) (page : LazyPage) (a : Allocators) :
    (queue.enqueue page a).2.2.freed = a.freed := by
  rw [enqueue]
  split
  · rfl
  · split <;> rfl

@[simp]
theorem freed_enqueueAll (tested : Bool) (pieces : List LazyPage) (queue : VirtQueue)
    (a : Allocators) : (enqueueAll tested queue a pieces).2.freed = a.freed := by
  induction pieces generalizing queue a with
  | nil => rfl
  | cons page rest ih =>
    rw [enqueueAll_cons]
    split
    · exact ih _ _
    · rw [ih, freed_enqueue, Allocators.freed_malloc]

@[simp]
theorem freed_unmapLoop (start stop fuel : Nat) (queue : VirtQueue) (a : Allocators) :
    (unmapLoop start stop fuel queue a).2.freed = a.freed := by
  induction fuel generalizing queue a with
  | zero => rfl
  | succ fuel ih =>
    rw [unmapLoop]
    split
    · rfl
    · rw [ih, freed_enqueueAll]

end VirtQueue

end OpenXJ380.Memory
