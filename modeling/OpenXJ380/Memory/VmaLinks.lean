/-
# The links of the areas

`kernel/memory/vma.cpp` threads the areas of a process into a list with links in both
directions. This is the code on the level of these links, in a heap that knows which addresses
are in use. `VmaHeap.Holds` says that the manager leads to the nodes of a list;
each operation keeps it, and the removal of a range does on the list what `vmaUnmapWalk` does.
-/

import OpenXJ380.Data.Threaded
import OpenXJ380.Memory.Vma

namespace OpenXJ380.Memory

open List Function Data

/-- The nodes by their addresses; zero is the null pointer. -/
structure VmaHeap where
  vma : Nat → Vma
  vmNext : Nat → Nat
  vmPrev : Nat → Nat
  live : List Nat

/-- `vma_manager_t`. -/
structure VmaOwner where
  vmaList : Nat
  vmTotal : Nat
  vmUsed : UInt64

/-- Where the heap puts a new node: never at an address in use. -/
structure NodePlaces where
  place : List Nat → Nat
  proper : ∀ live, place live ≠ 0
  fresh : ∀ live, place live ∉ live

namespace VmaHeap

variable (heap : VmaHeap) (mgr : VmaOwner)

/-- `if (p) p->vm_next = q; else mgr->vma_list = q;` -/
def setNext (p q : Nat) : VmaHeap × VmaOwner :=
  if p = 0 then (heap, { mgr with vmaList := q })
  else ({ heap with vmNext := update heap.vmNext p q }, mgr)

/-- `if (p) p->vm_prev = q;` -/
def setPrev (p q : Nat) : VmaHeap :=
  if p = 0 then heap else { heap with vmPrev := update heap.vmPrev p q }

section

variable (p : Nat)

def setVma (vma : Vma) : VmaHeap := { heap with vma := update heap.vma p vma }

/-- `vma_free`. -/
def free : VmaHeap := { heap with live := heap.live.erase p }

/-- A node with its fields and links. -/
def write (vma : Vma) (next prev : Nat) : VmaHeap where
  vma := update heap.vma p vma
  vmNext := update heap.vmNext p next
  vmPrev := update heap.vmPrev p prev
  live := p :: heap.live

/-- Unlink a node. -/
def remove : VmaHeap × VmaOwner :=
  let (heap, mgr) := heap.setNext mgr (heap.vmPrev p) (heap.vmNext p)
  (heap.setPrev (heap.vmNext p) (heap.vmPrev p),
    { mgr with vmUsed := mgr.vmUsed - UInt64.ofNat (heap.vma p).length })

end

/-- The parts of a split area; the right one is a new node behind the old one. -/
def splice (p q : Nat) (left right : Vma) : VmaHeap :=
  let new := heap.write q right (heap.vmNext p) p
  let old := { new.setVma p left with vmNext := update new.vmNext p q }
  old.setPrev (old.vmNext q) q

/-- `vma_split`. -/
def split (places : NodePlaces) (p addr : Nat) (a : Allocators) : Option VmaHeap × Allocators :=
  match vmaSplit (heap.vma p) addr a with
  | (none, a) => (none, a)
  | (some (left, right), a) => (some (heap.splice p (places.place heap.live) left right), a)

end VmaHeap

/-- What a removal leaves in the heap. -/
structure HeapOutcome where
  ok : Bool
  heap : VmaHeap
  mgr : VmaOwner
  allocators : Allocators

/-- The loop of `vma_unmap_range` from a node on. -/
def unmapNodes (places : NodePlaces) (start stop : Nat) :
    Nat → Nat → VmaHeap → VmaOwner → Allocators → Option HeapOutcome
  | 0, _, _, _, _ => none
  | fuel + 1, p, heap, mgr, a =>
    let vma := heap.vma p
    if p = 0 then some ⟨true, heap, mgr, a⟩
    else if vma.vmEnd ≤ start then unmapNodes places start stop fuel (heap.vmNext p) heap mgr a
    else if stop ≤ vma.vmStart then some ⟨true, heap, mgr, a⟩
    else if start ≤ vma.vmStart ∧ vma.vmEnd ≤ stop then
      let next := heap.vmNext p
      let (heap, mgr) := heap.remove mgr p
      unmapNodes places start stop fuel next (heap.free p) mgr a
    else if vma.vmStart < start ∧ stop < vma.vmEnd then
      match heap.split places p stop a with
      | (none, a) => some ⟨false, heap, mgr, a⟩
      | (some heap, a) =>
        let heap := heap.setVma p { heap.vma p with vmEnd := start }
        unmapNodes places start stop fuel (heap.vmNext p) heap
          { mgr with vmUsed := mgr.vmUsed - UInt64.ofNat (stop - start) } a
    else if vma.vmStart < start then
      let heap := heap.setVma p { vma with vmEnd := start }
      unmapNodes places start stop fuel (heap.vmNext p) heap
        { mgr with vmUsed := mgr.vmUsed - UInt64.ofNat (vma.vmEnd - start) } a
    else if stop < vma.vmEnd then
      some ⟨true, heap.setVma p { vma with
          vmStart := stop
          vmOffset := vma.advanceOffset (stop - vma.vmStart) },
        { mgr with vmUsed := mgr.vmUsed - UInt64.ofNat (stop - vma.vmStart) }, a⟩
    else unmapNodes places start stop fuel (heap.vmNext p) heap mgr a

/-- `vma_unmap_range`. A walk visits each live node at most once, and the part that a split
adds. -/
def unmapRangeAt (places : NodePlaces) (start stop : Nat) (heap : VmaHeap) (mgr : VmaOwner)
    (a : Allocators) : Option HeapOutcome :=
  if stop ≤ start then some ⟨false, heap, mgr, a⟩
  else unmapNodes places start stop (heap.live.length + 2) mgr.vmaList heap mgr a

namespace VmaHeap

/-- The link forward, where the null pointer stands for the manager. -/
def nextOf (heap : VmaHeap) (mgr : VmaOwner) (p : Nat) : Nat :=
  if p = 0 then mgr.vmaList else heap.vmNext p

/-- The manager leads to these nodes. -/
structure Holds (heap : VmaHeap) (mgr : VmaOwner) (nodes : List Nat) : Prop where
  threaded : Threaded 0 (heap.nextOf mgr) heap.vmPrev (0 :: (nodes ++ [0]))
  distinct : nodes.Nodup
  proper : 0 ∉ nodes
  live : ∀ p ∈ nodes, p ∈ heap.live

variable {heap : VmaHeap} {mgr : VmaOwner}

/-- The head of the list is the link of node zero. -/
@[simp]
theorem nextOf_setNext (p q : Nat) : (heap.setNext mgr p q).1.nextOf (heap.setNext mgr p q).2 =
      update (heap.nextOf mgr) p q := by
  funext other
  rw [setNext]
  split
  next hzero =>
    subst hzero
    by_cases hother : other = 0
    · subst hother
      rfl
    · simp [nextOf, hother]
  next hp =>
    by_cases hother : other = p
    · subst hother
      simp [nextOf, hp]
    · rw [update_of_ne hother]
      by_cases hzero : other = 0
      · simp [nextOf, hzero]
      · simp [nextOf, hother]

section Fields

variable (p q : Nat)

@[simp]
theorem vma_setNext : (heap.setNext mgr p q).1.vma = heap.vma := by
  rw [setNext]
  split <;> rfl

@[simp]
theorem vmPrev_setNext : (heap.setNext mgr p q).1.vmPrev = heap.vmPrev := by
  rw [setNext]
  split <;> rfl

@[simp]
theorem live_setNext : (heap.setNext mgr p q).1.live = heap.live := by
  rw [setNext]
  split <;> rfl

@[simp]
theorem vmUsed_setNext : (heap.setNext mgr p q).2.vmUsed = mgr.vmUsed := by
  rw [setNext]
  split <;> rfl

@[simp]
theorem vmTotal_setNext : (heap.setNext mgr p q).2.vmTotal = mgr.vmTotal := by
  rw [setNext]
  split <;> rfl

theorem vmNext_setNext_of_ne {p q other : Nat} (h : other ≠ p) :
    (heap.setNext mgr p q).1.vmNext other = heap.vmNext other := by
  rw [setNext]
  split
  · rfl
  · exact update_of_ne h _ _

@[simp]
theorem vma_setPrev : (heap.setPrev p q).vma = heap.vma := by
  rw [setPrev]
  split <;> rfl

@[simp]
theorem vmNext_setPrev : (heap.setPrev p q).vmNext = heap.vmNext := by
  rw [setPrev]
  split <;> rfl

@[simp]
theorem live_setPrev : (heap.setPrev p q).live = heap.live := by
  rw [setPrev]
  split <;> rfl

theorem vmPrev_setPrev {p q other : Nat} (h : other ≠ 0) :
    (heap.setPrev p q).vmPrev other = update heap.vmPrev p q other := by
  rw [setPrev]
  split
  next hzero =>
    subst hzero
    rw [update_of_ne h]
  · rfl

end Fields

/-- The links of a list do not depend on its areas or on the counter. -/
theorem nextOf_eq {heap' : VmaHeap} {mgr' : VmaOwner} (hnext : heap'.vmNext = heap.vmNext)
    (hlist : mgr'.vmaList = mgr.vmaList) : heap'.nextOf mgr' = heap.nextOf mgr := by
  funext p
  rw [nextOf, nextOf, hnext, hlist]

section Neighbours

variable {nodes front back middle : List Nat} {p q : Nat}

/-- The node before a place in the list, or the null pointer. -/
def lastOf (front : List Nat) : Nat := (0 :: front).getLast (by simp)

/-- The node behind a place in the list, or the null pointer. -/
def firstOf (back : List Nat) : Nat := (back ++ [0]).head (by simp)

theorem firstOf_cons (p : Nat) (back : List Nat) : firstOf (p :: back) = p := rfl

/-- The two ends of a list with a middle part, closed to a ring by node zero. -/
theorem surround (front back : List Nat) : ∃ before behind, ∀ middle : List Nat,
    0 :: ((front ++ (middle ++ back)) ++ [0]) =
      before ++ lastOf front :: (middle ++ firstOf back :: behind) := by
  refine ⟨(0 :: front).dropLast, (back ++ [0]).tail, fun middle => ?_⟩
  have hfront : 0 :: front = (0 :: front).dropLast ++ [lastOf front] :=
    (dropLast_append_getLast _).symm
  have hback : back ++ [0] = firstOf back :: (back ++ [0]).tail := (cons_head_tail _).symm
  calc 0 :: ((front ++ (middle ++ back)) ++ [0])
      = (0 :: front) ++ (middle ++ (back ++ [0])) := by simp
    _ = ((0 :: front).dropLast ++ [lastOf front]) ++ (middle ++ (firstOf back :: (back ++ [0]).tail)) := by
        rw [← hfront, ← hback]
    _ = _ := by simp

theorem Holds.sources (h : heap.Holds mgr nodes) : (0 :: (nodes ++ [0])).dropLast.Nodup := by
  rw [← cons_append, dropLast_concat]
  exact nodup_cons.mpr ⟨h.proper, h.distinct⟩

theorem Holds.targets (h : heap.Holds mgr nodes) : (0 :: (nodes ++ [0])).tail.Nodup := by
  refine nodup_append.mpr ⟨h.distinct, by simp, ?_⟩
  rintro x hx _ hzero rfl
  obtain rfl := mem_singleton.mp hzero
  exact h.proper hx

/-- The links of a node lead to its neighbours in the list. -/
theorem Holds.around (h : heap.Holds mgr (front ++ p :: back)) :
    heap.vmPrev p = lastOf front ∧ heap.vmNext p = firstOf back := by
  have hp : p ≠ 0 := fun hzero => h.proper (by simp [hzero])
  obtain ⟨before, behind, hsurround⟩ := surround front back
  have hthreaded := h.threaded
  rw [← singleton_append (l := back), hsurround, Threaded.append] at hthreaded
  obtain ⟨-, -, hprev, hnext, -⟩ := hthreaded
  rw [nextOf, if_neg hp] at hnext
  exact ⟨hprev hp, hnext⟩

theorem Holds.head (h : heap.Holds mgr nodes) : mgr.vmaList = firstOf nodes := by
  have hthreaded := h.threaded
  rw [show 0 :: (nodes ++ [0]) = 0 :: firstOf nodes :: (nodes ++ [0]).tail by
    rw [firstOf, cons_head_tail]] at hthreaded
  exact hthreaded.1

variable {heap' : VmaHeap} {mgr' : VmaOwner}

/-- Only the links of the nodes and the addresses in use matter. -/
theorem Holds.frame (h : heap.Holds mgr nodes) (hnext : ∀ p ∈ nodes, heap'.vmNext p = heap.vmNext p)
    (hprev : ∀ p ∈ nodes, heap'.vmPrev p = heap.vmPrev p) (hlist : mgr'.vmaList = mgr.vmaList)
    (hlive : ∀ p ∈ nodes, p ∈ heap.live → p ∈ heap'.live) :
    heap'.Holds mgr' nodes := by
  refine ⟨h.threaded.congr (fun p hp => ?_) fun p hp hne => ?_, h.distinct, h.proper,
    fun p hp => hlive p hp (h.live p hp)⟩
  · rw [← cons_append, dropLast_concat] at hp
    rw [nextOf, nextOf, hlist]
    split
    · rfl
    next hne => exact hnext p ((mem_cons.mp hp).resolve_left hne)
  · rw [tail_cons, mem_append] at hp
    exact hprev p (hp.resolve_right fun hzero => hne (mem_singleton.mp hzero))

theorem Holds.congr (h : heap.Holds mgr nodes) (hnext : heap'.vmNext = heap.vmNext)
    (hprev : heap'.vmPrev = heap.vmPrev) (hlist : mgr'.vmaList = mgr.vmaList)
    (hlive : ∀ p ∈ nodes, p ∈ heap.live → p ∈ heap'.live) :
    heap'.Holds mgr' nodes :=
  h.frame (fun _ _ => by rw [hnext]) (fun _ _ => by rw [hprev]) hlist hlive

section

variable (h : heap.Holds mgr (front ++ p :: back))
include h

theorem Holds.ne_lastOf : p ≠ lastOf front := by
  intro hsame
  have hdistinct := h.distinct
  rw [nodup_middle, nodup_cons] at hdistinct
  rcases mem_cons.mp (getLast_mem (show 0 :: front ≠ [] by simp)) with hzero | hmem
  · exact h.proper (by rw [show p = 0 from hsame.trans hzero]; simp)
  · exact hdistinct.1 (mem_append_left _ (by rw [hsame]; exact hmem))

/-- The list without a node, which is free then. -/
theorem Holds.remove :
    ((heap.remove mgr p).1.free p).Holds (heap.remove mgr p).2 (front ++ back) := by
  obtain ⟨hprev, hnext⟩ := h.around
  have hlast := h.ne_lastOf
  obtain ⟨before, behind, hsurround⟩ := surround front back
  have hthreaded := h.threaded
  have hsources := h.sources
  have htargets := h.targets
  rw [← singleton_append (l := back), hsurround] at hthreaded hsources htargets
  have hunlink := hthreaded.unlink hsources htargets
  have hdistinct := h.distinct
  rw [nodup_middle, nodup_cons] at hdistinct
  refine ⟨?_, hdistinct.2, fun hzero => h.proper ?_, fun q hq => ?_⟩
  · have hnextOf : ((heap.remove mgr p).1.free p).nextOf (heap.remove mgr p).2 =
        update (heap.nextOf mgr) (lastOf front) (firstOf back) := by
      rw [← hprev, ← hnext, ← nextOf_setNext]
      exact nextOf_eq (vmNext_setPrev _ _) rfl
    have hlist := hsurround []
    rw [nil_append, nil_append] at hlist
    rw [hlist, hnextOf]
    refine hunlink.congr (fun _ _ => rfl) fun q _ hq => ?_
    have hnext' : (heap.setNext mgr (heap.vmPrev p) (heap.vmNext p)).1.vmNext p = firstOf back := by
      rw [vmNext_setNext_of_ne (by rw [hprev]; exact hlast), hnext]
    show ((heap.setNext mgr (heap.vmPrev p) (heap.vmNext p)).1.setPrev
      ((heap.setNext mgr (heap.vmPrev p) (heap.vmNext p)).1.vmNext p)
      ((heap.setNext mgr (heap.vmPrev p) (heap.vmNext p)).1.vmPrev p)).vmPrev q = _
    rw [vmPrev_setPrev hq, hnext', vmPrev_setNext, hprev]
  · rcases mem_append.mp hzero with hmem | hmem
    · exact mem_append_left _ hmem
    · exact mem_append_right _ (mem_cons_of_mem _ hmem)
  · have hne : q ≠ p := by
      rintro rfl
      exact hdistinct.1 hq
    have hlive := h.live q (by
      rcases mem_append.mp hq with hmem | hmem
      · exact mem_append_left _ hmem
      · exact mem_append_right _ (mem_cons_of_mem _ hmem))
    refine (mem_erase_of_ne hne).mpr ?_
    simp only [VmaHeap.remove, live_setPrev, live_setNext]
    exact hlive

end

/-- A node that is linked in between two others. -/
theorem Holds.link (h : heap.Holds mgr (front ++ back)) (hq : q ≠ 0) (hnew : q ∉ front ++ back)
    (hnext : heap'.nextOf mgr' = update (update (heap.nextOf mgr) q (firstOf back))
      (lastOf front) q)
    (hprev : ∀ other ≠ 0, heap'.vmPrev other =
      update (update heap.vmPrev q (lastOf front)) (firstOf back) q other)
    (hqlive : q ∈ heap'.live) (hlive : ∀ p ∈ heap.live, p ∈ heap'.live) :
    heap'.Holds mgr' (front ++ q :: back) := by
  obtain ⟨before, behind, hsurround⟩ := surround front back
  have hlist := hsurround []
  rw [nil_append, nil_append] at hlist
  have hthreaded := h.threaded
  have hsources := h.sources
  have htargets := h.targets
  have houtside : q ∉ 0 :: ((front ++ back) ++ [0]) := by
    simp only [mem_cons, mem_append, not_mem_nil, or_false, not_or]
    exact ⟨hq, ⟨fun hmem => hnew (by simp [hmem]), fun hmem => hnew (by simp [hmem])⟩, hq⟩
  rw [hlist] at hthreaded hsources htargets houtside
  have hlink := hthreaded.link hsources htargets houtside
  refine ⟨?_, ?_, ?_, fun p hp => ?_⟩
  · rw [← singleton_append (l := back), hsurround, hnext]
    exact hlink.congr (fun _ _ => rfl) fun other _ hother => hprev other hother
  · rw [nodup_middle]
    exact nodup_cons.mpr ⟨hnew, h.distinct⟩
  · intro hzero
    rw [mem_append, mem_cons] at hzero
    rcases hzero with hmem | rfl | hmem
    · exact h.proper (mem_append_left _ hmem)
    · exact hq rfl
    · exact h.proper (mem_append_right _ hmem)
  · rw [mem_append, mem_cons] at hp
    rcases hp with hmem | rfl | hmem
    · exact hlive p (h.live p (mem_append_left _ hmem))
    · exact hqlive
    · exact hlive p (h.live p (mem_append_right _ hmem))

section Splice

variable {left right : Vma}

theorem vma_splice : (heap.splice p q left right).vma =
    update (update heap.vma q right) p left := by
  rw [splice, vma_setPrev]
  rfl

theorem vmNext_splice : (heap.splice p q left right).vmNext =
    update (update heap.vmNext q (heap.vmNext p)) p q := by
  rw [splice, vmNext_setPrev]
  rfl

theorem live_splice : (heap.splice p q left right).live = q :: heap.live := by
  rw [splice, live_setPrev]
  rfl

theorem vmPrev_splice (hqp : q ≠ p) {other : Nat} (hother : other ≠ 0) :
    (heap.splice p q left right).vmPrev other =
      update (update heap.vmPrev q p) (heap.vmNext p) q other := by
  rw [splice, vmPrev_setPrev hother]
  show update (update heap.vmPrev q p)
    (update (update heap.vmNext q (heap.vmNext p)) p q q) q other = _
  rw [update_of_ne hqp, update_self]

end Splice

/-- The second half of a split area is a node behind the first. -/
theorem Holds.splice (h : heap.Holds mgr (front ++ p :: back)) (hq : q ≠ 0) (hfresh : q ∉ heap.live)
    (left right : Vma) : (heap.splice p q left right).Holds mgr (front ++ p :: q :: back) := by
  obtain ⟨-, hnext⟩ := h.around
  have hp : p ≠ 0 := fun hzero => h.proper (by simp [hzero])
  have hqp : q ≠ p := fun hsame => hfresh (hsame ▸ h.live p (by simp))
  have hholds : heap.Holds mgr ((front ++ [p]) ++ back) := by rwa [append_assoc, singleton_append]
  have hlast : lastOf (front ++ [p]) = p := by simp [lastOf]
  have hresult : (heap.splice p q left right).Holds mgr ((front ++ [p]) ++ q :: back) := by
    refine hholds.link hq (fun hmem => hfresh (hholds.live q hmem)) ?_ (fun other hother => ?_)
      (by rw [live_splice]; exact mem_cons_self)
      fun other hother => by rw [live_splice]; exact mem_cons_of_mem _ hother
    · rw [hlast, ← hnext]
      funext other
      by_cases hzero : other = 0
      · subst hzero
        rw [update_of_ne (Ne.symm hp), update_of_ne (Ne.symm hq)]
        rfl
      · rw [nextOf, if_neg hzero, vmNext_splice]
        by_cases hother : other = p
        · rw [hother, update_self, update_self]
        · rw [update_of_ne hother, update_of_ne hother]
          by_cases hnew : other = q
          · rw [hnew, update_self, update_self]
          · rw [update_of_ne hnew, update_of_ne hnew, nextOf, if_neg hzero]
    · rw [hlast, ← hnext, vmPrev_splice hqp hother]
  rwa [append_assoc, singleton_append] at hresult

end Neighbours

section Unmap

variable {places : NodePlaces} {start stop : Nat}

def areas (heap : VmaHeap) (nodes : List Nat) : List Vma := nodes.map heap.vma

/-- Areas depend on their own nodes alone. -/
theorem areas_congr {heap heap' : VmaHeap} {nodes : List Nat}
    (h : ∀ p ∈ nodes, heap'.vma p = heap.vma p) : heap'.areas nodes = heap.areas nodes :=
  map_congr_left h

/-- The loop behind `front` did what the walk over the list does. -/
structure Follows (heap : VmaHeap) (mgr : VmaOwner) (front : List Nat) (walk : UnmapOutcome)
    (heap' : VmaHeap) (mgr' : VmaOwner) (back : List Nat) : Prop where
  holds : heap'.Holds mgr' (front ++ back)
  list : heap'.areas back = walk.vmaList
  used : mgr'.vmUsed = walk.vmUsed
  total : mgr'.vmTotal = mgr.vmTotal
  kept : ∀ p ∈ front, heap'.vma p = heap.vma p

section Steps

variable {heap heap₁ heap' : VmaHeap} {mgr mgr₁ mgr' : VmaOwner} {front back rest : List Nat} {p : Nat}
  {walk : UnmapOutcome}

/-- The node itself stays in front, with an area that may have changed. -/
theorem Follows.keep (h : heap₁.Follows mgr₁ (front ++ [p]) walk heap' mgr' back)
    (htotal : mgr₁.vmTotal = mgr.vmTotal) (hkept : ∀ q ∈ front, heap₁.vma q = heap.vma q) :
    heap.Follows mgr front { walk with vmaList := heap₁.vma p :: walk.vmaList } heap' mgr' (p :: back) where
  holds := by
    have hholds := h.holds
    rwa [append_assoc, singleton_append] at hholds
  list := by
    show heap'.vma p :: heap'.areas back = _
    rw [h.kept p (by simp), h.list]
  used := h.used
  total := h.total.trans htotal
  kept q hq := (h.kept q (mem_append_left _ hq)).trans (hkept q hq)

theorem Holds.not_mem (h : heap.Holds mgr (front ++ p :: rest)) : p ∉ front ∧ p ∉ rest := by
  have hdistinct := h.distinct
  rw [nodup_middle, nodup_cons] at hdistinct
  exact ⟨fun hmem => hdistinct.1 (mem_append_left _ hmem),
    fun hmem => hdistinct.1 (mem_append_right _ hmem)⟩

variable {vma : Vma}

theorem vma_setVma_of_ne {q : Nat} (h : q ≠ p) : (heap.setVma p vma).vma q = heap.vma q :=
  update_of_ne h _ _

theorem vma_setVma : (heap.setVma p vma).vma p = vma := update_self ..

theorem areas_setVma (h : p ∉ rest) : (heap.setVma p vma).areas rest = heap.areas rest :=
  areas_congr fun _ hq => vma_setVma_of_ne fun hsame => h (hsame ▸ hq)

theorem areas_setVma_cons (h : p ∉ rest) :
    (heap.setVma p vma).areas (p :: rest) = vma :: heap.areas rest := by
  show (heap.setVma p vma).vma p :: (heap.setVma p vma).areas rest = _
  rw [vma_setVma, areas_setVma h]

theorem vma_remove : (heap.remove mgr p).1.vma = heap.vma := by
  simp only [remove, vma_setPrev, vma_setNext]

theorem vmUsed_remove :
    (heap.remove mgr p).2.vmUsed = mgr.vmUsed - UInt64.ofNat (heap.vma p).length := by
  simp only [remove, vma_setNext, vmUsed_setNext]

theorem vmTotal_remove : (heap.remove mgr p).2.vmTotal = mgr.vmTotal := by
  simp only [remove, vmTotal_setNext]

end Steps

/-- An area around the range is cut in two, and the loop stops at the right part. -/
theorem splitNodes_follows {heap : VmaHeap} {mgr : VmaOwner} {front rest : List Nat}
    {p q fuel : Nat} {a a' : Allocators} {left right : Vma} (hq : q ≠ 0) (hfresh : q ∉ heap.live)
    (hsplit : vmaSplit (heap.vma p) stop a = (some (left, right), a'))
    (h : heap.Holds mgr (front ++ p :: rest)) (hbefore : ¬(heap.vma p).vmEnd ≤ start)
    (hfuel : 0 < fuel) :
    let spliced := heap.splice p q left right
    let heap₁ := spliced.setVma p { spliced.vma p with vmEnd := start }
    let mgr₁ := { mgr with vmUsed := mgr.vmUsed - UInt64.ofNat (stop - start) }
    ∃ heap' mgr' back', unmapNodes places start stop fuel (heap₁.vmNext p) heap₁ mgr₁ a' =
        some ⟨true, heap', mgr', a'⟩ ∧
      heap.Follows mgr front ⟨true, { left with vmEnd := start } :: right :: heap.areas rest,
        mgr.vmUsed - UInt64.ofNat (stop - start), a'⟩ heap' mgr' back' := by
  intro spliced heap₁ mgr₁
  obtain ⟨fuel, rfl⟩ : ∃ k, fuel = k + 1 := ⟨fuel - 1, by omega⟩
  obtain ⟨-, -, -, hstart, hend, -⟩ := vmaSplit_eq_some hsplit
  obtain ⟨hfront, hrest⟩ := h.not_mem
  have hqp : q ≠ p := fun hsame => hfresh (hsame ▸ h.live p (by simp))
  have hleft : spliced.vma p = left := by rw [vma_splice, update_self]
  have hright : heap₁.vma q = right := by
    rw [vma_setVma_of_ne hqp, vma_splice, update_of_ne hqp, update_self]
  have hnext : heap₁.vmNext p = q := by
    show spliced.vmNext p = q
    rw [vmNext_splice, update_self]
  have hother : ∀ other ≠ p, other ≠ q → heap₁.vma other = heap.vma other := by
    intro other hp hq
    rw [vma_setVma_of_ne hp, vma_splice, update_of_ne hp, update_of_ne hq]
  have hmem : ∀ other ∈ front ++ p :: rest, other ≠ q := fun other hmem hsame =>
    hfresh (hsame ▸ h.live other hmem)
  refine ⟨heap₁, mgr₁, p :: q :: rest, ?_, ?_, ?_, rfl, rfl, fun other hmem' => ?_⟩
  · rw [hnext, unmapNodes]
    simp only [hright]
    rw [if_neg hq, if_neg (by omega), if_pos (by omega)]
  · exact (h.splice hq hfresh left right).congr rfl rfl rfl fun _ _ hlive => hlive
  · show heap₁.vma p :: heap₁.vma q :: heap₁.areas rest = _
    rw [hright, vma_setVma, hleft, areas_congr fun other hmem' => hother other ?_ ?_]
    · exact fun hsame => hrest (hsame ▸ hmem')
    · exact hmem other (mem_append_right _ (mem_cons_of_mem _ hmem'))
  · exact hother other (fun hsame => hfront (hsame ▸ hmem')) (hmem other (mem_append_left _ hmem'))

/-- From a node on, the loop does on the list what `vmaUnmapWalk` does. The induction is on the
nodes that are left. -/
theorem unmapNodes_follows {heap : VmaHeap} {mgr : VmaOwner} {front back : List Nat} {a : Allocators}
    {fuel : Nat} (h : heap.Holds mgr (front ++ back)) (hfuel : back.length + 2 ≤ fuel) :
    ∃ heap' mgr' back', unmapNodes places start stop fuel (firstOf back) heap mgr a =
        some ⟨(vmaUnmapWalk start stop a (heap.areas back) mgr.vmUsed).ok, heap', mgr',
          (vmaUnmapWalk start stop a (heap.areas back) mgr.vmUsed).allocators⟩ ∧
      heap.Follows mgr front (vmaUnmapWalk start stop a (heap.areas back) mgr.vmUsed) heap' mgr' back' := by
  obtain ⟨fuel, rfl⟩ : ∃ k, fuel = k + 1 := ⟨fuel - 1, by omega⟩
  induction back generalizing front heap mgr fuel with
  | nil =>
    refine ⟨heap, mgr, [], ?_, h, rfl, rfl, rfl, fun _ _ => rfl⟩
    rw [unmapNodes]
    exact if_pos rfl
  | cons p rest ih =>
    have hp : p ≠ 0 := fun hzero => h.proper (by simp [hzero])
    obtain ⟨-, hnext⟩ := h.around
    obtain ⟨hfront, hrest⟩ := h.not_mem
    rw [length_cons] at hfuel
    obtain ⟨fuel, rfl⟩ : ∃ k, fuel = k + 1 := ⟨fuel - 1, by omega⟩
    have hshift : heap.Holds mgr ((front ++ [p]) ++ rest) := by rwa [append_assoc, singleton_append]
    have hback : heap.areas (p :: rest) = heap.vma p :: heap.areas rest := rfl
    rw [firstOf_cons, unmapNodes, hback, vmaUnmapWalk]
    simp only [if_neg hp]
    by_cases hbefore : (heap.vma p).vmEnd ≤ start
    · simp only [if_pos hbefore, hnext]
      obtain ⟨heap', mgr', back', hrun, hfollows⟩ := ih hshift fuel (by omega)
      exact ⟨heap', mgr', p :: back', hrun, hfollows.keep rfl fun _ _ => rfl⟩
    simp only [if_neg hbefore]
    by_cases hbehind : stop ≤ (heap.vma p).vmStart
    · simp only [if_pos hbehind]
      exact ⟨heap, mgr, p :: rest, rfl, h, rfl, rfl, rfl, fun _ _ => rfl⟩
    simp only [if_neg hbehind]
    by_cases hinside : start ≤ (heap.vma p).vmStart ∧ (heap.vma p).vmEnd ≤ stop
    · simp only [if_pos hinside, hnext]
      have hremove := h.remove
      obtain ⟨heap', mgr', back', hrun, hfollows⟩ := ih hremove fuel (by omega)
      have hareas : ((heap.remove mgr p).1.free p).areas rest = heap.areas rest :=
        areas_congr fun q _ => congrFun vma_remove q
      rw [hareas, vmUsed_remove] at hrun hfollows
      exact ⟨heap', mgr', back', hrun, hfollows.holds, hfollows.list, hfollows.used,
        hfollows.total.trans vmTotal_remove,
        fun q hq => (hfollows.kept q hq).trans (congrFun vma_remove q)⟩
    simp only [if_neg hinside]
    by_cases hcross : (heap.vma p).vmStart < start ∧ stop < (heap.vma p).vmEnd
    · simp only [if_pos hcross]
      rw [VmaHeap.split]
      cases hsplit : vmaSplit (heap.vma p) stop a with
      | mk parts a' =>
        cases parts with
        | none => exact ⟨heap, mgr, p :: rest, rfl, h, rfl, rfl, rfl, fun _ _ => rfl⟩
        | some parts =>
          exact splitNodes_follows (places.proper _) (places.fresh _) hsplit h hbefore (by omega)
    simp only [if_neg hcross]
    by_cases hleft : (heap.vma p).vmStart < start
    · simp only [if_pos hleft]
      have hholds : (heap.setVma p { heap.vma p with vmEnd := start }).Holds
          { mgr with vmUsed := mgr.vmUsed - UInt64.ofNat ((heap.vma p).vmEnd - start) }
          ((front ++ [p]) ++ rest) := hshift.congr rfl rfl rfl fun _ _ hlive => hlive
      obtain ⟨heap', mgr', back', hrun, hfollows⟩ := ih hholds fuel (by omega)
      rw [areas_setVma hrest] at hrun hfollows
      have hothers : ∀ q ∈ front,
          (heap.setVma p { heap.vma p with vmEnd := start }).vma q = heap.vma q :=
        fun q hq => vma_setVma_of_ne fun hsame => hfront (hsame ▸ hq)
      have hkeep := hfollows.keep (show _ = mgr.vmTotal from rfl) hothers
      rw [vma_setVma] at hkeep
      refine ⟨heap', mgr', p :: back', ?_, hkeep⟩
      rw [← hrun, ← hnext]
      rfl
    simp only [if_neg hleft]
    rw [if_pos (by omega)]
    exact ⟨_, _, p :: rest, rfl, h.congr rfl rfl rfl fun _ _ hlive => hlive, areas_setVma_cons hrest,
      rfl, rfl, fun q hq => vma_setVma_of_ne fun hsame => hfront (hsame ▸ hq)⟩

end Unmap

end VmaHeap

end OpenXJ380.Memory
