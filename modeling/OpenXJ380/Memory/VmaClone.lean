/-
# Copying the areas of a process

`vma_manager_clone` copies the areas one by one and inserts each into the new list
(`kernel/memory/vma.cpp`). Both lists lie in one heap. A copy of nonempty areas in order has
the same areas, and fails only where memory runs out.
-/

import OpenXJ380.Memory.VmaRemoval

namespace OpenXJ380.Memory

open List Function Data

namespace VmaHeap

variable (heap : VmaHeap) (mgr : VmaOwner)

/-- The nodes on a walk along the links; a list has no more nodes than are in use. -/
def walk : Nat → Nat → List Nat
  | 0, _ => []
  | fuel + 1, p => if p = 0 then [] else p :: walk fuel (heap.vmNext p)

def nodesOf : List Nat := heap.walk heap.live.length mgr.vmaList

/-- `vma_find_intersection`. -/
def findIntersection (start stop : Nat) : Option Nat :=
  (heap.nodesOf mgr).find? fun p => (heap.vma p).intersects start stop

/-- The neighbours of a new area: the last one that starts before it and the next one. -/
def insertPlace (start : Nat) : Nat → Nat → Nat → Nat × Nat
  | 0, prev, p => (prev, p)
  | fuel + 1, prev, p =>
    if p ≠ 0 ∧ (heap.vma p).vmStart < start then insertPlace start fuel p (heap.vmNext p)
    else (prev, p)

/-- Link a node between two others, or the null pointer. -/
def linkBetween (prev next q : Nat) : VmaHeap × VmaOwner :=
  let linked := { heap with
    vmNext := update heap.vmNext q next
    vmPrev := update heap.vmPrev q prev }
  ((linked.setNext mgr prev q).1.setPrev next q, (linked.setNext mgr prev q).2)

/-- `vma_insert`. -/
def insert (q : Nat) : Option (VmaHeap × VmaOwner) :=
  let new := heap.vma q
  if (heap.findIntersection mgr new.vmStart new.vmEnd).isSome then none
  else
    let (prev, next) := heap.insertPlace new.vmStart heap.live.length 0 mgr.vmaList
    let (heap, mgr) := heap.linkBetween mgr prev next q
    some (heap, { mgr with vmUsed := mgr.vmUsed + UInt64.ofNat new.length })

/-- `vma_manager_exit_cleanup`. -/
def exitCleanup : VmaHeap × VmaOwner :=
  let cleaned := (heap.nodesOf mgr).foldl (fun (state : VmaHeap × VmaOwner) p =>
      let (heap, mgr) := state.1.remove state.2 p
      (heap.free p, mgr)) (heap, mgr)
  (cleaned.1, ⟨0, 0, 0⟩)

/-- Another area than this one meets its range. -/
def overlaps (p : Nat) : Bool := (heap.nodesOf mgr).any fun other =>
    decide (other ≠ p) && (heap.vma other).intersects (heap.vma p).vmStart (heap.vma p).vmEnd

/-- A failed copy is cleaned up. -/
def cloneFailed (a : Allocators) : HeapOutcome :=
  ⟨false, (heap.exitCleanup mgr).1, (heap.exitCleanup mgr).2, a⟩

/-- `vma_clone_name`; no name is the copy of none. -/
def cloneName (name : Option String) (a : Allocators) : Option (Option String) × Allocators :=
  match name with
  | none => (some none, a)
  | some text => if a.malloc.1 then (some (some text), a.malloc.2) else (none, a.malloc.2)

/-- The loop of `vma_manager_clone` from a node of the source on; `mgr` is the copy. -/
def cloneNodes (places : NodePlaces) (src : VmaOwner) :
    Nat → Nat → VmaHeap → VmaOwner → Allocators → Option HeapOutcome
  | 0, _, _, _, _ => none
  | fuel + 1, p, heap, mgr, a =>
    let vma := heap.vma p
    if p = 0 then some ⟨true, heap, mgr, a⟩
    else if vma.vmEnd ≤ vma.vmStart then some (heap.cloneFailed mgr a)
    else if heap.overlaps src p then some (heap.cloneFailed mgr a)
    else if !a.malloc.1 then some (heap.cloneFailed mgr a.malloc.2)
    else
      let q := places.place heap.live
      match cloneName vma.vmName a.malloc.2 with
      | (none, a) => some (((heap.write q { vma with vmName := none } 0 0).free q).cloneFailed mgr a)
      | (some name, a) =>
        let copied := heap.write q { vma with vmName := name } 0 0
        match copied.insert mgr q with
        | none => some ((copied.free q).cloneFailed mgr a)
        | some (heap, mgr) => cloneNodes places src fuel (heap.vmNext p) heap mgr a

/-- `vma_manager_clone`. -/
def cloneManager (places : NodePlaces) (src : VmaOwner) (a : Allocators) : Option HeapOutcome :=
  cloneNodes places src (heap.live.length + 1) src.vmaList heap ⟨0, src.vmTotal, 0⟩ a

section Walks

variable {heap mgr} {front back nodes : List Nat}

theorem walk_eq {fuel : Nat} (h : heap.Holds mgr (front ++ back)) (hfuel : back.length ≤ fuel) :
    heap.walk fuel (firstOf back) = back := by
  induction back generalizing front fuel with
  | nil => cases fuel <;> rfl
  | cons p rest ih =>
    have hp : p ≠ 0 := fun hzero => h.proper (by simp [hzero])
    obtain ⟨fuel, rfl⟩ : ∃ k, fuel = k + 1 := ⟨fuel - 1, by simp only [length_cons] at hfuel; omega⟩
    have hrest : heap.Holds mgr ((front ++ [p]) ++ rest) := by rwa [append_assoc, singleton_append]
    rw [firstOf_cons, walk, if_neg hp, h.around.2, ih hrest (by simpa using hfuel)]

theorem nodesOf_eq (h : heap.Holds mgr nodes) : heap.nodesOf mgr = nodes := by
  rw [nodesOf, h.head]
  exact walk_eq (show heap.Holds mgr ([] ++ nodes) from h) h.length_le

/-- An area behind all others has the last of them before it. -/
theorem insertPlace_eq {start fuel : Nat} (h : heap.Holds mgr (front ++ back))
    (hstart : ∀ p ∈ back, (heap.vma p).vmStart < start) (hfuel : back.length ≤ fuel) :
    heap.insertPlace start fuel (lastOf front) (firstOf back) = (lastOf (front ++ back), 0) := by
  induction back generalizing front fuel with
  | nil =>
    rw [append_nil]
    cases fuel with
    | zero => rfl
    | succ fuel => rfl
  | cons p rest ih =>
    have hp : p ≠ 0 := fun hzero => h.proper (by simp [hzero])
    obtain ⟨fuel, rfl⟩ : ∃ k, fuel = k + 1 := ⟨fuel - 1, by simp only [length_cons] at hfuel; omega⟩
    have hrest : heap.Holds mgr ((front ++ [p]) ++ rest) := by rwa [append_assoc, singleton_append]
    have hlast : lastOf (front ++ [p]) = p := by simp [lastOf]
    have hnext := ih hrest (fun q hq => hstart q (by simp [hq]))
      (show rest.length ≤ fuel by simpa using hfuel)
    rw [hlast, append_assoc, singleton_append] at hnext
    rw [firstOf_cons, insertPlace, if_pos ⟨hp, hstart p (by simp)⟩, h.around.2, hnext]

end Walks

/-- What an insertion at the end leaves. -/
structure Appended (heap : VmaHeap) (mgr : VmaOwner) (nodes : List Nat) (q : Nat) (heap' : VmaHeap)
    (mgr' : VmaOwner) : Prop where
  holds : heap'.Holds mgr' (nodes ++ [q])
  vma : heap'.vma = heap.vma
  live : heap'.live = heap.live
  used : mgr'.vmUsed = mgr.vmUsed + UInt64.ofNat (heap.vma q).length
  total : mgr'.vmTotal = mgr.vmTotal
  next : ∀ other ∉ nodes, other ≠ q → other ≠ 0 → heap'.vmNext other = heap.vmNext other
  prev : ∀ other ≠ q, heap'.vmPrev other = heap.vmPrev other

section Insert

variable {heap mgr} {nodes : List Nat} {q : Nat}

theorem lastOf_mem (nodes : List Nat) : lastOf nodes = 0 ∨ lastOf nodes ∈ nodes :=
  mem_cons.mp (getLast_mem (show 0 :: nodes ≠ [] by simp))

theorem insert_behind (h : heap.Holds mgr nodes) (hq : q ≠ 0) (hnew : q ∉ nodes) (hqlive : q ∈ heap.live)
    (hbefore : ∀ p ∈ nodes, (heap.vma p).vmStart < (heap.vma p).vmEnd ∧
      (heap.vma p).vmEnd ≤ (heap.vma q).vmStart) :
    ∃ heap' mgr', heap.insert mgr q = some (heap', mgr') ∧ Appended heap mgr nodes q heap' mgr' := by
  have hfree : heap.findIntersection mgr (heap.vma q).vmStart (heap.vma q).vmEnd = none := by
    rw [findIntersection, nodesOf_eq h, List.find?_eq_none]
    intro p hp
    rw [Vma.intersects_eq_false.mpr (.inr (hbefore p hp).2)]
    exact Bool.false_ne_true
  have hplace : heap.insertPlace (heap.vma q).vmStart heap.live.length 0 mgr.vmaList = (lastOf nodes, 0) := by
    rw [h.head]
    exact insertPlace_eq (show heap.Holds mgr ([] ++ nodes) from h)
      (fun p hp => Nat.lt_of_lt_of_le (hbefore p hp).1 (hbefore p hp).2) h.length_le
  have hholds : heap.Holds mgr (nodes ++ []) := by rwa [append_nil]
  have hnextOf : (heap.linkBetween mgr (lastOf nodes) 0 q).1.nextOf
      (heap.linkBetween mgr (lastOf nodes) 0 q).2 =
        update (update (heap.nextOf mgr) q 0) (lastOf nodes) q := by
    rw [linkBetween, nextOf_eq (vmNext_setPrev _ _) rfl, nextOf_setNext]
    congr 1
    funext other
    by_cases hother : other = q
    · simp [nextOf, hother, hq]
    · simp [nextOf, hother]
  have hvmPrev : (heap.linkBetween mgr (lastOf nodes) 0 q).1.vmPrev =
      update heap.vmPrev q (lastOf nodes) := by
    rw [linkBetween, setPrev, if_pos rfl, vmPrev_setNext]
  have hlive : (heap.linkBetween mgr (lastOf nodes) 0 q).1.live = heap.live := by
    rw [linkBetween, live_setPrev, live_setNext]
  have hlinked : (heap.linkBetween mgr (lastOf nodes) 0 q).1.Holds
      (heap.linkBetween mgr (lastOf nodes) 0 q).2 (nodes ++ [q]) := by
    refine hholds.link hq (by rwa [append_nil]) hnextOf (fun other hother => ?_) ?_ fun p hp => ?_
    · rw [hvmPrev]
      exact (update_of_ne hother _ _).symm
    all_goals rwa [hlive]
  refine ⟨(heap.linkBetween mgr (lastOf nodes) 0 q).1, { (heap.linkBetween mgr (lastOf nodes) 0 q).2 with
      vmUsed := (heap.linkBetween mgr (lastOf nodes) 0 q).2.vmUsed + UInt64.ofNat (heap.vma q).length },
    ?_, hlinked.congr rfl rfl rfl fun _ _ hp => hp, ?_, hlive, ?_, ?_, fun other hother hne hzero => ?_,
    fun other hne => ?_⟩
  · rw [insert, hfree, hplace]
    rfl
  · rw [linkBetween, vma_setPrev, vma_setNext]
  · simp only [linkBetween, vmUsed_setNext]
  · simp only [linkBetween, vmTotal_setNext]
  · have hother' : other ≠ lastOf nodes := by
      rcases lastOf_mem nodes with hlast | hmem
      · rwa [hlast]
      · exact fun hsame => hother (hsame ▸ hmem)
    rw [linkBetween, vmNext_setPrev, vmNext_setNext_of_ne hother']
    exact update_of_ne hne _ _
  · rw [hvmPrev, update_of_ne hne]

end Insert

section Clone

variable {places : NodePlaces} {src : VmaOwner} {nodes todo copies : List Nat} {list : List Vma}

/-- A copy under way: the areas of the nodes `done` have been copied. -/
structure Copying (src : VmaOwner) (nodes done : List Nat) (list : List Vma) (heap : VmaHeap)
    (mgr : VmaOwner) (copies : List Nat) : Prop where
  source : heap.Holds src nodes
  areas : heap.areas nodes = list
  copy : heap.Holds mgr copies
  apart : ∀ p ∈ copies, p ∉ nodes
  copied : heap.areas copies = heap.areas done
  used : mgr.vmUsed = UInt64.ofNat (vmaBytes (heap.areas done))
  total : mgr.vmTotal = src.vmTotal

section Step

variable {heap mgr} {done : List Nat} {p : Nat}

theorem vma_write_of_ne {q : Nat} {vma : Vma} {next prev other : Nat} (h : other ≠ q) :
    (heap.write q vma next prev).vma other = heap.vma other := update_of_ne h _ _

theorem Holds.write {q : Nat} (h : heap.Holds mgr nodes) (hfresh : q ∉ heap.live) (vma : Vma)
    (next prev : Nat) : (heap.write q vma next prev).Holds mgr nodes := by
  have hne : ∀ p ∈ nodes, p ≠ q := fun p hp hsame => hfresh (hsame ▸ h.live p hp)
  exact h.frame (fun p hp => update_of_ne (hne p hp) _ _)
    (fun p hp => update_of_ne (hne p hp) _ _) rfl fun _ _ hlive => mem_cons_of_mem _ hlive

theorem areas_append (first second : List Nat) :
    heap.areas (first ++ second) = heap.areas first ++ heap.areas second := map_append

variable (hsorted : VmaSorted list)
include hsorted

variable (h : Copying src (done ++ p :: todo) done list heap mgr copies)
include h

/-- In the source the areas that were copied end before the next one. -/
theorem Copying.before : (heap.vma p).vmStart < (heap.vma p).vmEnd ∧ ∀ q ∈ copies,
      (heap.vma q).vmStart < (heap.vma q).vmEnd ∧ (heap.vma q).vmEnd ≤ (heap.vma p).vmStart := by
  have hlist := hsorted
  rw [← h.areas, areas_append, vmaSorted_append] at hlist
  obtain ⟨hdone, hrest, hcross⟩ := hlist
  refine ⟨hrest.nonempty _ (mem_map_of_mem mem_cons_self), fun q hq => ?_⟩
  have hmem : heap.vma q ∈ heap.areas done := by
    rw [← h.copied]
    exact mem_map_of_mem hq
  exact ⟨hdone.nonempty _ hmem, hcross _ hmem _ (mem_map_of_mem mem_cons_self)⟩

theorem Copying.not_overlaps : heap.overlaps src p = false := by
  rw [overlaps, nodesOf_eq h.source, any_eq_false]
  intro other hother
  have hlist := hsorted
  rw [← h.areas, areas_append, vmaSorted_append] at hlist
  obtain ⟨-, hrest, hcross⟩ := hlist
  rw [Bool.and_eq_true, decide_eq_true_eq]
  rintro ⟨hne, hintersects⟩
  have hmem : other ∈ done ∨ other ∈ todo := by
    simp only [mem_append, mem_cons] at hother
    tauto
  have hapart : (heap.vma p).vmEnd ≤ (heap.vma other).vmStart ∨
      (heap.vma other).vmEnd ≤ (heap.vma p).vmStart := by
    rcases hmem with hdone | htodo
    · exact .inr (hcross _ (mem_map_of_mem hdone) _ (mem_map_of_mem mem_cons_self))
    · exact .inl ((vmaSorted_cons.mp hrest).2.1 _ (mem_map_of_mem htodo))
  rw [Vma.intersects_eq_false.mpr hapart] at hintersects
  cases hintersects

theorem Copying.step :
    ∃ heap' mgr', (heap.write (places.place heap.live) (heap.vma p) 0 0).insert mgr
        (places.place heap.live) = some (heap', mgr') ∧ heap'.vmNext p = heap.vmNext p ∧
      Copying src (done ++ p :: todo) (done ++ [p]) list heap' mgr' (copies ++ [places.place heap.live]) := by
  have hq := places.proper heap.live
  have hfresh := places.fresh heap.live
  generalize places.place heap.live = q at hq hfresh
  obtain ⟨-, hbefore⟩ := h.before hsorted
  have hcopies : ∀ other ∈ copies, other ≠ q := fun other hmem hsame =>
    hfresh (hsame ▸ h.copy.live other hmem)
  have hnodes : ∀ other ∈ done ++ p :: todo, other ≠ q := fun other hmem hsame =>
    hfresh (hsame ▸ h.source.live other hmem)
  have hvma : (heap.write q (heap.vma p) 0 0).vma q = heap.vma p := update_self ..
  obtain ⟨heap', mgr', hinsert, happended⟩ := insert_behind (h.copy.write hfresh (heap.vma p) 0 0) hq
    (fun hmem => hcopies q hmem rfl) mem_cons_self fun other hmem => by
      rw [hvma, vma_write_of_ne (hcopies other hmem)]
      exact hbefore other hmem
  have hkeep : ∀ other ∈ done ++ p :: todo, heap'.vmNext other = heap.vmNext other := by
    intro other hmem
    have hne := hnodes other hmem
    have hzero : other ≠ 0 := fun hsame => h.source.proper (hsame ▸ hmem)
    rw [happended.next other (fun hcopy => h.apart other hcopy hmem) hne hzero]
    exact update_of_ne hne _ _
  have hsource : heap'.areas (done ++ p :: todo) = heap.areas (done ++ p :: todo) :=
    areas_congr fun other hmem => by rw [happended.vma, vma_write_of_ne (hnodes other hmem)]
  have hdone : heap'.areas done = heap.areas done := areas_congr fun other hmem => by
      rw [happended.vma, vma_write_of_ne (hnodes other (mem_append_left _ hmem))]
  have hlast : heap'.vma p = heap.vma p := by
    rw [happended.vma, vma_write_of_ne (hnodes p (by simp))]
  have hnew : heap'.vma q = heap.vma p := by rw [happended.vma, hvma]
  refine ⟨heap', mgr', hinsert, hkeep p (by simp), ?_, hsource.trans h.areas, happended.holds,
    fun other hmem hother => ?_, ?_, ?_, happended.total.trans h.total⟩
  · refine h.source.frame hkeep (fun other hmem => ?_) rfl fun other hmem hlive => ?_
    · rw [happended.prev other (hnodes other hmem)]
      exact update_of_ne (hnodes other hmem) _ _
    · rw [happended.live]
      exact mem_cons_of_mem _ hlive
  · rcases mem_append.mp hmem with hmem | hmem
    · exact h.apart other hmem hother
    · exact hnodes other hother (mem_singleton.mp hmem)
  · have hold : heap'.areas copies = heap.areas copies :=
      areas_congr fun other hmem => by rw [happended.vma, vma_write_of_ne (hcopies other hmem)]
    rw [areas_append, areas_append, hold, hdone, h.copied]
    show _ ++ [heap'.vma q] = _ ++ [heap'.vma p]
    rw [hnew, hlast]
  · rw [happended.used, hvma, h.used, areas_append, hdone, vmaBytes_append, UInt64.ofNat_add]
    show _ = _ + UInt64.ofNat (vmaBytes [heap'.vma p])
    rw [hlast, vmaBytes_cons, vmaBytes_nil, Nat.add_zero]

end Step

/-- A name is copied as it is, unless its memory is refused. -/
theorem cloneName_cases (name : Option String) (a : Allocators) :
    ∃ a', a'.mallocOk = a.mallocOk ∧ (cloneName name a = (some name, a') ∨
      cloneName name a = (none, a') ∧ a.mallocOk a.mallocs = false) := by
  cases name with
  | none => exact ⟨a, rfl, .inl rfl⟩
  | some text =>
    refine ⟨a.malloc.2, rfl, ?_⟩
    rw [cloneName]
    cases hmalloc : a.malloc.1 with
    | true => exact .inl rfl
    | false => exact .inr ⟨rfl, hmalloc⟩

/-- The induction is on the nodes that are left to copy. -/
theorem cloneNodes_copies {heap : VmaHeap} {mgr : VmaOwner} {done : List Nat} {a : Allocators} {fuel : Nat}
    (hsorted : VmaSorted list) (h : Copying src (done ++ todo) done list heap mgr copies)
    (hfuel : todo.length + 1 ≤ fuel) :
    ∃ outcome, cloneNodes places src fuel (firstOf todo) heap mgr a = some outcome ∧
      (outcome.ok = true → ∃ copies', Copying src (done ++ todo) (done ++ todo) list outcome.heap
        outcome.mgr copies') ∧ ((∀ k, a.mallocOk k = true) → outcome.ok = true) := by
  obtain ⟨fuel, rfl⟩ : ∃ k, fuel = k + 1 := ⟨fuel - 1, by omega⟩
  induction todo generalizing done heap mgr copies a fuel with
  | nil =>
    refine ⟨⟨true, heap, mgr, a⟩, ?_, fun _ => ⟨copies, ?_⟩, fun _ => rfl⟩
    · rw [cloneNodes]
      exact if_pos rfl
    · rw [append_nil] at h ⊢
      exact h
  | cons p todo ih =>
    have hp : p ≠ 0 := fun hzero => h.source.proper (by simp [hzero])
    have hnonempty := (h.before hsorted).1
    rw [length_cons] at hfuel
    obtain ⟨fuel, rfl⟩ : ∃ k, fuel = k + 1 := ⟨fuel - 1, by omega⟩
    rw [firstOf_cons, cloneNodes]
    simp only [if_neg hp, if_neg (Nat.not_le.mpr hnonempty), h.not_overlaps hsorted]
    by_cases hmalloc : a.malloc.1 = true
    · obtain ⟨a', hsame, hname | ⟨hname, hrefused⟩⟩ := cloneName_cases (heap.vma p).vmName a.malloc.2
      rotate_left
      · simp only [hmalloc, hname]
        refine ⟨_, rfl, fun hok => absurd hok Bool.false_ne_true, fun hall => ?_⟩
        exact absurd (hrefused.symm.trans (hall _)) Bool.false_ne_true
      · obtain ⟨heap', mgr', hinsert, hnext, hcopying⟩ := @Copying.step _ _ places _ _ _ _ _ _ hsorted h
        simp only [hmalloc, hname, hinsert]
        have hshift : Copying src ((done ++ [p]) ++ todo) (done ++ [p]) list heap' mgr'
            (copies ++ [places.place heap.live]) := by
          rw [append_assoc, singleton_append]
          exact hcopying
        obtain ⟨outcome, hrun, hok, hall⟩ := @ih _ heap' mgr' (done ++ [p]) a' hshift fuel (by omega)
        refine ⟨outcome, ?_, ?_, fun hmallocs => hall ?_⟩
        · rw [hnext, h.source.around.2]
          exact hrun
        · rw [append_assoc, singleton_append] at hok
          exact hok
        · rw [hsame]
          exact hmallocs
    · simp only [Bool.not_eq_true] at hmalloc
      simp only [hmalloc]
      exact ⟨_, rfl, fun hok => absurd hok Bool.false_ne_true, fun hall =>
        absurd (hall a.mallocs) (by rw [show a.mallocOk a.mallocs = false from hmalloc]; simp)⟩

/-- A copy of nonempty areas in order ends; it has the same areas unless memory ran out. -/
theorem cloneManager_copies {heap : VmaHeap} (h : heap.Holds src nodes)
    (hsorted : VmaSorted (heap.areas nodes)) (a : Allocators) :
    ∃ outcome, heap.cloneManager places src a = some outcome ∧
      (outcome.ok = true → ∃ copies, Copying src nodes nodes (heap.areas nodes) outcome.heap
        outcome.mgr copies) ∧ ((∀ k, a.mallocOk k = true) → outcome.ok = true) := by
  have hempty : heap.Holds ⟨0, src.vmTotal, 0⟩ [] := by
    refine ⟨⟨?_, fun hne => absurd rfl hne, trivial⟩, nodup_nil, by simp, by simp⟩
    rfl
  have hinit : Copying src ([] ++ nodes) [] (heap.areas nodes) heap ⟨0, src.vmTotal, 0⟩ [] :=
    ⟨h, rfl, hempty, by simp, rfl, rfl, rfl⟩
  rw [cloneManager, h.head]
  exact cloneNodes_copies hsorted hinit (Nat.add_le_add_right h.length_le 1)

end Clone

end VmaHeap

/-- Removing a range of addresses takes away these addresses and no others, and a copy of the
areas of a process has the same areas. -/
theorem vmaUnmapRange_vmaManagerClone_exact (places : NodePlaces) {heap : VmaHeap} {mgr : VmaOwner}
    {nodes : List Nat} (h : heap.Holds mgr nodes) (hordered : VmaOrdered (heap.areas nodes))
    (hused : mgr.vmUsed = UInt64.ofNat (vmaBytes (heap.areas nodes))) (a : Allocators) :
    (∀ start stop, start < stop → ∃ outcome nodes',
      unmapRangeAt places start stop heap mgr a = some outcome ∧
        RemovalOf start stop (heap.areas nodes) mgr a outcome nodes') ∧
    ((∀ vma ∈ heap.areas nodes, vma.vmStart < vma.vmEnd) →
      ∃ outcome, heap.cloneManager places mgr a = some outcome ∧
        (outcome.ok = true → ∃ copies, outcome.heap.Holds outcome.mgr copies ∧
          outcome.heap.areas copies = heap.areas nodes ∧ outcome.mgr.vmUsed = mgr.vmUsed ∧
          outcome.mgr.vmTotal = mgr.vmTotal ∧ outcome.heap.Holds mgr nodes ∧
          outcome.heap.areas nodes = heap.areas nodes) ∧
        ((∀ k, a.mallocOk k = true) → outcome.ok = true)) := by
  refine ⟨fun start stop hrange => unmapRangeAt_exact hrange h hordered hused a, fun hnonempty => ?_⟩
  obtain ⟨outcome, hrun, hcopies, hall⟩ :=
    @VmaHeap.cloneManager_copies places _ _ _ h ⟨hnonempty, hordered.ordered⟩ a
  refine ⟨outcome, hrun, fun hok => ?_, hall⟩
  obtain ⟨copies, hcopying⟩ := hcopies hok
  refine ⟨copies, hcopying.copy, hcopying.copied.trans hcopying.areas, ?_, hcopying.total, hcopying.source,
    hcopying.areas⟩
  rw [hcopying.used, hcopying.areas, hused]

namespace VmaHeap

section Exit

variable {heap : VmaHeap} {mgr owner : VmaOwner} {nodes others : List Nat}

/-- Cleaning up one list frees its nodes and leaves every other list alone. -/
theorem exitCleanup_frees (h : heap.Holds mgr nodes) (hothers : heap.Holds owner others)
    (hapart : ∀ p ∈ nodes, p ∉ others) :
    (heap.exitCleanup mgr).1.Holds owner others ∧ (heap.exitCleanup mgr).1.vma = heap.vma ∧
      (heap.exitCleanup mgr).1.live = heap.live.diff nodes := by
  rw [exitCleanup, nodesOf_eq h]
  induction nodes generalizing heap mgr with
  | nil => exact ⟨hothers, rfl, rfl⟩
  | cons p rest ih =>
    obtain ⟨hp, hrest⟩ := forall_mem_cons.mp hapart
    have hlist : heap.Holds mgr ([] ++ p :: rest) := h
    obtain ⟨hprev, hnext⟩ := hlist.around
    -- No node is before the first one, so a link back of the list is all that changes in the heap.
    have hfirst : heap.setNext mgr (heap.vmPrev p) (heap.vmNext p) =
        (heap, { mgr with vmaList := heap.vmNext p }) := if_pos hprev
    have hkept : ((heap.remove mgr p).1.free p).Holds owner others := by
      simp only [VmaHeap.remove, hfirst]
      refine hothers.frame (fun q _ => congrFun (vmNext_setPrev _ _) q) (fun q hq => ?_) rfl
        fun q hq hlive => ?_
      · have hzero : q ≠ 0 := fun hzero => hothers.proper (hzero ▸ hq)
        refine (vmPrev_setPrev hzero).trans (update_of_ne ?_ _ _)
        rw [hnext]
        rintro rfl
        cases rest with
        | nil => exact hzero rfl
        | cons r rest => exact hrest r mem_cons_self hq
      · have hne : q ≠ p := fun heq => hp (heq ▸ hq)
        refine (mem_erase_of_ne hne).mpr ?_
        rw [live_setPrev]
        exact hlive
    obtain ⟨hholds, hvma, hlive⟩ := ih hlist.remove hkept hrest
    refine ⟨hholds, hvma.trans ?_, hlive.trans ?_⟩ <;> simp [VmaHeap.remove, VmaHeap.free]

theorem live_insert {heap' : VmaHeap} {mgr' : VmaOwner} {q : Nat}
    (h : heap.insert mgr q = some (heap', mgr')) : heap'.live = heap.live := by
  rw [VmaHeap.insert] at h
  split at h
  · cases h
  · cases h
    simp

/-- The nodes that are in use and the areas of one list. -/
structure Restored (src : VmaOwner) (nodes : List Nat) (list : List Vma) (live : List Nat)
    (heap : VmaHeap) : Prop where
  source : heap.Holds src nodes
  areas : heap.areas nodes = list
  live : heap.live.Perm live

variable {src : VmaOwner} {todo done copies live : List Nat} {list : List Vma}

theorem Holds.cleaned (hcopy : heap.Holds mgr copies) (h : heap.Holds src nodes)
    (hapart : ∀ p ∈ copies, p ∉ nodes) (hlive : heap.live.Perm (copies ++ live)) :
    Restored src nodes (heap.areas nodes) live (heap.exitCleanup mgr).1 := by
  obtain ⟨hholds, hvma, hfreed⟩ := exitCleanup_frees hcopy h hapart
  refine ⟨hholds, areas_congr fun p _ => congrFun hvma p, ?_⟩
  rw [hfreed, ← Multiset.coe_eq_coe, ← Multiset.coe_sub, Multiset.coe_eq_coe.mpr hlive,
    ← Multiset.coe_add, add_tsub_cancel_left]

/-- A node that is given back at once changes no list. -/
theorem Holds.discard {q : Nat} (h : heap.Holds mgr nodes) (hfresh : q ∉ heap.live) (vma : Vma) :
    ((heap.write q vma 0 0).free q).Holds mgr nodes ∧
      ((heap.write q vma 0 0).free q).areas nodes = heap.areas nodes := by
  have hne : ∀ p ∈ nodes, p ≠ q := fun p hp hsame => hfresh (hsame ▸ h.live p hp)
  refine ⟨(h.write hfresh vma 0 0).frame (fun _ _ => rfl) (fun _ _ => rfl) rfl fun p hp hlive => ?_,
    areas_congr fun p hp => update_of_ne (hne p hp) _ _⟩
  exact (mem_erase_of_ne (hne p hp)).mpr hlive

/-- The induction is on the nodes that are left to copy; every way out of the loop but the last
cleans up itself. -/
theorem cloneNodes_restored {places : NodePlaces} {a : Allocators} {fuel : Nat} {outcome : HeapOutcome}
    (hsorted : VmaSorted list) (h : Copying src (done ++ todo) done list heap mgr copies)
    (hlive : heap.live.Perm (copies ++ live))
    (hrun : cloneNodes places src fuel (firstOf todo) heap mgr a = some outcome) :
    Restored src (done ++ todo) list live
      (if outcome.ok then (outcome.heap.exitCleanup outcome.mgr).1 else outcome.heap) := by
  induction todo generalizing done heap mgr copies a fuel with
  | nil =>
    cases fuel with
    | zero => cases hrun
    | succ fuel =>
      cases hrun
      exact h.areas ▸ h.copy.cleaned h.source h.apart hlive
  | cons p todo ih =>
    have hp : p ≠ 0 := fun hzero => h.source.proper (by simp [hzero])
    have hnonempty := (h.before hsorted).1
    cases fuel with
    | zero => cases hrun
    | succ fuel =>
      rw [firstOf_cons, cloneNodes] at hrun
      simp only [if_neg hp, if_neg (Nat.not_le.mpr hnonempty), h.not_overlaps hsorted,
        Bool.false_eq_true, if_false] at hrun
      split_ifs at hrun with hmalloc
      · cases hrun
        exact h.areas ▸ h.copy.cleaned h.source h.apart hlive
      obtain ⟨a', -, hname | ⟨hname, -⟩⟩ := cloneName_cases (heap.vma p).vmName a.malloc.2
      rotate_left
      · simp only [hname] at hrun
        cases hrun
        obtain ⟨hsource, hareas⟩ := h.source.discard (places.fresh heap.live)
          { heap.vma p with vmName := none }
        rw [← h.areas, ← hareas]
        refine (h.copy.discard (places.fresh heap.live) _).1.cleaned hsource h.apart ?_
        rwa [free, write, erase_cons_head]
      · obtain ⟨heap', mgr', hinsert, hnext, hcopying⟩ := @Copying.step _ _ places _ _ _ _ _ _ hsorted h
        simp only [hname, hinsert, hnext, h.source.around.2] at hrun
        rw [← singleton_append, ← append_assoc] at hcopying ⊢
        have hmore : heap'.live.Perm ((copies ++ [places.place heap.live]) ++ live) := by
          rw [live_insert hinsert, append_assoc]
          exact (hlive.cons _).trans perm_middle.symm
        exact ih hcopying hmore hrun

end Exit

/-- **Fork and exit.** A copy of the areas of a process that is refused, or that is cleaned up when
its owner exits, leaves the areas of the parent as they were and no node in use that was not. -/
theorem exitCleanup_cloneManager (places : NodePlaces) {heap : VmaHeap} {src : VmaOwner} {nodes : List Nat}
    (h : heap.Holds src nodes) (hsorted : VmaSorted (heap.areas nodes)) (a : Allocators) :
    ∃ outcome, heap.cloneManager places src a = some outcome ∧
      Restored src nodes (heap.areas nodes) heap.live
        (if outcome.ok then (outcome.heap.exitCleanup outcome.mgr).1 else outcome.heap) := by
  obtain ⟨outcome, hrun, -⟩ := @cloneManager_copies places _ _ _ h hsorted a
  refine ⟨outcome, hrun, ?_⟩
  have hinit : Copying src ([] ++ nodes) [] (heap.areas nodes) heap ⟨0, src.vmTotal, 0⟩ [] :=
    ⟨h, rfl, ⟨⟨rfl, fun hne => absurd rfl hne, trivial⟩, nodup_nil, by simp, by simp⟩, by simp, rfl, rfl, rfl⟩
  rw [cloneManager, h.head] at hrun
  exact cloneNodes_restored hsorted hinit (Perm.refl _) hrun

end VmaHeap

def nextPlaces : NodePlaces where
  place live := live.sum + 1
  proper _ := Nat.succ_ne_zero _
  fresh live hmem := absurd (le_sum_of_mem hmem) (by omega)

def twoAreas : VmaHeap where
  vma p := if p = 1 then { vmStart := 0x1000, vmEnd := 0x4000, vmType := .file, vmOffset := 0x200 }
    else { vmStart := 0x5000, vmEnd := 0x6000 }
  vmNext p := if p = 1 then 2 else 0
  vmPrev p := if p = 2 then 1 else 0
  live := [1, 2]

theorem holds_twoAreas : twoAreas.Holds ⟨1, 0, 0x4000⟩ [1, 2] :=
  ⟨by simp [Data.Threaded, VmaHeap.nextOf, twoAreas], by decide, by decide, by simp [twoAreas]⟩

def plentiful : Allocators := ⟨fun _ => true, 0, fun _ _ => ⟨0, rfl⟩, 0, [], []⟩

theorem vmaUnmapRange_vmaManagerClone_twoAreas : ∃ outcome nodes',
      unmapRangeAt nextPlaces 0x2000 0x3000 twoAreas ⟨1, 0, 0x4000⟩ plentiful = some outcome ∧
        outcome.ok = true ∧
          RemovalOf 0x2000 0x3000 (twoAreas.areas [1, 2]) ⟨1, 0, 0x4000⟩ plentiful outcome nodes' := by
  obtain ⟨outcome, nodes', hrun, hremoval⟩ := (vmaUnmapRange_vmaManagerClone_exact nextPlaces holds_twoAreas
    ⟨by simp [VmaHeap.areas, twoAreas], by simp [VmaHeap.areas, twoAreas]⟩
    (by simp [VmaHeap.areas, twoAreas, Vma.length]) plentiful).1 0x2000 0x3000 (by decide)
  refine ⟨outcome, nodes', hrun, ?_, hremoval⟩
  by_contra hfailed
  exact absurd (hremoval.refused (by simpa using hfailed)).1 (by decide)

theorem exitCleanup_cloneManager_twoAreas : ∃ outcome,
    twoAreas.cloneManager nextPlaces ⟨1, 0, 0x4000⟩ plentiful = some outcome ∧
      VmaHeap.Restored ⟨1, 0, 0x4000⟩ [1, 2] (twoAreas.areas [1, 2]) [1, 2]
        (if outcome.ok then (outcome.heap.exitCleanup outcome.mgr).1 else outcome.heap) :=
  VmaHeap.exitCleanup_cloneManager nextPlaces holds_twoAreas
    ⟨by simp [VmaHeap.areas, twoAreas], by simp [VmaHeap.areas, twoAreas]⟩ plentiful

end OpenXJ380.Memory
