/-
# What a removal means for each address

An area says of each of its addresses which rights, kind, file and shared memory it has and,
for a file, which byte of the file it shows. Removing a range takes exactly this away from the
addresses of the range. Areas may be empty here, as nothing in `vma_unmap_range` excludes them.
-/

import OpenXJ380.Memory.VmaLinks

namespace OpenXJ380.Memory

open Data

/-- What an area says of one of its addresses. -/
structure PageUse where
  vmFlags : VmaFlags
  vmType : VmaType
  vmFd : Int
  shmId : Int
  fileOffset : Option Int64
  deriving DecidableEq

namespace Vma

def use (vma : Vma) (addr : Nat) : PageUse where
  vmFlags := vma.vmFlags
  vmType := vma.vmType
  vmFd := vma.vmFd
  shmId := vma.shmId
  fileOffset := if vma.vmType = .file then some (vma.vmOffset + Int64.ofNat (addr - vma.vmStart)) else none

variable {vma : Vma} {addr : Nat}

theorem contains_iff : vma.contains addr = true ↔ vma.vmStart ≤ addr ∧ addr < vma.vmEnd := by
  simp [contains]

/-- A file mapping that starts later shows the same bytes. -/
theorem use_advance {part : Vma} (halike : part.Alike vma)
    (hoffset : part.vmOffset = vma.advanceOffset (part.vmStart - vma.vmStart))
    (hstart : vma.vmStart ≤ part.vmStart) (haddr : part.vmStart ≤ addr) :
    part.use addr = vma.use addr := by
  obtain ⟨hflags, htype, hfd, hshm⟩ := halike
  rw [use, use, hflags, htype, hfd, hshm, hoffset, advanceOffset]
  split
  next hfile =>
    rw [Int64.add_assoc, ← Int64.ofNat_add,
      show part.vmStart - vma.vmStart + (addr - part.vmStart) = addr - vma.vmStart by omega]
  · rfl

end Vma

/-- What the areas say of an address. -/
def useAt (list : List Vma) (addr : Nat) : Option PageUse :=
  (list.find? (Vma.contains · addr)).map (Vma.use · addr)

/-- Areas in address order, each ending before the next one starts; they may be empty. -/
structure VmaOrdered (list : List Vma) : Prop where
  forward : ∀ vma ∈ list, vma.vmStart ≤ vma.vmEnd
  ordered : list.Pairwise fun first second => first.vmEnd ≤ second.vmStart

section Removal

variable {start stop : Nat} {a : Allocators} {vma : Vma} {rest list : List Vma} {addr : Nat}

theorem vmaOrdered_cons : VmaOrdered (vma :: rest) ↔ vma.vmStart ≤ vma.vmEnd ∧
      (∀ next ∈ rest, vma.vmEnd ≤ next.vmStart) ∧ VmaOrdered rest := by
  constructor
  · intro h
    obtain ⟨hfirst, hrest⟩ := List.pairwise_cons.mp h.ordered
    exact ⟨h.forward vma (by simp), hfirst, fun next hn => h.forward next (by simp [hn]), hrest⟩
  · rintro ⟨hvma, hfirst, hrest⟩
    exact ⟨List.forall_mem_cons.mpr ⟨hvma, hrest.forward⟩,
      List.pairwise_cons.mpr ⟨hfirst, hrest.ordered⟩⟩

theorem useAt_cons (vma : Vma) (rest : List Vma) (addr : Nat) :
    useAt (vma :: rest) addr = if vma.contains addr then some (vma.use addr) else useAt rest addr := by
  rw [useAt, List.find?_cons]
  cases vma.contains addr <;> rfl

theorem useAt_cons_of_inside (h : vma.vmStart ≤ addr ∧ addr < vma.vmEnd) :
    useAt (vma :: rest) addr = some (vma.use addr) := by
  rw [useAt_cons, if_pos (Vma.contains_iff.mpr h)]

theorem useAt_cons_of_outside (h : ¬(vma.vmStart ≤ addr ∧ addr < vma.vmEnd)) :
    useAt (vma :: rest) addr = useAt rest addr := by
  rw [useAt_cons, if_neg fun hcontains => h (Vma.contains_iff.mp hcontains)]

theorem useAt_eq_none (h : ∀ vma ∈ list, addr < vma.vmStart) : useAt list addr = none := by
  rw [useAt, List.find?_eq_none.mpr fun vma hvma hcontains => ?_]
  · rfl
  · have := h vma hvma
    have := Vma.contains_iff.mp hcontains
    omega

/-- The right part of a split area shows the same bytes. -/
theorem vmaSplit_use {left right : Vma} {a' : Allocators} {cut : Nat}
    (h : vmaSplit vma cut a = (some (left, right), a')) (haddr : cut ≤ addr) :
    right.use addr = vma.use addr := by
  rw [vmaSplit] at h
  split at h
  · cases h
  next hinner =>
    simp only [Bool.or_eq_true, decide_eq_true_eq, not_or, Nat.not_le] at hinner
    split at h
    · cases h
    · obtain ⟨hparts, -⟩ := Prod.mk.inj h
      obtain ⟨-, rfl⟩ := Prod.mk.inj (Option.some.inj hparts)
      exact Vma.use_advance ⟨rfl, rfl, rfl, rfl⟩ rfl (Nat.le_of_lt hinner.1) haddr

variable {used : UInt64}

/-- A removal that succeeds takes away the addresses of the range and no others. -/
theorem useAt_vmaUnmapWalk (hrange : start < stop) (h : VmaOrdered list)
    (hok : (vmaUnmapWalk start stop a list used).ok = true) (addr : Nat) :
    useAt (vmaUnmapWalk start stop a list used).vmaList addr =
      if start ≤ addr ∧ addr < stop then none else useAt list addr := by
  fun_induction vmaUnmapWalk start stop a list used with
  | case1 used => simp [useAt]
  | case2 vma rest used hbefore outcome ih =>
    obtain ⟨-, -, hrest⟩ := vmaOrdered_cons.mp h
    by_cases hinside : vma.vmStart ≤ addr ∧ addr < vma.vmEnd
    · rw [useAt_cons_of_inside hinside, useAt_cons_of_inside hinside, if_neg (by omega)]
    · rw [useAt_cons_of_outside hinside, useAt_cons_of_outside hinside]
      exact ih hrest hok
  | case3 vma rest used _ hbehind =>
    obtain ⟨hforward, hnext, -⟩ := vmaOrdered_cons.mp h
    split
    next haddr =>
      refine useAt_eq_none (List.forall_mem_cons.mpr ⟨by omega, fun next hn => ?_⟩)
      have := hnext next hn
      omega
    · rfl
  | case4 vma rest used _ _ hinside ih =>
    obtain ⟨-, -, hrest⟩ := vmaOrdered_cons.mp h
    rw [ih hrest hok]
    split
    · rfl
    · rw [useAt_cons_of_outside (by omega)]
  | case5 vma rest used => cases hok
  | case6 vma rest used _ _ _ hcross left right a' hsplit =>
    obtain ⟨-, -, rfl, hstart, hend, -⟩ := vmaSplit_eq_some hsplit
    obtain ⟨-, hnext, -⟩ := vmaOrdered_cons.mp h
    by_cases hleft : vma.vmStart ≤ addr ∧ addr < start
    · rw [useAt_cons_of_inside hleft, if_neg (by omega), useAt_cons_of_inside (by omega)]
      rfl
    rw [useAt_cons_of_outside hleft]
    by_cases hright : right.vmStart ≤ addr ∧ addr < right.vmEnd
    · rw [useAt_cons_of_inside hright, if_neg (by omega), useAt_cons_of_inside (by omega),
        vmaSplit_use hsplit (by omega)]
    rw [useAt_cons_of_outside hright]
    split
    next haddr =>
      refine useAt_eq_none fun next hn => ?_
      have := hnext next hn
      omega
    · rw [useAt_cons_of_outside (by omega)]
  | case7 vma rest used hend _ _ _ hstart outcome ih =>
    obtain ⟨-, -, hrest⟩ := vmaOrdered_cons.mp h
    by_cases hleft : vma.vmStart ≤ addr ∧ addr < start
    · rw [useAt_cons_of_inside hleft, if_neg (by omega), useAt_cons_of_inside (by omega)]
      rfl
    · rw [useAt_cons_of_outside hleft]
      refine (ih hrest hok).trans ?_
      split
      · rfl
      · rw [useAt_cons_of_outside (by omega)]
  | case8 vma rest used _ hbehind hinside hcross hleft =>
    obtain ⟨-, hnext, -⟩ := vmaOrdered_cons.mp h
    by_cases hright : stop ≤ addr ∧ addr < vma.vmEnd
    · rw [useAt_cons_of_inside hright, if_neg (by omega), useAt_cons_of_inside (by omega)]
      exact congrArg some (Vma.use_advance ⟨rfl, rfl, rfl, rfl⟩ rfl
        (show vma.vmStart ≤ stop by omega) hright.1)
    rw [useAt_cons_of_outside hright]
    split
    next haddr =>
      refine useAt_eq_none fun next hn => ?_
      have := hnext next hn
      omega
    · rw [useAt_cons_of_outside (by omega)]

/-- A removal fails only at an area around the whole range, where the new node is refused. -/
theorem vmaUnmapWalk_refused (hok : (vmaUnmapWalk start stop a list used).ok = false) :
    a.malloc.1 = false ∧ ∃ vma ∈ list, vma.vmStart < start ∧ stop < vma.vmEnd := by
  fun_induction vmaUnmapWalk start stop a list used with
  | case1 | case3 | case6 | case8 => cases hok
  | case2 _ _ _ _ _ ih | case4 _ _ _ _ _ _ ih | case7 _ _ _ _ _ _ _ _ _ ih =>
    obtain ⟨hrefused, vma, hvma, hcross⟩ := ih hok
    exact ⟨hrefused, vma, List.mem_cons_of_mem _ hvma, hcross⟩
  | case5 vma rest used hend hstart _ hcross a' hsplit =>
    refine ⟨?_, vma, List.mem_cons_self, hcross⟩
    rw [vmaSplit, if_neg (by simp; omega)] at hsplit
    by_contra hgranted
    rw [if_neg (by simpa using hgranted)] at hsplit
    cases hsplit

theorem VmaOrdered.vmaUnmapWalk (hrange : start < stop) (h : VmaOrdered list) :
    VmaOrdered (vmaUnmapWalk start stop a list used).vmaList := by
  obtain ⟨hforward, hordered⟩ :=
    vmaUnmapWalk_ordered (a := a) Nat.le_of_lt hrange used h.forward h.ordered
  exact ⟨hforward, hordered⟩

end Removal

variable {heap : VmaHeap} {mgr : VmaOwner} {nodes : List Nat}

theorem VmaHeap.Holds.length_le (h : heap.Holds mgr nodes) : nodes.length ≤ heap.live.length :=
  (List.subperm_of_subset h.distinct h.live).length_le

/-- What a removal leaves of a well-formed list: it succeeds and takes away exactly the range, or the
node for the right part of an area around the range is refused and the areas stay as they are. -/
structure RemovalOf (start stop : Nat) (list : List Vma) (mgr : VmaOwner) (a : Allocators)
    (outcome : HeapOutcome) (nodes : List Nat) : Prop where
  linked : outcome.heap.Holds outcome.mgr nodes
  sorted : VmaOrdered (outcome.heap.areas nodes)
  used : outcome.mgr.vmUsed = UInt64.ofNat (vmaBytes (outcome.heap.areas nodes))
  removed : outcome.ok = true → ∀ addr, start ≤ addr → addr < stop →
    useAt (outcome.heap.areas nodes) addr = none
  kept : outcome.ok = true → ∀ addr, ¬(start ≤ addr ∧ addr < stop) →
    useAt (outcome.heap.areas nodes) addr = useAt list addr
  failed : outcome.ok = false → outcome.heap.areas nodes = list ∧ outcome.mgr.vmUsed = mgr.vmUsed
  refused : outcome.ok = false → a.malloc.1 = false ∧ ∃ vma ∈ list, vma.vmStart < start ∧ stop < vma.vmEnd

theorem unmapRangeAt_exact {places : NodePlaces} {start stop : Nat} (hrange : start < stop)
    (h : heap.Holds mgr nodes) (hordered : VmaOrdered (heap.areas nodes))
    (hused : mgr.vmUsed = UInt64.ofNat (vmaBytes (heap.areas nodes))) (a : Allocators) :
    ∃ outcome nodes', unmapRangeAt places start stop heap mgr a = some outcome ∧
      RemovalOf start stop (heap.areas nodes) mgr a outcome nodes' := by
  obtain ⟨heap', mgr', nodes', hrun, hfollows⟩ := @VmaHeap.unmapNodes_follows places start stop
    heap mgr [] nodes a _ h (Nat.add_le_add_right h.length_le 2)
  have hholds : heap'.Holds mgr' nodes' := hfollows.holds
  have hsame : unmapRangeAt places start stop heap mgr a =
      unmapNodes places start stop (heap.live.length + 2) (VmaHeap.firstOf nodes) heap mgr a := by
    rw [unmapRangeAt, if_neg (by omega), h.head]
  refine ⟨_, nodes', hsame.trans hrun, hholds, ?_, ?_, fun hok addr hlow hhigh => ?_, fun hok addr hout => ?_,
    fun hok => ?_, vmaUnmapWalk_refused⟩
  · rw [hfollows.list]
    exact hordered.vmaUnmapWalk hrange
  · rw [hfollows.list, hfollows.used]
    have hinit : mgr.vmUsed = UInt64.ofNat (0 + vmaBytes (heap.areas nodes)) := by
      rw [Nat.zero_add, hused]
    have hbytes := vmaUnmapWalk_used (a := a) hrange 0 hinit
    rwa [Nat.zero_add] at hbytes
  · rw [hfollows.list, useAt_vmaUnmapWalk hrange hordered hok, if_pos ⟨hlow, hhigh⟩]
  · rw [hfollows.list, useAt_vmaUnmapWalk hrange hordered hok, if_neg hout]
  · rw [hfollows.list, hfollows.used]
    exact vmaUnmapWalk_failed hordered.ordered hok

end OpenXJ380.Memory
