/-
# Virtual memory areas

`kernel/memory/vma.cpp` keeps the areas of a process in one linked list sorted
by address, together with a counter of the mapped bytes. The list is a list of
records here; a pointer into it is a `focus`.

The three operations that edit the list are insertion, splitting and the removal
of an address range. Each gets one lemma saying what it leaves behind: where
the new areas come from, what stays covered, and by how much the counter moves.
-/

import OpenXJ380.Data.Focus
import OpenXJ380.Memory.Layout

namespace OpenXJ380.Memory

open List Data

/-- The bits of `vm_flags`. -/
structure VmaFlags where
  read : Bool := false
  write : Bool := false
  exec : Bool := false
  shared : Bool := false
  anon : Bool := false
  shm : Bool := false
  deriving DecidableEq

inductive VmaType
  | anon | file | shm
  deriving DecidableEq

structure Vma where
  vmStart : Nat := 0
  vmEnd : Nat := 0
  vmFlags : VmaFlags := {}
  vmType : VmaType := .anon
  vmFd : Int := -1
  vmOffset : Int64 := 0
  shmId : Int := -1
  vmName : Option String := none
  deriving DecidableEq

structure VmaManager where
  vmaList : List Vma := []
  vmUsed : UInt64 := 0

namespace Vma

variable (vma : Vma)

def contains (addr : Nat) : Bool := decide (vma.vmStart ≤ addr) && decide (addr < vma.vmEnd)

def intersects (start stop : Nat) : Bool :=
  !(decide (stop ≤ vma.vmStart) || decide (vma.vmEnd ≤ start))

def length : Nat := vma.vmEnd - vma.vmStart

/-- A file mapping that loses its first bytes starts later in the file. -/
def advanceOffset (bytes : Nat) : Int64 :=
  if vma.vmType = .file then vma.vmOffset + Int64.ofNat bytes else vma.vmOffset

end Vma

section

variable (mgr : VmaManager)

/-- The area that contains an address, as a pointer into the list. -/
def vmaFind (addr : Nat) : Option (List Vma × Vma × List Vma) :=
  focus (Vma.contains · addr) mgr.vmaList

def vmaFindIntersection (start stop : Nat) : Option Vma :=
  mgr.vmaList.find? (Vma.intersects · start stop)

/-- Link a new area before the first one that starts no earlier. -/
def vmaLink (vma : Vma) : List Vma → List Vma
  | [] => [vma]
  | next :: rest =>
    if next.vmStart < vma.vmStart then next :: vmaLink vma rest else vma :: next :: rest

def vmaInsert (vma : Vma) : Option VmaManager :=
  if (vmaFindIntersection mgr vma.vmStart vma.vmEnd).isSome then none
  else some
    { vmaList := vmaLink vma mgr.vmaList
      vmUsed := mgr.vmUsed + UInt64.ofNat vma.length }

/-- Unlink the area under the pointer. -/
def vmaRemove (before : List Vma) (vma : Vma) (after : List Vma) :
    VmaManager where
  vmaList := before ++ after
  vmUsed := mgr.vmUsed - UInt64.ofNat vma.length

end

/-- Cut an area in two at an inner address. -/
def vmaSplit (vma : Vma) (addr : Nat) (a : Allocators) : Option (Vma × Vma) × Allocators :=
  if addr ≤ vma.vmStart || vma.vmEnd ≤ addr then (none, a)
  else if !a.malloc.1 then (none, a.malloc.2)
  else
    let (name, a) := a.malloc.2.strdup vma.vmName
    (some ({ vma with vmEnd := addr },
      { vma with
        vmStart := addr
        vmName := name
        vmOffset := vma.advanceOffset (addr - vma.vmStart) }), a)

/-- What the removal loop leaves: `ok` is false where a split ran out of memory. -/
structure UnmapOutcome where
  ok : Bool
  vmaList : List Vma
  vmUsed : UInt64
  allocators : Allocators

/-- The loop of `vma_unmap_range` over the rest of the list. -/
def vmaUnmapWalk (start stop : Nat) (a : Allocators) : List Vma → UInt64 → UnmapOutcome
  | [], used => ⟨true, [], used, a⟩
  | vma :: rest, used =>
    if vma.vmEnd ≤ start then
      let outcome := vmaUnmapWalk start stop a rest used
      { outcome with vmaList := vma :: outcome.vmaList }
    else if stop ≤ vma.vmStart then ⟨true, vma :: rest, used, a⟩
    else if start ≤ vma.vmStart ∧ vma.vmEnd ≤ stop then
      vmaUnmapWalk start stop a rest (used - UInt64.ofNat vma.length)
    else if vma.vmStart < start ∧ stop < vma.vmEnd then
      -- The hole is inside this area; its right part starts at `stop`, where
      -- the loop stops.
      match vmaSplit vma stop a with
      | (none, a) => ⟨false, vma :: rest, used, a⟩
      | (some (left, right), a) =>
        ⟨true, { left with vmEnd := start } :: right :: rest,
          used - UInt64.ofNat (stop - start), a⟩
    else if vma.vmStart < start then
      let outcome := vmaUnmapWalk start stop a rest (used - UInt64.ofNat (vma.vmEnd - start))
      { outcome with vmaList := { vma with vmEnd := start } :: outcome.vmaList }
    else
      ⟨true, { vma with
          vmStart := stop
          vmOffset := vma.advanceOffset (stop - vma.vmStart) } :: rest,
        used - UInt64.ofNat (stop - vma.vmStart), a⟩

def vmaUnmapRange (mgr : VmaManager) (start stop : Nat) (a : Allocators) :
    Bool × VmaManager × Allocators :=
  if stop ≤ start then (false, mgr, a)
  else
    let outcome := vmaUnmapWalk start stop a mgr.vmaList mgr.vmUsed
    (outcome.ok, ⟨outcome.vmaList, outcome.vmUsed⟩, outcome.allocators)

/-- Nonempty areas in address order, each ending before the next one starts. -/
structure VmaSorted (list : List Vma) : Prop where
  nonempty : ∀ vma ∈ list, vma.vmStart < vma.vmEnd
  ordered : list.Pairwise fun first second => first.vmEnd ≤ second.vmStart

/-- The number of mapped bytes. -/
def vmaBytes (list : List Vma) : Nat := (list.map Vma.length).sum

@[simp]
theorem vmaBytes_nil : vmaBytes [] = 0 := rfl

@[simp]
theorem vmaBytes_cons (vma : Vma) (list : List Vma) :
    vmaBytes (vma :: list) = vma.length + vmaBytes list := by
  simp [vmaBytes]

@[simp]
theorem vmaBytes_append (first second : List Vma) :
    vmaBytes (first ++ second) = vmaBytes first + vmaBytes second := by
  simp [vmaBytes]

/-- Two areas grant the same rights over the same kind of memory. -/
def Vma.Alike (first second : Vma) : Prop :=
  first.vmFlags = second.vmFlags ∧ first.vmType = second.vmType ∧
    first.vmFd = second.vmFd ∧ first.shmId = second.shmId

/-- A part of an area, with its attributes. -/
structure Vma.Part (part vma : Vma) : Prop where
  first : vma.vmStart ≤ part.vmStart
  last : part.vmEnd ≤ vma.vmEnd
  alike : part.Alike vma

theorem Vma.Alike.refl (vma : Vma) : vma.Alike vma := ⟨rfl, rfl, rfl, rfl⟩

theorem Vma.Part.refl (vma : Vma) : vma.Part vma := ⟨le_rfl, le_rfl, .refl vma⟩

variable {vma : Vma} {addr : Nat}

theorem Vma.Part.trimRight (h : addr ≤ vma.vmEnd) :
    Vma.Part { vma with vmEnd := addr } vma := ⟨le_rfl, h, rfl, rfl, rfl, rfl⟩

theorem Vma.Part.trimLeft (h : vma.vmStart ≤ addr) (offset : Int64) :
    Vma.Part { vma with vmStart := addr, vmOffset := offset } vma :=
  ⟨h, le_rfl, rfl, rfl, rfl, rfl⟩

theorem vmaSorted_nil : VmaSorted [] := ⟨by simp, List.Pairwise.nil⟩

theorem vmaSorted_cons {rest : List Vma} :
    VmaSorted (vma :: rest) ↔ vma.vmStart < vma.vmEnd ∧
      (∀ next ∈ rest, vma.vmEnd ≤ next.vmStart) ∧ VmaSorted rest := by
  refine ⟨fun h => ?_, fun h => ?_⟩
  · rcases pairwise_cons.mp h.ordered with ⟨hfirst, hrest⟩
    rcases forall_mem_cons.mp h.nonempty with ⟨hvma, hothers⟩
    exact ⟨hvma, hfirst, hothers, hrest⟩
  · rcases h with ⟨hvma, hfirst, hrest⟩
    exact ⟨forall_mem_cons.mpr ⟨hvma, hrest.nonempty⟩,
      pairwise_cons.mpr ⟨hfirst, hrest.ordered⟩⟩

theorem vmaSorted_append {first second : List Vma} :
    VmaSorted (first ++ second) ↔ VmaSorted first ∧ VmaSorted second ∧
      ∀ a ∈ first, ∀ b ∈ second, a.vmEnd ≤ b.vmStart := by
  refine ⟨fun h => ?_, fun h => ?_⟩
  · rcases pairwise_append.mp h.ordered with ⟨hfirst, hsecond, hcross⟩
    exact ⟨⟨fun a ha => h.nonempty a (by simp [ha]), hfirst⟩,
      ⟨fun b hb => h.nonempty b (by simp [hb]), hsecond⟩, hcross⟩
  · rcases h with ⟨hfirst, hsecond, hcross⟩
    refine ⟨fun a ha => ?_, pairwise_append.mpr ⟨hfirst.ordered, hsecond.ordered, hcross⟩⟩
    rcases mem_append.mp ha with ha | ha
    · exact hfirst.nonempty a ha
    · exact hsecond.nonempty a ha

variable {start stop : Nat} {mgr : VmaManager} {list : List Vma}

theorem Vma.intersects_eq_false :
    vma.intersects start stop = false ↔ stop ≤ vma.vmStart ∨ vma.vmEnd ≤ start := by
  simp only [Vma.intersects, Bool.not_eq_false', Bool.or_eq_true, decide_eq_true_eq]

theorem vmaFindIntersection_eq_none :
    vmaFindIntersection mgr start stop = none ↔
      ∀ vma ∈ mgr.vmaList, stop ≤ vma.vmStart ∨ vma.vmEnd ≤ start := by
  simp [vmaFindIntersection, ← Vma.intersects_eq_false]

theorem mem_vmaLink {other : Vma} :
    other ∈ vmaLink vma list ↔ other = vma ∨ other ∈ list := by
  induction list with
  | nil => simp [vmaLink]
  | cons next rest ih =>
    rw [vmaLink]
    split
    · simp only [mem_cons]
      tauto
    · simp

theorem vmaBytes_vmaLink (vma : Vma) (list : List Vma) :
    vmaBytes (vmaLink vma list) = vma.length + vmaBytes list := by
  induction list with
  | nil => rfl
  | cons next rest ih =>
    rw [vmaLink]
    split
    · rw [vmaBytes_cons, ih, vmaBytes_cons]
      omega
    · rfl

/-- An area that meets no other is linked in its place. -/
theorem VmaSorted.vmaLink (h : VmaSorted list) (hvma : vma.vmStart < vma.vmEnd)
    (hfree : ∀ other ∈ list, vma.vmEnd ≤ other.vmStart ∨ other.vmEnd ≤ vma.vmStart) :
    VmaSorted (vmaLink vma list) := by
  induction list with
  | nil => exact vmaSorted_cons.mpr ⟨hvma, by simp, vmaSorted_nil⟩
  | cons next rest ih =>
    rcases vmaSorted_cons.mp h with ⟨hnext, hbefore, hrest⟩
    have hfreeNext := hfree next (by simp)
    rw [Memory.vmaLink]
    split
    · refine vmaSorted_cons.mpr ⟨hnext, fun other ho => ?_,
        ih hrest fun other ho => hfree other (by simp [ho])⟩
      rcases mem_vmaLink.mp ho with rfl | ho
      · omega
      · exact hbefore other ho
    · refine vmaSorted_cons.mpr ⟨hvma, fun other ho => ?_, h⟩
      rcases mem_cons.mp ho with rfl | ho
      · omega
      · have := hbefore other ho
        omega

/-- An insertion finds the range free and links the area. -/
theorem vmaInsert_eq_some {mgr' : VmaManager} (h : vmaInsert mgr vma = some mgr') :
    (∀ other ∈ mgr.vmaList, vma.vmEnd ≤ other.vmStart ∨ other.vmEnd ≤ vma.vmStart) ∧
      mgr'.vmaList = vmaLink vma mgr.vmaList ∧
      mgr'.vmUsed = mgr.vmUsed + UInt64.ofNat vma.length := by
  unfold vmaInsert at h
  split at h
  · simp at h
  rename_i hfree
  cases h
  rw [Option.not_isSome_iff_eq_none, vmaFindIntersection_eq_none] at hfree
  exact ⟨hfree, rfl, rfl⟩

theorem vmaSplit_eq_some {left right : Vma} {a a' : Allocators}
    (h : vmaSplit vma addr a = (some (left, right), a')) :
    vma.vmStart < addr ∧ addr < vma.vmEnd ∧ left = { vma with vmEnd := addr } ∧
      right.vmStart = addr ∧ right.vmEnd = vma.vmEnd ∧ right.Alike vma := by
  unfold vmaSplit at h
  split at h
  · simp at h
  rename_i hinner
  simp only [Bool.or_eq_true, decide_eq_true_eq, not_or, not_le] at hinner
  split at h
  · simp at h
  · cases h
    exact ⟨hinner.1, hinner.2, rfl, rfl, rfl, rfl, rfl, rfl, rfl⟩

@[simp]
theorem freed_vmaSplit (vma : Vma) (addr : Nat) (a : Allocators) :
    (vmaSplit vma addr a).2.freed = a.freed := by
  rw [vmaSplit]
  split
  · rfl
  · split
    · rfl
    · exact Allocators.freed_strdup _ _

section Unmap

variable {start stop : Nat} {a : Allocators} {list : List Vma} {used : UInt64}

/-- Every area the removal leaves is a part of an area that was there. -/
theorem mem_vmaUnmapWalk {part : Vma} (h : part ∈ (vmaUnmapWalk start stop a list used).vmaList) :
    ∃ vma ∈ list, part.Part vma := by
  fun_induction vmaUnmapWalk start stop a list used with
  | case1 used => simp at h
  | case2 vma rest used hbefore outcome ih =>
    rcases mem_cons.mp h with rfl | h
    · exact ⟨part, by simp, .refl part⟩
    · rcases ih h with ⟨old, hold, hpart⟩
      exact ⟨old, by simp [hold], hpart⟩
  | case3 vma rest used => exact ⟨part, h, .refl part⟩
  | case4 vma rest used _ _ _ ih =>
    rcases ih h with ⟨old, hold, hpart⟩
    exact ⟨old, by simp [hold], hpart⟩
  | case5 vma rest used => exact ⟨part, h, .refl part⟩
  | case6 vma rest used _ _ _ hcross left right a' hsplit =>
    rcases vmaSplit_eq_some hsplit with ⟨-, -, rfl, hstart, hend, halike⟩
    have hleft : start ≤ vma.vmEnd := by omega
    rcases mem_cons.mp h with rfl | h
    · exact ⟨vma, by simp, Vma.Part.trimRight hleft⟩
    · rcases mem_cons.mp h with rfl | h
      · exact ⟨vma, by simp, by omega, by omega, halike⟩
      · exact ⟨part, by simp [h], .refl part⟩
  | case7 vma rest used hafter _ _ _ _ outcome ih =>
    rcases mem_cons.mp h with rfl | h
    · exact ⟨vma, by simp, .trimRight (by omega)⟩
    · rcases ih h with ⟨old, hold, hpart⟩
      exact ⟨old, by simp [hold], hpart⟩
  | case8 vma rest used _ hstop =>
    rcases mem_cons.mp h with rfl | h
    · exact ⟨vma, by simp, .trimLeft (by omega) _⟩
    · exact ⟨part, by simp [h], .refl part⟩

/-- A nonempty interval of an area that lies outside the range stays in one part
of that area. -/
theorem vmaUnmapWalk_keeps {vma : Vma} (hvma : vma ∈ list) {first last : Nat} (hne : first < last)
    (hlow : vma.vmStart ≤ first) (hhigh : last ≤ vma.vmEnd) (hout : last ≤ start ∨ stop ≤ first) :
    ∃ part ∈ (vmaUnmapWalk start stop a list used).vmaList,
      part.Part vma ∧ part.vmStart ≤ first ∧ last ≤ part.vmEnd := by
  fun_induction vmaUnmapWalk start stop a list used with
  | case1 used => simp at hvma
  | case2 head rest used _ outcome ih =>
    rcases mem_cons.mp hvma with rfl | hvma
    · exact ⟨vma, by simp, .refl vma, hlow, hhigh⟩
    · rcases ih hvma with ⟨part, hpart, hkept⟩
      exact ⟨part, by simp [outcome, hpart], hkept⟩
  | case3 head rest used => exact ⟨vma, hvma, .refl vma, hlow, hhigh⟩
  | case4 head rest used _ _ hinside ih =>
    rcases mem_cons.mp hvma with rfl | hvma
    · omega
    · exact ih hvma
  | case5 head rest used => exact ⟨vma, hvma, .refl vma, hlow, hhigh⟩
  | case6 head rest used _ _ _ hcross left right a' hsplit =>
    rcases vmaSplit_eq_some hsplit with ⟨_, _, rfl, hstart, hend, halike⟩
    rcases mem_cons.mp hvma with rfl | hvma
    · rcases hout with hout | hout
      · have hleft : start ≤ vma.vmEnd := by omega
        exact ⟨_, mem_cons_self, Vma.Part.trimRight hleft, hlow, hout⟩
      · exact ⟨right, by simp, ⟨by omega, by omega, halike⟩, by omega, by omega⟩
    · exact ⟨vma, by simp [hvma], .refl vma, hlow, hhigh⟩
  | case7 head rest used _ _ hinside hcross hleft outcome ih =>
    rcases mem_cons.mp hvma with rfl | hvma
    · -- The area ends inside the range, so an interval outside it lies before `start`.
      have hbefore : last ≤ start := by omega
      exact ⟨_, mem_cons_self, .trimRight (by omega), hlow, hbefore⟩
    · rcases ih hvma with ⟨part, hpart, hkept⟩
      exact ⟨part, by simp [outcome, hpart], hkept⟩
  | case8 head rest used _ hstop hinside hcross hleft =>
    rcases mem_cons.mp hvma with rfl | hvma
    · have hafter : stop ≤ first := by omega
      exact ⟨_, mem_cons_self, .trimLeft (by omega) _, hafter, hhigh⟩
    · exact ⟨vma, by simp [hvma], .refl vma, hlow, hhigh⟩

theorem vmaUnmapWalk_ordered {bound : Nat → Nat → Prop} (hlt : ∀ {m n}, m < n → bound m n)
    (hrange : start < stop) (used : UInt64)
    (hbound : ∀ vma ∈ list, bound vma.vmStart vma.vmEnd)
    (h : list.Pairwise fun first second => first.vmEnd ≤ second.vmStart) :
    (∀ vma ∈ (vmaUnmapWalk start stop a list used).vmaList, bound vma.vmStart vma.vmEnd) ∧
      (vmaUnmapWalk start stop a list used).vmaList.Pairwise
        fun first second => first.vmEnd ≤ second.vmStart := by
  fun_induction vmaUnmapWalk start stop a list used with
  | case1 used => exact ⟨hbound, h⟩
  | case2 vma rest used _ outcome ih =>
    rcases forall_mem_cons.mp hbound with ⟨hvma, hothers⟩
    rcases pairwise_cons.mp h with ⟨hbefore, hrest⟩
    rcases ih hothers hrest with ⟨hparts, hordered⟩
    refine ⟨forall_mem_cons.mpr ⟨hvma, hparts⟩,
      pairwise_cons.mpr ⟨fun next hnext => ?_, hordered⟩⟩
    rcases mem_vmaUnmapWalk hnext with ⟨old, hold, hpart⟩
    exact (hbefore old hold).trans hpart.first
  | case3 vma rest used => exact ⟨hbound, h⟩
  | case4 vma rest used _ _ _ ih => exact ih (forall_mem_cons.mp hbound).2 (pairwise_cons.mp h).2
  | case5 vma rest used => exact ⟨hbound, h⟩
  | case6 vma rest used _ _ _ hcross left right a' hsplit =>
    rcases vmaSplit_eq_some hsplit with ⟨-, -, rfl, hstart, hend, -⟩
    rcases forall_mem_cons.mp hbound with ⟨hvma, hothers⟩
    rcases pairwise_cons.mp h with ⟨hbefore, hrest⟩
    refine ⟨forall_mem_cons.mpr ⟨hlt hcross.1, forall_mem_cons.mpr
      ⟨hlt (by omega), hothers⟩⟩, pairwise_cons.mpr ⟨forall_mem_cons.mpr
        ⟨show start ≤ right.vmStart by omega, fun next hnext => ?_⟩,
        pairwise_cons.mpr ⟨fun next hnext => hend ▸ hbefore next hnext, hrest⟩⟩⟩
    have := hbefore next hnext
    show start ≤ next.vmStart
    omega
  | case7 vma rest used hend _ _ _ hleft outcome ih =>
    rcases forall_mem_cons.mp hbound with ⟨hvma, hothers⟩
    rcases pairwise_cons.mp h with ⟨hbefore, hrest⟩
    rcases ih hothers hrest with ⟨hparts, hordered⟩
    refine ⟨forall_mem_cons.mpr ⟨hlt hleft, hparts⟩,
      pairwise_cons.mpr ⟨fun next hnext => ?_, hordered⟩⟩
    rcases mem_vmaUnmapWalk hnext with ⟨old, hold, hpart⟩
    have := hbefore old hold
    have := hpart.first
    show start ≤ next.vmStart
    omega
  | case8 vma rest used _ hstop hinside hcross hleft =>
    rcases forall_mem_cons.mp hbound with ⟨hvma, hothers⟩
    exact ⟨forall_mem_cons.mpr ⟨hlt (show stop < vma.vmEnd by omega), hothers⟩,
      pairwise_cons.mpr (pairwise_cons.mp h)⟩

/-- What is left of a sorted list is sorted. -/
theorem VmaSorted.vmaUnmapWalk (h : VmaSorted list) (hrange : start < stop) (used : UInt64) :
    VmaSorted (vmaUnmapWalk start stop a list used).vmaList := by
  rcases vmaUnmapWalk_ordered (a := a) id hrange used h.nonempty h.ordered with
    ⟨hnonempty, hordered⟩
  exact ⟨hnonempty, hordered⟩

/-- The counter follows the mapped bytes. `others` are the bytes of the areas
the loop has already passed. -/
theorem vmaUnmapWalk_used (hrange : start < stop) (others : Nat)
    (hused : used = UInt64.ofNat (others + vmaBytes list)) :
    (vmaUnmapWalk start stop a list used).vmUsed =
      UInt64.ofNat (others + vmaBytes (vmaUnmapWalk start stop a list used).vmaList) := by
  fun_induction vmaUnmapWalk start stop a list used generalizing others with
  | case1 used => exact hused
  | case2 vma rest used _ outcome ih =>
    rw [vmaBytes_cons, ← Nat.add_assoc] at hused ⊢
    exact ih (others + vma.length) hused
  | case3 vma rest used => exact hused
  | case4 vma rest used _ _ _ ih =>
    apply ih others
    rw [hused, vmaBytes_cons, ← UInt64.ofNat_sub (by omega)]
    congr 1
    omega
  | case5 vma rest used => exact hused
  | case6 vma rest used _ _ _ hcross left right a' hsplit =>
    rcases vmaSplit_eq_some hsplit with ⟨-, -, rfl, hstart, hend, -⟩
    simp only [vmaBytes_cons, Vma.length] at hused ⊢
    rw [hused, ← UInt64.ofNat_sub (by omega)]
    congr 1
    omega
  | case7 vma rest used hend _ _ _ hleft outcome ih =>
    simp only [vmaBytes_cons, Vma.length, ← Nat.add_assoc] at hused ⊢
    apply ih (others + (start - vma.vmStart))
    rw [hused, ← UInt64.ofNat_sub (by omega)]
    congr 1
    omega
  | case8 vma rest used _ hstop hinside hcross hleft =>
    simp only [vmaBytes_cons, Vma.length] at hused ⊢
    rw [hused, ← UInt64.ofNat_sub (by omega)]
    congr 1
    omega

/-- A removal that runs out of memory leaves the list and the counter alone: only
an area around the whole range is split, and then no other area meets it. -/
theorem vmaUnmapWalk_failed (h : list.Pairwise fun first second => first.vmEnd ≤ second.vmStart)
    (hfail : (vmaUnmapWalk start stop a list used).ok = false) :
    (vmaUnmapWalk start stop a list used).vmaList = list ∧
      (vmaUnmapWalk start stop a list used).vmUsed = used := by
  -- Past an area that ends after `start`, no area starts before `start`.
  have hnever : ∀ (rest : List Vma) (used : UInt64), (∀ next ∈ rest, start ≤ next.vmStart) →
      (vmaUnmapWalk start stop a rest used).ok = true := by
    intro rest used hrest
    fun_induction vmaUnmapWalk start stop a rest used with
    | case1 | case3 | case6 | case8 => rfl
    | case2 vma rest used _ _ ih => exact ih fun next hn => hrest next (by simp [hn])
    | case4 vma rest used _ _ _ ih => exact ih fun next hn => hrest next (by simp [hn])
    | case5 vma rest used _ _ _ hcross =>
      have := hrest vma (by simp)
      omega
    | case7 vma rest used _ _ _ _ hleft =>
      have := hrest vma (by simp)
      omega
  fun_induction vmaUnmapWalk start stop a list used with
  | case1 | case3 | case6 | case8 => simp at hfail
  | case2 vma rest used _ outcome ih =>
    rcases ih (pairwise_cons.mp h).2 hfail with ⟨hlist, hused⟩
    exact ⟨congrArg (vma :: ·) hlist, hused⟩
  | case4 vma rest used hend _ _ _ =>
    have hok := hnever rest (used - UInt64.ofNat vma.length) fun next hn => by
      have := (pairwise_cons.mp h).1 next hn
      omega
    rw [hok] at hfail
    simp at hfail
  | case5 vma rest used => exact ⟨rfl, rfl⟩
  | case7 vma rest used hend _ _ _ _ outcome _ =>
    have hok := hnever rest (used - UInt64.ofNat (vma.vmEnd - start)) fun next hn => by
      have := (pairwise_cons.mp h).1 next hn
      omega
    rw [show outcome.ok = true from hok] at hfail
    simp at hfail

/-- A removal that finds no memory for a split changes nothing. -/
theorem vmaUnmapRange_failed {mgr mgr' : VmaManager} (h : VmaSorted mgr.vmaList)
    {a a' : Allocators} (hfail : vmaUnmapRange mgr start stop a = (false, mgr', a')) :
    mgr' = mgr := by
  rw [vmaUnmapRange] at hfail
  split at hfail
  · cases hfail
    rfl
  · rcases Prod.mk.inj hfail with ⟨hok, hrest⟩
    rcases vmaUnmapWalk_failed h.ordered hok with ⟨hlist, hused⟩
    rw [← (Prod.mk.inj hrest).1, hlist, hused]

@[simp]
theorem freed_vmaUnmapWalk (list : List Vma) (used : UInt64) :
    (vmaUnmapWalk start stop a list used).allocators.freed = a.freed := by
  fun_induction vmaUnmapWalk start stop a list used with
  | case1 | case3 | case8 => rfl
  | case2 _ _ _ _ _ ih => exact ih
  | case4 _ _ _ _ _ _ ih => exact ih
  | case5 vma _ _ _ _ _ _ a' hsplit =>
    rw [← freed_vmaSplit vma stop a, hsplit]
  | case6 vma _ _ _ _ _ _ _ _ a' hsplit =>
    rw [← freed_vmaSplit vma stop a, hsplit]
  | case7 _ _ _ _ _ _ _ _ _ ih => exact ih

@[simp]
theorem freed_vmaUnmapRange (mgr : VmaManager) :
    (vmaUnmapRange mgr start stop a).2.2.freed = a.freed := by
  rw [vmaUnmapRange]
  split
  · rfl
  · exact freed_vmaUnmapWalk _ _

end Unmap

end OpenXJ380.Memory
