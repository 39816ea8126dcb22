/-
# The four-level page table

`kernel/memory/page.cpp` writes out each walk of the table level by level. The
levels differ only in the part of the address that selects an entry and in the
size of a large page, so a table is a type indexed by its height here and each
walk is a recursion on it.

An entry keeps its word and the table that word points to. The frames of the
tables themselves are never reused while the directory lives, so the pointer is
the table.
-/

import OpenXJ380.Memory.Layout

namespace OpenXJ380.Memory

/-- A table of the given height; a table of height zero is a mapped page. -/
def Table : Nat → Type
  | 0 => Unit
  | height + 1 => Fin 512 → UInt64 × Table height

/-- The empty table, as `page_table_clear` leaves it. -/
def Table.empty : (height : Nat) → Table height
  | 0 => ()
  | height + 1 => fun _ => (0, Table.empty height)

namespace Table

variable {height : Nat} (table : Table (height + 1))

section

variable (index : Fin 512)

def get : UInt64 × Table height := table index

variable (entry : UInt64 × Table height)

def set : Table (height + 1) := fun other => if other = index then entry else table other

@[simp]
theorem get_set_self : (table.set index entry).get index = entry := if_pos rfl

end

theorem get_set_of_ne {index other : Fin 512} (h : index ≠ other)
    (entry : UInt64 × Table height) : (table.set other entry).get index = table.get index :=
  if_neg h

end Table

abbrev PageDirectory := Table 4

/-- `(addr >> (12 + 9 * height)) & 0x1FF`. -/
def entryIndex (height addr : Nat) : Fin 512 :=
  ⟨addr / 2 ^ (12 + 9 * height) % 512, Nat.mod_lt _ (by decide)⟩

/-- The size of the page a large entry maps. The source uses 1 GiB at the top
level too. -/
def largeSize (height : Nat) : Nat := if height = 1 then 2 ^ 21 else 2 ^ 30

/-- The bits of a large entry that are its address. At the top level the source
clears the low bits only. -/
def largeMask (height : Nat) : UInt64 :=
  if height = 3 then ~~~(UInt64.ofNat (largeSize height) - 1)
  else pteAddrMask &&& ~~~(UInt64.ofNat (largeSize height) - 1)

/-- `translate_address`; zero where nothing is mapped. -/
def translate : (height : Nat) → Table (height + 1) → Nat → UInt64
  | 0, table, addr =>
    let value := (table.get (entryIndex 0 addr)).1
    if !hasFlag value ptePresent then 0
    else (value &&& pteAddrMask) + UInt64.ofNat (addr % pageSize)
  | height + 1, table, addr =>
    let (value, next) := table.get (entryIndex (height + 1) addr)
    if !hasFlag value ptePresent then 0
    else if hasFlag value pteHuge then
      (value &&& largeMask (height + 1)) + UInt64.ofNat (addr % largeSize (height + 1))
    else translate height next addr

/-- `page_table_update_flags`. A large entry keeps its address only, a page its
ownership bit as well. -/
def updateFlags (flags : UInt64) : (height : Nat) → Table (height + 1) → Nat → Table (height + 1)
  | 0, table, addr =>
    let index := entryIndex 0 addr
    let (value, page) := table.get index
    if !hasFlag value ptePresent then table
    else table.set index (value &&& pteAddrMask ||| value &&& pteFrameAllocated ||| flags, page)
  | height + 1, table, addr =>
    let index := entryIndex (height + 1) addr
    let (value, next) := table.get index
    if !hasFlag value ptePresent then table
    else if hasFlag value pteHuge then
      table.set index (value &&& pteAddrMask ||| flags, next)
    else table.set index (value, updateFlags flags height next addr)

/-- `unmap_page`; a frame the process owns goes back to the allocator. -/
def unmapPage : (height : Nat) → Table (height + 1) → Nat → Allocators →
    Table (height + 1) × Allocators
  | 0, table, addr, a =>
    let index := entryIndex 0 addr
    let (value, page) := table.get index
    if !hasFlag value ptePresent then (table, a)
    else
      (table.set index (0, page),
        if hasFlag value pteFrameAllocated then a.freeFrame (value &&& pteAddrMask) else a)
  | height + 1, table, addr, a =>
    let index := entryIndex (height + 1) addr
    let (value, next) := table.get index
    if !hasFlag value ptePresent then (table, a)
    else if hasFlag value pteHuge then (table, a)
    else
      let (next, a) := unmapPage height next addr a
      (table.set index (value, next), a)

/-- `page_map_to`, with `page_table_create` at each upper level: a zero entry gets
a new table, any other is followed whatever its bits. -/
def pageMapTo (frame flags : UInt64) : (height : Nat) → Table (height + 1) → Nat → Allocators →
    Table (height + 1) × Allocators
  | 0, table, addr, a =>
    let index := entryIndex 0 addr
    (table.set index (frame &&& pteAddrMask ||| flags, (table.get index).2), a)
  | height + 1, table, addr, a =>
    let index := entryIndex (height + 1) addr
    let (value, next) := table.get index
    let user := flagIf (hasFlag flags pteUser) pteUser
    if value = 0 then
      let (tableFrame, a) := a.allocFrames 1
      let (next, a) := pageMapTo frame flags height (Table.empty (height + 1)) addr a
      (table.set index (tableFrame ||| ptePresent ||| pteWriteable ||| user, next), a)
    else
      let (next, a) := pageMapTo frame flags height next addr a
      (table.set index (value ||| user, next), a)

/-- The word of the page at an address, where present tables lead to it. -/
def leaf : (height : Nat) → Table (height + 1) → Nat → Option UInt64
  | 0, table, addr => some (table.get (entryIndex 0 addr)).1
  | height + 1, table, addr =>
    let (value, next) := table.get (entryIndex (height + 1) addr)
    if !hasFlag value ptePresent then none
    else if hasFlag value pteHuge then none
    else leaf height next addr

/-- Two addresses select the same entry at every level. -/
def SamePage : Nat → Nat → Nat → Prop
  | 0, addr, other => entryIndex 0 addr = entryIndex 0 other
  | height + 1, addr, other =>
    entryIndex (height + 1) addr = entryIndex (height + 1) other ∧ SamePage height addr other

variable {height addr : Nat} {word : UInt64}

theorem leaf_succ_eq_some {table : Table (height + 2)} : leaf (height + 1) table addr = some word ↔
      hasFlag (table.get (entryIndex (height + 1) addr)).1 ptePresent = true ∧
      hasFlag (table.get (entryIndex (height + 1) addr)).1 pteHuge = false ∧
      leaf height (table.get (entryIndex (height + 1) addr)).2 addr = some word := by
  rw [leaf]
  cases hpresent : hasFlag (table.get (entryIndex (height + 1) addr)).1 ptePresent with
  | false => simp [hpresent]
  | true =>
    cases hhuge : hasFlag (table.get (entryIndex (height + 1) addr)).1 pteHuge with
    | false => simp [hpresent, hhuge]
    | true => simp [hhuge]

variable {table : Table (height + 1)} {flags : UInt64}

theorem leaf_set_of_ne {index : Fin 512} {entry : UInt64 × Table height}
    (hindex : entryIndex height addr ≠ index) :
    leaf height (table.set index entry) addr = leaf height table addr := by
  cases height <;> rw [leaf, leaf, Table.get_set_of_ne _ hindex]

section

variable (h : leaf height table addr = some word)
include h

theorem translate_of_leaf : translate height table addr =
      if hasFlag word ptePresent then (word &&& pteAddrMask) + UInt64.ofNat (addr % pageSize)
      else 0 := by
  induction height with
  | zero =>
    cases h
    rw [translate]
    cases hasFlag (table.get (entryIndex 0 addr)).1 ptePresent <;> rfl
  | succ height ih =>
    rcases leaf_succ_eq_some.mp h with ⟨hpresent, hhuge, hnext⟩
    rw [translate]
    simp only [hpresent, hhuge]
    exact ih hnext

theorem leaf_updateFlags_self (hword : hasFlag word ptePresent = true) :
    leaf height (updateFlags flags height table addr) addr =
      some (word &&& pteAddrMask ||| word &&& pteFrameAllocated ||| flags) := by
  induction height with
  | zero =>
    cases h
    rw [updateFlags]
    simp only [hword]
    rw [leaf]
    simp
  | succ height ih =>
    rcases leaf_succ_eq_some.mp h with ⟨hpresent, hhuge, hnext⟩
    rw [updateFlags]
    apply leaf_succ_eq_some.mpr
    simp [hpresent, hhuge, ih hnext]

end

theorem leaf_updateFlags_other {other : Nat} (h : leaf height table addr = some word)
    (hother : ¬SamePage height addr other) :
    leaf height (updateFlags flags height table other) addr = some word := by
  induction height with
  | zero =>
    rw [updateFlags]
    dsimp only
    split
    · exact h
    · exact (leaf_set_of_ne hother).trans h
  | succ height ih =>
    rcases leaf_succ_eq_some.mp h with ⟨hpresent, hhuge, hnext⟩
    by_cases hindex : entryIndex (height + 1) addr = entryIndex (height + 1) other
    · have hbelow : ¬SamePage height addr other := fun hsame => hother ⟨hindex, hsame⟩
      rw [updateFlags]
      simp only [← hindex]
      apply leaf_succ_eq_some.mpr
      simp [hpresent, hhuge, ih hnext hbelow]
    · rw [updateFlags]
      dsimp only
      split
      · exact h
      · split
        all_goals exact (leaf_set_of_ne hindex).trans h

variable (h : leaf height table addr = some word)
include h

theorem unmapPage_frees
    (hword : hasFlag word ptePresent = true) (howned : hasFlag word pteFrameAllocated = true)
    (a : Allocators) :
    (unmapPage height table addr a).2 = a.freeFrame (word &&& pteAddrMask) := by
  induction height with
  | zero =>
    cases h
    rw [unmapPage]
    simp [hword, howned]
  | succ height ih =>
    rcases leaf_succ_eq_some.mp h with ⟨hpresent, hhuge, hnext⟩
    rw [unmapPage]
    simp only [hpresent, hhuge]
    exact ih hnext

theorem unmapPage_of_not_present (hword : hasFlag word ptePresent = false) (a : Allocators) :
    (unmapPage height table addr a).2 = a := by
  induction height with
  | zero =>
    cases h
    rw [unmapPage]
    simp [hword]
  | succ height ih =>
    rcases leaf_succ_eq_some.mp h with ⟨hpresent, hhuge, hnext⟩
    rw [unmapPage]
    simp only [hpresent, hhuge]
    exact ih hnext

end OpenXJ380.Memory
