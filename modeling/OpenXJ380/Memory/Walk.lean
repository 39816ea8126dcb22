/-
# What a walk finds after an edit

`presentWord` is the word that decides an access: the first entry on the way down
that is a page, ordinary or large. The lemmas say which flags a word has that an edit
of the table writes.
-/

import OpenXJ380.Memory.PageTable

namespace OpenXJ380.Memory

/-- The word of the present page at an address. -/
def presentWord : (height : Nat) → Table (height + 1) → Nat → Option UInt64
  | 0, table, addr =>
    let value := (table.get (entryIndex 0 addr)).1
    if hasFlag value ptePresent then some value else none
  | height + 1, table, addr =>
    let (value, next) := table.get (entryIndex (height + 1) addr)
    if !hasFlag value ptePresent then none
    else if hasFlag value pteHuge then some value
    else presentWord height next addr

theorem hasFlag_or (x y mask : UInt64) :
    hasFlag (x ||| y) mask = (hasFlag x mask || hasFlag y mask) := by
  simp only [hasFlag, word_or_and, bne, ← Bool.not_and, Bool.not_inj_iff]
  rw [Bool.eq_iff_iff]
  simp

theorem hasFlag_zero (mask : UInt64) : hasFlag 0 mask = false := by simp [hasFlag]

/-- The address field of an entry holds none of the bits outside it. -/
theorem hasFlag_and (word : UInt64) {field mask : UInt64} (h : field &&& mask = 0) :
    hasFlag (word &&& field) mask = false := by
  simp [hasFlag, UInt64.and_assoc, h]

section Walk

variable {height addr other : Nat}

theorem presentWord_of_absent (table : Table (height + 2))
    (h : hasFlag (table.get (entryIndex (height + 1) addr)).1 ptePresent = false) :
    presentWord (height + 1) table addr = none := by
  rw [presentWord]
  simp [h]

@[simp]
theorem get_empty (index : Fin 512) :
    (Table.empty (height + 1)).get index = (0, Table.empty height) := rfl

theorem presentWord_empty : presentWord height (Table.empty (height + 1)) addr = none := by
  cases height with
  | zero => simp [presentWord, hasFlag_zero]
  | succ height => exact presentWord_of_absent _ (by rw [get_empty, hasFlag_zero])

section Map

variable {frame flags : UInt64}

/-- The word of an upper entry that points to a new table. -/
theorem hasFlag_newTable (a : Allocators) (user : Bool) :
    hasFlag ((a.allocFrames 1).1 ||| ptePresent ||| pteWriteable ||| flagIf user pteUser)
        ptePresent = true ∧
      hasFlag ((a.allocFrames 1).1 ||| ptePresent ||| pteWriteable ||| flagIf user pteUser)
        pteHuge = false := by
  have haligned : hasFlag (a.allocFrames 1).1 pteHuge = false := by
    rw [← a.allocFrames_aligned 1]
    exact hasFlag_and _ (by decide)
  simp only [hasFlag_or, haligned]
  constructor
  · rw [show hasFlag ptePresent ptePresent = true by decide]
    simp
  · cases user <;> decide

theorem hasFlag_or_user (value : UInt64) (user : Bool) {mask : UInt64} (h : pteUser &&& mask = 0) :
    hasFlag (value ||| flagIf user pteUser) mask = hasFlag value mask := by
  rw [hasFlag_or]
  cases user <;> simp [flagIf, hasFlag, h]

end Map

/-- The word `page_table_update_flags` writes. -/
def repaintWord (word flags : UInt64) : UInt64 :=
  word &&& pteAddrMask ||| word &&& pteFrameAllocated ||| flags

end Walk

end OpenXJ380.Memory
