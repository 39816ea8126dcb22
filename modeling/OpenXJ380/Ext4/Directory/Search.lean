/-
# The search of a name

The loops over the records of a block are loops over the list of its records
(`src/driver/fs/ext4/directory_index.cpp`, `ns_find`). A search that succeeds has met the
name once; one that does not find a name that is there met an error before.
-/

import OpenXJ380.Ext4.Directory.Linear

namespace OpenXJ380.Ext4

open Data

def DirectoryEntry.Named (name : List UInt8) (entry : DirectoryEntry) : Prop :=
  entry.inode ≠ 0 ∧ entry.name = name

instance (name : List UInt8) (entry : DirectoryEntry) : Decidable (entry.Named name) :=
  inferInstanceAs (Decidable (_ ∧ _))

section

variable (previous : Nat)

/-- The record before the next one, after these records. -/
def lastRecord (list : List DirectoryEntry) : Nat :=
  (list.getLast?.map DirectoryEntry.offset).getD previous

variable (entry : DirectoryEntry) (rest : List DirectoryEntry)

theorem lastRecord_cons : lastRecord previous (entry :: rest) = lastRecord entry.offset rest := by
  cases rest <;> simp [lastRecord, List.getLast?_cons]

@[simp] theorem lastRecord_concat : lastRecord previous (rest ++ [entry]) = entry.offset := by
  simp [lastRecord]

end

/-- The search of a name in a list of records. -/
def locate (logical : Nat) (name : List UInt8) : List DirectoryEntry → Nat →
    Option DirectoryPosition → Except Errno (Option DirectoryPosition)
  | [], _, found => .ok found
  | entry :: rest, previous, found =>
    if entry.Named name then
      if found.isSome then .error .euclean
      else locate logical name rest entry.offset
        (some ⟨logical, entry.inode, entry.offset, previous, entry.type⟩)
    else locate logical name rest entry.offset found

section Locate

variable {logical : Nat} {name : List UInt8} {list : List DirectoryEntry} {previous : Nat}
  {found result : Option DirectoryPosition} {position : DirectoryPosition}

theorem locate_eq_some (h : locate logical name list previous found = .ok (some position)) :
    found = some position ∨ ∃ before entry after, list = before ++ entry :: after ∧
      entry.Named name ∧ position = ⟨logical, entry.inode, entry.offset,
        lastRecord previous before, entry.type⟩ := by
  induction list generalizing previous found with
  | nil => exact .inl (by simpa [locate] using h)
  | cons entry rest ih =>
    rw [locate] at h
    split at h
    next hnamed =>
      split at h
      · cases h
      rcases ih h with hfound | ⟨before, other, after, rfl, hother, hposition⟩
      · exact .inr ⟨[], entry, rest, rfl, hnamed, (Option.some.inj hfound).symm⟩
      · exact .inr ⟨entry :: before, other, after, rfl, hother, by
          rw [hposition, lastRecord_cons]⟩
    next hnamed =>
      rcases ih h with hfound | ⟨before, other, after, rfl, hother, hposition⟩
      · exact .inl hfound
      · exact .inr ⟨entry :: before, other, after, rfl, hother, by
          rw [hposition, lastRecord_cons]⟩

/-- A name that is there at most once is found if it is there. -/
theorem locate_ok (h : found.toList.length + list.countP (·.Named name) ≤ 1) :
    ∃ result, locate logical name list previous found = .ok result ∧
      result.toList.length = found.toList.length + list.countP (·.Named name) := by
  induction list generalizing previous found with
  | nil => exact ⟨found, rfl, by simp⟩
  | cons entry rest ih =>
    rw [locate]
    by_cases hnamed : entry.Named name
    · rw [List.countP_cons_of_pos (by simpa using hnamed)] at h ⊢
      cases found with
      | some position =>
        simp only [Option.toList_some, List.length_singleton] at h
        omega
      | none =>
        rw [if_pos hnamed, if_neg (by simp)]
        obtain ⟨result, hresult, hlength⟩ := @ih entry.offset
          (some ⟨logical, entry.inode, entry.offset, previous, entry.type⟩)
          (by simp only [Option.toList_some, List.length_singleton]; omega)
        rw [Option.toList_some, List.length_singleton] at hlength
        exact ⟨result, hresult, by omega⟩
    · rw [List.countP_cons_of_neg (by simpa using hnamed)] at h ⊢
      rw [if_neg hnamed]
      exact ih h

end Locate

namespace DirectoryFormat

variable {n : Nat} {f : DirectoryFormat} {access : DirectoryAccess n} {index : DirectoryIndex n}
  {block : Block n} {name : List UInt8} {logical : Nat} {found : Option DirectoryPosition}

theorem entryAt_named {offset : Nat} :
    (f.entryAt block offset).Named name ↔ block.get32 offset ≠ 0 ∧
      f.nameSize block offset = name.length ∧ block.slice (offset + 8) name.length = name := by
  refine and_congr Iff.rfl ?_
  constructor
  · intro hname
    have hlength : f.nameSize block offset = name.length := by
      rw [← hname]
      exact (Block.length_slice _ _ _).symm
    exact ⟨hlength, by rw [← hlength]; exact hname⟩
  · rintro ⟨hlength, hslice⟩
    rw [← hlength] at hslice
    exact hslice

theorem Tiles.findInBlock {list : List DirectoryEntry} {offset stop rounds previous : Nat}
    (h : f.Tiles block offset list stop) (hstop : stop = f.leafLimit n)
    (hrounds : list.length < rounds) :
    f.findInBlock block logical name rounds offset previous found =
      locate logical name list previous found := by
  induction h generalizing rounds previous found with
  | nil =>
    obtain ⟨rounds, rfl⟩ : ∃ r, rounds = r + 1 := ⟨rounds - 1, by omega⟩
    rw [DirectoryFormat.findInBlock, if_pos (by omega), locate]
  | @cons offset stop rest haccepts htail ih =>
    obtain ⟨rounds, rfl⟩ : ∃ r, rounds = r + 1 := ⟨rounds - 1, by omega⟩
    have hmin : 8 ≤ block.get16 (offset + 4) := haccepts.minimum
    have hle := htail.le
    have hrest : rest.length < rounds := by simpa using hrounds
    rw [DirectoryFormat.findInBlock, if_neg (by omega), locate]
    by_cases hnamed : (f.entryAt block offset).Named name
    · rw [if_pos (entryAt_named.mp hnamed), if_pos hnamed]
      split
      · rfl
      · exact ih hstop hrest
    · rw [if_neg (fun hraw => hnamed (entryAt_named.mpr hraw)), if_neg hnamed]
      exact ih hstop hrest

theorem nsReadBlock_eq_ok : f.nsReadBlock access logical block = .ok () ↔
      access.read logical = none ∧ f.directoryLeafCheck block = .ok () := by
  rw [nsReadBlock, bind_eq_ok]
  constructor
  · rintro ⟨value, hread, hcheck⟩
    exact ⟨attempt_eq_ok.mp hread, hcheck⟩
  · rintro ⟨hread, hcheck⟩
    exact ⟨(), attempt_eq_ok.mpr hread, hcheck⟩

theorem tiles_of_check (hn : 0 < n) (h : f.directoryLeafCheck block = .ok ()) :
    f.Tiles block 0 (f.entries block) (f.leafLimit n) := by
  obtain ⟨-, list, htiles⟩ := (directoryLeafCheck_iff hn).mp h
  rwa [htiles.entries hn]

theorem findInBlock_of_check (hn : 0 < n) (h : f.directoryLeafCheck block = .ok ()) :
    f.findInBlock block logical name n 0 kNoRecord found =
      locate logical name (f.entries block) kNoRecord found := by
  have htiles := tiles_of_check hn h
  have hlength := htiles.length_le
  have hlimit := @leafLimit_le f n
  exact htiles.findInBlock rfl (by omega)

/-- Where a record with a name is. -/
structure Located (f : DirectoryFormat) (blocks : List (Block n)) (first : Nat) (name : List UInt8)
    (position : DirectoryPosition) where
  before : List (Block n)
  block : Block n
  after : List (Block n)
  pre : List DirectoryEntry
  entry : DirectoryEntry
  post : List DirectoryEntry
  blocks_eq : blocks = before ++ block :: after
  check : f.directoryLeafCheck block = .ok ()
  entries_eq : f.entries block = pre ++ entry :: post
  named : entry.Named name
  position_eq : position = ⟨first + before.length, entry.inode, entry.offset,
    lastRecord kNoRecord pre, entry.type⟩

theorem findInBlocks_eq_some (hn : 0 < n) {blocks : List (Block n)} {position : DirectoryPosition}
    (h : f.findInBlocks access name blocks logical found = .ok (some position)) :
    found = some position ∨ Nonempty (f.Located blocks logical name position) := by
  induction blocks generalizing logical found with
  | nil => exact .inl (by simpa [findInBlocks] using h)
  | cons block rest ih =>
    rw [findInBlocks, bind_eq_ok] at h
    obtain ⟨_, hread, h⟩ := h
    obtain ⟨-, hcheck⟩ := nsReadBlock_eq_ok.mp hread
    obtain ⟨middle, hmiddle, hrest⟩ := bind_eq_ok.mp h
    rw [findInBlock_of_check hn hcheck] at hmiddle
    rcases ih hrest with rfl | ⟨⟨before, other, after, pre, entry, post, hblocks, hother, hentries,
        hnamed, hposition⟩⟩
    · rcases locate_eq_some hmiddle with hfound | ⟨pre, entry, post, hentries, hnamed, hposition⟩
      · exact .inl hfound
      · exact .inr ⟨⟨[], block, rest, pre, entry, post, rfl, hcheck, hentries, hnamed, hposition⟩⟩
    · refine .inr ⟨⟨block :: before, other, after, pre, entry, post, by rw [hblocks]; rfl, hother,
        hentries, hnamed, ?_⟩⟩
      rw [hposition, List.length_cons, Nat.add_right_comm, Nat.add_assoc]

theorem findInBlocks_ok (hn : 0 < n) {name : List UInt8} {blocks : List (Block n)} {logical : Nat}
    {found : Option DirectoryPosition} (hread : ∀ i, access.read i = none)
    (hcheck : ∀ block ∈ blocks, f.directoryLeafCheck block = .ok ())
    (honce : found.toList.length + (blocks.flatMap f.entries).countP (·.Named name) ≤ 1) :
    ∃ result, f.findInBlocks access name blocks logical found = .ok result ∧ result.toList.length =
        found.toList.length + (blocks.flatMap f.entries).countP (·.Named name) := by
  induction blocks generalizing logical found with
  | nil => exact ⟨found, rfl, by simp⟩
  | cons block rest ih =>
    have hblock := hcheck block (by simp)
    rw [List.flatMap_cons, List.countP_append] at honce ⊢
    obtain ⟨middle, hmiddle, hlength⟩ := @locate_ok logical name (f.entries block) kNoRecord found
      (by omega)
    obtain ⟨result, hresult, hsum⟩ := @ih (logical + 1) middle
      (fun other hmem => hcheck other (by simp [hmem])) (by omega)
    refine ⟨result, ?_, by omega⟩
    rw [findInBlocks, bind_eq_ok]
    refine ⟨(), nsReadBlock_eq_ok.mpr ⟨hread _, hblock⟩, ?_⟩
    rw [bind_eq_ok]
    exact ⟨middle, by rw [findInBlock_of_check hn hblock, hmiddle], hresult⟩

end DirectoryFormat

end OpenXJ380.Ext4
