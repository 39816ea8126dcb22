/-
# Directory blocks

A directory block is filled with records of variable length, each of which leads to the
next (`src/driver/fs/ext4/directory_index.cpp`). A record without an inode is unused. With
metadata checksums the last twelve bytes of the block are a tail that seals the records.

`Tiles` says that a stretch of a block is filled with a list of records; the check of a
block succeeds exactly if all of it is. Every edit of a block changes this list in one place.
-/

import OpenXJ380.Data.Words
import OpenXJ380.Ext4.Format
import OpenXJ380.Kernel.Errno

namespace OpenXJ380.Ext4

open Data
open Block (Agree agree_set16 agree_set32 agree_setByte agree_splice agree_zero byte_setByte
  get16_set16 get32_set32 length_slice)

/-- What the blocks of a directory depend on. There is no inode zero. -/
structure DirectoryFormat where
  inode : Nat
  positive : 0 < inode
  inodeCount : Nat
  inodeSeed : UInt32
  metadataChecksum : Bool
  fileType : Bool
  deriving DecidableEq

structure DirectoryEntry where
  offset : Nat
  record : Nat
  inode : Nat
  name : List UInt8
  type : UInt8
  deriving DecidableEq

/-- The record that a name of this length needs. -/
def recordSize (length : Nat) : Nat := (8 + length + 3) / 4 * 4 % 65536

theorem recordSize_bounds {length : Nat} (h : length ≤ 255) :
    8 + length ≤ recordSize length ∧ recordSize length ≤ 8 + length + 3 ∧
      recordSize length % 4 = 0 := by
  rw [recordSize]
  omega

namespace DirectoryFormat

variable {n : Nat} (f : DirectoryFormat)

def leafLimit (size : Nat) : Nat := size - if f.metadataChecksum then 12 else 0

def nameSize (block : Block n) (offset : Nat) : Nat :=
  if f.fileType then (block.byte (offset + 6)).toNat else block.get16 (offset + 6)

def entryAt (block : Block n) (offset : Nat) : DirectoryEntry where
  offset := offset
  record := block.get16 (offset + 4)
  inode := block.get32 offset
  name := block.slice (offset + 8) (f.nameSize block offset)
  type := if f.fileType then block.byte (offset + 7) else 0

/-- Bytes that a name cannot have: the end of a string and the separator of a path. -/
def nameByte (byte : UInt8) : Bool := byte != 0 && byte != 0x2f

def checkRecords (block : Block n) : Nat → Nat → Except Errno Unit
  | 0, _ => .error .euclean
  | rounds + 1, offset =>
    let limit := f.leafLimit n
    let length := block.get16 (offset + 4)
    let name := f.nameSize block offset
    if limit ≤ offset then .ok ()
    else if limit - offset < 8 then .error .euclean
    else if length < 8 ∨ length % 4 ≠ 0 ∨ limit - offset < length ∨ 255 < name ∨
        length - 8 < name then .error .euclean
    else if block.get32 offset ≠ 0 ∧ (f.inodeCount < block.get32 offset ∨ name = 0 ∨
        (f.fileType = true ∧ 7 < block.byte (offset + 7)) ∨
        (block.slice (offset + 8) name).all nameByte = false) then .error .euclean
    else checkRecords block rounds (offset + length)

section

variable (block : Block n)

def checkTail : Bool :=
  let tail := f.leafLimit n
  !f.metadataChecksum ||
    (block.get32 tail == 0 && block.get16 (tail + 4) == 12 && block.byte (tail + 6) == 0 &&
      block.byte (tail + 7) == 0xde &&
      (crc32c f.inodeSeed (block.slice 0 tail)).toNat == block.get32 (tail + 8))

def directoryLeafCheck : Except Errno Unit :=
  if f.checkTail block then f.checkRecords block n 0 else .error .euclean

def directoryLeafSeal : Block n :=
  if f.metadataChecksum then
    let tail := f.leafLimit n
    let block := ((block.zero tail 12).set16 (tail + 4) 12).setByte (tail + 7) 0xde
    block.set32 (tail + 8) (crc32c f.inodeSeed (block.slice 0 tail)).toNat
  else block

end

/-- The records from an offset on. -/
def entriesFrom (block : Block n) : Nat → Nat → List DirectoryEntry
  | 0, _ => []
  | rounds + 1, offset =>
    if f.leafLimit n ≤ offset then []
    else f.entryAt block offset :: entriesFrom block rounds (offset + block.get16 (offset + 4))

def entries (block : Block n) : List DirectoryEntry := f.entriesFrom block n 0

/-- A record that the check of a block accepts. -/
structure Accepts (limit : Nat) (entry : DirectoryEntry) : Prop where
  minimum : 8 ≤ entry.record
  aligned : entry.record % 4 = 0
  inside : entry.offset + entry.record ≤ limit
  short : entry.name.length ≤ 255
  fits : 8 + entry.name.length ≤ entry.record
  live : entry.inode ≠ 0 → entry.inode ≤ f.inodeCount ∧ entry.name ≠ [] ∧
    (f.fileType = true → entry.type ≤ 7) ∧ entry.name.all nameByte = true

/-- The records from one offset to another. -/
inductive Tiles (block : Block n) : Nat → List DirectoryEntry → Nat → Prop
  | nil (offset : Nat) : Tiles block offset [] offset
  | cons {offset stop : Nat} {rest : List DirectoryEntry} :
      f.Accepts (f.leafLimit n) (f.entryAt block offset) →
      Tiles block (offset + block.get16 (offset + 4)) rest stop →
      Tiles block offset (f.entryAt block offset :: rest) stop

variable {f}

section Segments

variable {block : Block n} {start middle stop : Nat} {first second : List DirectoryEntry}

section

variable (h : f.Tiles block start first stop)
include h

theorem Tiles.le : start ≤ stop := by
  induction h with
  | nil => exact le_rfl
  | cons _ _ ih => omega

theorem Tiles.length_le : 8 * first.length ≤ stop - start := by
  induction h with
  | nil => simp
  | cons haccepts htail ih =>
    have hminimum : 8 ≤ block.get16 (_ + 4) := haccepts.minimum
    have := htail.le
    rw [List.length_cons]
    omega

end

theorem Tiles.append (hfirst : f.Tiles block start first middle)
    (hsecond : f.Tiles block middle second stop) : f.Tiles block start (first ++ second) stop := by
  induction hfirst with
  | nil => exact hsecond
  | cons haccepts _ ih => exact .cons haccepts (ih hsecond)

theorem Tiles.split (h : f.Tiles block start (first ++ second) stop) :
    ∃ middle, f.Tiles block start first middle ∧ f.Tiles block middle second stop := by
  induction first generalizing start with
  | nil => exact ⟨start, .nil start, h⟩
  | cons entry first ih =>
    cases h with
    | cons haccepts htail =>
      obtain ⟨middle, hfirst, hsecond⟩ := ih htail
      exact ⟨middle, .cons haccepts hfirst, hsecond⟩

variable {entry : DirectoryEntry} {offset : Nat} {other : Block n}

theorem Tiles.uncons (h : f.Tiles block start (entry :: second) stop) :
    entry = f.entryAt block start ∧ f.Accepts (f.leafLimit n) entry ∧
      f.Tiles block (start + entry.record) second stop := by
  cases h with
  | cons haccepts htail => exact ⟨rfl, haccepts, htail⟩

theorem Tiles.exists_cons (h : f.Tiles block start first stop) (hlt : start < stop) :
    ∃ rest, first = f.entryAt block start :: rest ∧
      f.Tiles block (start + (f.entryAt block start).record) rest stop := by
  cases h with
  | nil => exact absurd hlt (Nat.lt_irrefl _)
  | cons haccepts htail => exact ⟨_, rfl, htail⟩

/-- A record of a block, with what lies before and behind it. -/
theorem Tiles.around (h : f.Tiles block start (first ++ entry :: second) stop) :
    f.Tiles block start first entry.offset ∧ entry = f.entryAt block entry.offset ∧
      f.Accepts (f.leafLimit n) entry ∧
      f.Tiles block (entry.offset + entry.record) second stop := by
  obtain ⟨middle, hfirst, hsecond⟩ := h.split
  obtain ⟨hentry, haccepts, htail⟩ := hsecond.uncons
  have hoffset : entry.offset = middle := by rw [hentry]; rfl
  rw [hoffset]
  exact ⟨hfirst, hentry, haccepts, htail⟩

theorem Tiles.single (h : f.Accepts (f.leafLimit n) (f.entryAt block offset)) :
    f.Tiles block offset [f.entryAt block offset] (offset + block.get16 (offset + 4)) :=
  .cons h (.nil _)

/-- A record is read from its own bytes. -/
theorem entryAt_congr {length : Nat} (hfits : 8 + (f.entryAt block offset).name.length ≤ length)
    (h : Agree other block offset length) :
    f.entryAt other offset = f.entryAt block offset := by
  have hname : (f.entryAt block offset).name.length = f.nameSize block offset := length_slice _ _ _
  have h16 : ∀ i, i + 2 ≤ 8 → other.get16 (offset + i) = block.get16 (offset + i) :=
    fun i hi => (h.mono (by omega) (by omega)).get16
  have hbyte : ∀ i < 8, other.byte (offset + i) = block.byte (offset + i) :=
    fun i hi => h _ (by omega) (by omega)
  have hsize : f.nameSize other offset = f.nameSize block offset := by
    rw [nameSize, nameSize, hbyte 6 (by omega), h16 6 (by omega)]
  have hinode : other.get32 offset = block.get32 offset := (h.mono (by omega) (by omega)).get32
  have hslice : other.slice (offset + 8) (f.nameSize block offset) =
      block.slice (offset + 8) (f.nameSize block offset) := (h.mono (by omega) (by omega)).slice
  rw [entryAt, entryAt, hsize, hslice, hinode, h16 4 (by omega), hbyte 7 (by omega)]

/-- Records depend on the bytes of their range alone. -/
theorem Tiles.congr (h : f.Tiles block start first stop)
    (hsame : Agree other block start (stop - start)) : f.Tiles other start first stop := by
  induction h with
  | nil => exact .nil _
  | @cons offset stop rest haccepts htail ih =>
    have hle := htail.le
    have hrecord : (f.entryAt block offset).record = block.get16 (offset + 4) := rfl
    have hentry : f.entryAt other offset = f.entryAt block offset :=
      entryAt_congr haccepts.fits (hsame.mono le_rfl (by omega))
    have hnext : other.get16 (offset + 4) = block.get16 (offset + 4) :=
      congrArg DirectoryEntry.record hentry
    rw [← hentry]
    refine .cons (hentry ▸ haccepts) ?_
    rw [hnext]
    exact ih (hsame.mono (by omega) (by omega))

end Segments

section Check

variable {block : Block n} {rounds offset : Nat} {list : List DirectoryEntry}

/-- The records of a block that passes the check fill it without a gap. -/
theorem tiles_of_checkRecords (hoffset : offset ≤ f.leafLimit n)
    (h : f.checkRecords block rounds offset = .ok ()) :
    ∃ list, f.Tiles block offset list (f.leafLimit n) := by
  induction rounds generalizing offset with
  | zero => cases h
  | succ rounds ih =>
    simp only [checkRecords] at h
    split at h
    next hend =>
      obtain rfl : offset = f.leafLimit n := by omega
      exact ⟨[], .nil _⟩
    next hinside =>
      split at h
      · cases h
      split at h
      · cases h
      next hlength =>
        split at h
        · cases h
        next hlive =>
          simp only [not_or, Nat.not_lt, not_not] at hlength
          obtain ⟨hmin, haligned, hroom, hshort, hfits⟩ := hlength
          obtain ⟨list, htiles⟩ := ih (by omega) h
          refine ⟨_, .cons ⟨hmin, haligned, ?_, ?_, ?_, ?_⟩ htiles⟩
          · simp only [entryAt]
            omega
          · simpa [entryAt] using hshort
          · simp only [entryAt, length_slice]
            omega
          intro hinode
          have hrest := fun hbad => hlive ⟨hinode, hbad⟩
          simp only [imp_false, not_or, Nat.not_lt, not_and, Bool.not_eq_false] at hrest
          obtain ⟨hcount, hname, htype, hbytes⟩ := hrest
          refine ⟨hcount, ?_, ?_, hbytes⟩
          · intro hnil
            have := congrArg List.length hnil
            simp only [entryAt, length_slice] at this
            exact hname this
          · intro htyped
            simp only [entryAt, htyped]
            exact UInt8.not_lt.mp (htype htyped)

variable {stop : Nat}

/-- Records that fill a block pass the check. -/
theorem checkRecords_of_tiles (h : f.Tiles block offset list stop) (hstop : stop = f.leafLimit n)
    (hrounds : list.length < rounds) :
    f.checkRecords block rounds offset = .ok () := by
  induction h generalizing rounds with
  | nil =>
    obtain ⟨rounds, rfl⟩ : ∃ r, rounds = r + 1 := ⟨rounds - 1, by omega⟩
    simp only [checkRecords]
    rw [if_pos (by omega)]
  | @cons offset stop rest haccepts htail ih =>
    obtain ⟨rounds, rfl⟩ : ∃ r, rounds = r + 1 := ⟨rounds - 1, by omega⟩
    have haligned : block.get16 (offset + 4) % 4 = 0 := haccepts.aligned
    have hinside : offset + block.get16 (offset + 4) ≤ f.leafLimit n := haccepts.inside
    have hshort := haccepts.short
    have hfits := haccepts.fits
    simp only [entryAt, length_slice] at hshort hfits
    simp only [checkRecords]
    rw [if_neg (by omega), if_neg (by omega), if_neg (by omega), if_neg]
    · exact ih hstop (by simpa using hrounds)
    rintro ⟨hinode, hbad⟩
    obtain ⟨hcount, hname, htype, hbytes⟩ := haccepts.live hinode
    rcases hbad with hbad | hbad | ⟨htyped, hbad⟩ | hbad
    · exact absurd hcount (by simp only [entryAt]; omega)
    · refine hname ?_
      simp only [entryAt, hbad]
      rfl
    · have := htype htyped
      simp only [entryAt, htyped] at this
      exact absurd hbad (UInt8.not_lt.mpr this)
    · simp only [entryAt] at hbytes
      rw [hbytes] at hbad
      cases hbad

theorem leafLimit_le (size : Nat) : f.leafLimit size ≤ size := Nat.sub_le _ _

/-- A block is accepted if its tail is right and its records fill it. -/
theorem directoryLeafCheck_iff (hn : 0 < n) : f.directoryLeafCheck block = .ok () ↔
      f.checkTail block = true ∧ ∃ list, f.Tiles block 0 list (f.leafLimit n) := by
  rw [directoryLeafCheck]
  constructor
  · intro h
    split at h
    next htail => exact ⟨htail, tiles_of_checkRecords (Nat.zero_le _) h⟩
    · cases h
  · rintro ⟨htail, list, htiles⟩
    rw [if_pos htail]
    have hlength := htiles.length_le
    have hlimit := @leafLimit_le f n
    exact checkRecords_of_tiles htiles rfl (by omega)

theorem Tiles.entriesFrom (h : f.Tiles block offset list stop) (hstop : stop = f.leafLimit n)
    (hrounds : list.length < rounds) :
    f.entriesFrom block rounds offset = list := by
  induction h generalizing rounds with
  | nil =>
    obtain ⟨rounds, rfl⟩ : ∃ r, rounds = r + 1 := ⟨rounds - 1, by omega⟩
    rw [DirectoryFormat.entriesFrom, if_pos (by omega)]
  | @cons offset stop rest haccepts htail ih =>
    obtain ⟨rounds, rfl⟩ : ∃ r, rounds = r + 1 := ⟨rounds - 1, by omega⟩
    have hmin : 8 ≤ block.get16 (offset + 4) := haccepts.minimum
    have := htail.le
    rw [DirectoryFormat.entriesFrom, if_neg (by omega), ih hstop (by simpa using hrounds)]

/-- The records that are read are those that fill the block. -/
theorem Tiles.entries (hn : 0 < n) (h : f.Tiles block 0 list (f.leafLimit n)) :
    f.entries block = list := by
  have hlength := h.length_le
  have hlimit := @leafLimit_le f n
  exact h.entriesFrom rfl (by omega)

end Check

section Seal

variable {block : Block n}

theorem agree_directoryLeafSeal {offset length : Nat} (h : offset + length ≤ f.leafLimit n) :
    Agree (f.directoryLeafSeal block) block offset length := by
  rw [directoryLeafSeal]
  split
  · exact (agree_set32 _ _ (.inl (by omega))).trans ((agree_setByte _ _ (.inl (by omega))).trans
        ((agree_set16 _ _ (.inl (by omega))).trans (agree_zero _ (.inl (by omega)))))
  · exact Block.agree_refl _ _ _

theorem checkTail_directoryLeafSeal (hn : 12 ≤ n) :
    f.checkTail (f.directoryLeafSeal block) = true := by
  by_cases hsum : f.metadataChecksum = true
  · have hlimit : f.leafLimit n + 12 = n := by
      rw [leafLimit, if_pos hsum]
      omega
    rw [directoryLeafSeal, if_pos hsum, checkTail]
    generalize f.leafLimit n = tail at hlimit
    simp only [Bool.or_eq_true, Bool.and_eq_true, beq_iff_eq]
    refine .inr ⟨⟨⟨⟨?_, ?_⟩, ?_⟩, ?_⟩, ?_⟩
    · simp (disch := omega) only [Block.get32_set32_other, Block.get32_setByte_other,
        Block.get32_set16_other, Block.get32_zero]
    · simp (disch := omega) only [Block.get16_set32_other, Block.get16_setByte_other, get16_set16]
    · simp (disch := omega) only [Block.byte_set32_other, Block.byte_setByte_other,
        Block.byte_set16_other, Block.byte_zero]
    · simp (disch := omega) only [Block.byte_set32_other, byte_setByte]
    · rw [get32_set32 (by omega) (UInt32.toNat_lt _), (agree_set32 _ _ (.inl (by omega))).slice]
  · simp [checkTail, hsum]

end Seal

/-- Fill a stretch of a block with one record. -/
def putEntry (f : DirectoryFormat) (block : Block n) (target available child : Nat)
    (name : List UInt8) (type : UInt8) : Block n :=
  let block := (((block.zero target available).set32 target child).set16 (target + 4) available)
  let block :=
    if f.fileType then
      (block.setByte (target + 6) (UInt8.ofNat name.length)).setByte (target + 7) type
    else block.set16 (target + 6) name.length
  block.splice (target + 8) name

variable {block : Block n} {target available child : Nat} {name : List UInt8} {type : UInt8}

/-- A record that is written changes no byte outside its room. -/
theorem agree_putEntry {offset length : Nat} (hfits : 8 + name.length ≤ available)
    (h : offset + length ≤ target ∨ target + available ≤ offset) :
    Agree (f.putEntry block target available child name type) block offset length := by
  have hname : offset + length ≤ target + 8 ∨ target + 8 + name.length ≤ offset := by omega
  refine (agree_splice _ hname).trans ?_
  have hhead : Agree (((block.zero target available).set32 target child).set16 (target + 4)
      available) block offset length :=
    (agree_set16 _ _ (by omega)).trans ((agree_set32 _ _ (by omega)).trans
      (agree_zero _ (by omega)))
  split
  · exact (agree_setByte _ _ (by omega)).trans ((agree_setByte _ _ (by omega)).trans hhead)
  · exact (agree_set16 _ _ (by omega)).trans hhead

/-- A record that was written is read back. -/
theorem entryAt_putEntry (hfits : 8 + name.length ≤ available) (hinside : target + available ≤ n)
    (hshort : name.length ≤ 255) (hchild : child < 4294967296) (havailable : available < 65536) :
    f.entryAt (f.putEntry block target available child name type) target =
      ⟨target, available, child, name, if f.fileType then type else 0⟩ := by
  have hslice : (f.putEntry block target available child name type).slice (target + 8) name.length =
      name := Block.slice_splice_self (by omega)
  by_cases htyped : f.fileType = true
  · have hsize : f.nameSize (f.putEntry block target available child name type) target =
        name.length := by
      simp only [nameSize, putEntry, htyped, if_true]
      rw [(agree_splice _ (.inl (by omega))).byte, Block.byte_setByte_other (by omega),
        byte_setByte (by omega), UInt8.toNat_ofNat_of_lt' (by simp [UInt8.size]; omega)]
    rw [entryAt, hsize, hslice]
    simp (disch := omega) only [putEntry, htyped, if_true, Block.get16_splice_other,
      Block.get32_splice_other, Block.get16_setByte_other, Block.get32_setByte_other,
      get16_set16, Block.get32_set16_other, get32_set32]
    rw [(agree_splice _ (.inl (by omega))).byte, byte_setByte (by omega)]
  · have hsize : f.nameSize (f.putEntry block target available child name type) target =
        name.length := by
      simp only [nameSize, putEntry, htyped, Bool.false_eq_true, if_false]
      rw [Block.get16_splice_other (.inl (by omega)), get16_set16 (by omega) (by omega)]
    rw [entryAt, hsize, hslice]
    simp (disch := omega) only [putEntry, htyped, Bool.false_eq_true, if_false,
      Block.get16_splice_other, Block.get32_splice_other, Block.get16_set16_other,
      get16_set16, Block.get32_set16_other, get32_set32]

end DirectoryFormat

end OpenXJ380.Ext4
