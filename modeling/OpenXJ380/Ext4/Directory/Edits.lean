/-
# Edits of a directory block

A record is split behind its name to make room for another one, or it is given to the
record before it (`src/driver/fs/ext4/directory_index.cpp`, `ns_insert` and `ns_remove`).
Either edit replaces a few records of the list that fills the block by others that fill
the same bytes.
-/

import OpenXJ380.Ext4.Directory.Search

namespace OpenXJ380.Ext4

open Data
open Block (Agree agree_set16 agree_zero byte_set16_other byte_zero)

namespace DirectoryFormat

variable {n : Nat} {f : DirectoryFormat} {access : DirectoryAccess n}

/-- What a record keeps when the room behind its name is cut off. -/
def usedSize (entry : DirectoryEntry) : Nat :=
  if entry.inode ≠ 0 then recordSize entry.name.length else 0

variable {block : Block n} {offset stop logical limit record : Nat} {pre post : List DirectoryEntry}
  {name : CString} {entry : DirectoryEntry}
  {list : List DirectoryEntry} {needed : Nat} {slack : Slack} {child : UInt32} {type : UInt8}

/-- The search finds a record with as much slack as was asked for. -/
theorem Tiles.selectInBlock {rounds : Nat} (h : f.Tiles block offset list stop)
    (hselect : f.selectInBlock block needed rounds offset = some slack)
    (hstop : stop = f.leafLimit n) :
    ∃ pre entry post, list = pre ++ entry :: post ∧
      slack = ⟨entry.offset, usedSize entry, entry.record⟩ ∧
      usedSize entry + needed ≤ entry.record := by
  induction rounds generalizing offset list with
  | zero => cases hselect
  | succ rounds ih =>
    rw [DirectoryFormat.selectInBlock] at hselect
    split at hselect
    · cases hselect
    next hinside =>
      cases h with
      | nil => omega
      | @cons _ _ rest haccepts htail =>
        have hused : (if block.get32 offset ≠ 0 then recordSize (f.nameSize block offset) else 0) =
            usedSize (f.entryAt block offset) := by
          rw [usedSize, entryAt, Block.length_slice]
        rw [hused] at hselect
        split at hselect
        next hroom => exact ⟨[], _, rest, rfl, (Option.some.inj hselect).symm, hroom⟩
        next hroom =>
          obtain ⟨pre, entry, post, rfl, hslack, hroom⟩ := ih htail hselect
          exact ⟨_ :: pre, entry, post, rfl, hslack, hroom⟩

/-- The block that is chosen passes its check, and its record has the slack. -/
theorem selectBlock_eq_some (hn : 0 < n) {blocks : List (Block n)} {first : Nat}
    (h : f.selectBlock access needed blocks first = .ok (some (logical, slack))) :
    ∃ before block after pre entry post, blocks = before ++ block :: after ∧
      logical = first + before.length ∧ f.directoryLeafCheck block = .ok () ∧
      f.entries block = pre ++ entry :: post ∧
      slack = ⟨entry.offset, usedSize entry, entry.record⟩ ∧
      usedSize entry + needed ≤ entry.record := by
  induction blocks generalizing first with
  | nil => cases h
  | cons block rest ih =>
    rw [selectBlock, bind_eq_ok] at h
    obtain ⟨_, hread, h⟩ := h
    obtain ⟨-, hcheck⟩ := nsReadBlock_eq_ok.mp hread
    split at h
    next found hselect =>
      obtain ⟨_, -, h⟩ := bind_eq_ok.mp h
      obtain ⟨rfl, rfl⟩ := Prod.mk.inj (Option.some.inj (Except.ok.inj h))
      obtain ⟨pre, entry, post, hentries, hslack, hroom⟩ :=
        (tiles_of_check hn hcheck).selectInBlock hselect rfl
      exact ⟨[], block, rest, pre, entry, post, rfl, rfl, hcheck, hentries, hslack, hroom⟩
    next hselect =>
      obtain ⟨before, other, after, pre, entry, post, rfl, rfl, hrest⟩ := ih h
      exact ⟨block :: before, other, after, pre, entry, post, rfl,
        by rw [List.length_cons]; omega, hrest⟩

/-- A sealed block passes the check and has the same records. -/
theorem Tiles.sealed (hn : 12 ≤ n) (h : f.Tiles block 0 list (f.leafLimit n)) :
    f.directoryLeafCheck (f.directoryLeafSeal block) = .ok () ∧
      f.entries (f.directoryLeafSeal block) = list := by
  have htiles : f.Tiles (f.directoryLeafSeal block) 0 list (f.leafLimit n) :=
    h.congr (agree_directoryLeafSeal (by omega))
  exact ⟨(directoryLeafCheck_iff (by omega)).mpr ⟨checkTail_directoryLeafSeal hn, list, htiles⟩,
    htiles.entries (by omega)⟩

/-- Some records are replaced by others that fill the same range. -/
theorem Tiles.replace {other : Block n} {start middle : Nat} {new : List DirectoryEntry}
    (hpre : f.Tiles block start pre middle) (hpost : f.Tiles block stop post limit)
    (hnew : f.Tiles other middle new stop)
    (hbefore : Agree other block start (middle - start))
    (hafter : Agree other block stop (limit - stop)) :
    f.Tiles other start (pre ++ (new ++ post)) limit :=
  (hpre.congr hbefore).append (hnew.append (hpost.congr hafter))

/-- The record for a new name. -/
def newEntry (f : DirectoryFormat) (offset record : Nat) (name : CString) (child : UInt32)
    (type : UInt8) : DirectoryEntry :=
  ⟨offset, record, child.toNat, name.bytes, if f.fileType then type else 0⟩

/-- A name that can be stored, with an inode and a type that can. -/
structure Storable (f : DirectoryFormat) (name : CString) (child : UInt32) (type : UInt8) : Prop where
  ordinary : nameLength name = .ok ()
  used : child ≠ 0
  known : child.toNat ≤ f.inodeCount
  kind : type ≤ 7

theorem nameLength_eq_ok (h : nameLength name = .ok ()) :
    name.bytes ≠ [] ∧ name.bytes.length ≤ 255 ∧ name.bytes ≠ [0x2e] ∧ name.bytes ≠ [0x2e, 0x2e] ∧
      name.bytes.all nameByte = true := by
  rw [nameLength] at h
  split at h
  · cases h
  rw [ordinaryName] at h
  iterate 3
    split at h
    · cases h
  next hlong hempty hdots hslash =>
    simp only [not_or] at hempty hdots
    refine ⟨hempty.1, by omega, hdots.1, hdots.2, ?_⟩
    rw [List.all_eq_true]
    intro byte hmem
    simp only [nameByte, Bool.and_eq_true, bne_iff_ne]
    exact ⟨fun hzero => name.terminated (hzero ▸ hmem), fun hbyte => hslash (hbyte ▸ hmem)⟩

theorem Storable.accepts (h : f.Storable name child type)
    (hroom : recordSize name.bytes.length ≤ record) (haligned : record % 4 = 0)
    (hinside : offset + record ≤ limit) :
    f.Accepts limit (f.newEntry offset record name child type) := by
  obtain ⟨hempty, hshort, -, -, hbytes⟩ := nameLength_eq_ok h.ordinary
  have hbounds := recordSize_bounds hshort
  refine ⟨?_, haligned, hinside, hshort, ?_, fun _ => ⟨h.known, hempty, ?_, hbytes⟩⟩
  · simp only [newEntry]
    omega
  · simp only [newEntry]
    omega
  · intro htyped
    simp only [newEntry, htyped]
    exact h.kind

/-- A new record fills the room it was given. -/
theorem tiles_putEntry {block : Block n} {name : CString} {child : UInt32} {type : UInt8}
    {target available : Nat} (h : f.Storable name child type) (hn : n ≤ 4096)
    (hroom : recordSize name.bytes.length ≤ available) (haligned : available % 4 = 0)
    (hinside : target + available ≤ f.leafLimit n) :
    f.Tiles (f.putEntry block target available child.toNat name.bytes type) target
      [f.newEntry target available name child type] (target + available) := by
  obtain ⟨-, hshort, -, -, -⟩ := nameLength_eq_ok h.ordinary
  have hbounds := recordSize_bounds hshort
  have hlimit := @leafLimit_le f n
  have hentry : f.entryAt (f.putEntry block target available child.toNat name.bytes type) target =
      f.newEntry target available name child type :=
    entryAt_putEntry (by omega) (by omega) hshort (UInt32.toNat_lt _) (by omega)
  have hrecord : (f.putEntry block target available child.toNat name.bytes type).get16 (target + 4) =
      available := congrArg DirectoryEntry.record hentry
  have haccepts := h.accepts hroom haligned hinside
  rw [← hentry] at haccepts ⊢
  have hsingle := Tiles.single haccepts
  rwa [hrecord] at hsingle

theorem Accepts.withRecord (h : f.Accepts limit entry) (hfits : 8 + entry.name.length ≤ record)
    (haligned : record % 4 = 0) (hinside : entry.offset + record ≤ limit) :
    f.Accepts limit { entry with record := record } :=
  ⟨Nat.le_trans (Nat.le_add_right 8 _) hfits, haligned, hinside, h.short, hfits, h.live⟩

theorem entryAt_setRecord (hsize : offset + 6 ≤ n) (hrecord : record < 65536) :
    f.entryAt (block.set16 (offset + 4) record) offset =
      { f.entryAt block offset with record := record } := by
  have hname : f.nameSize (block.set16 (offset + 4) record) offset = f.nameSize block offset := by
    simp (disch := omega) only [nameSize, byte_set16_other, Block.get16_set16_other]
  have hslice : (block.set16 (offset + 4) record).slice (offset + 8) (f.nameSize block offset) =
      block.slice (offset + 8) (f.nameSize block offset) :=
    (agree_set16 block record (.inr (by omega))).slice
  simp (disch := omega) only [entryAt, hname, hslice, Block.get16_set16, Block.get32_set16_other,
    byte_set16_other]

theorem Tiles.of_entryAt (hentry : f.entryAt block offset = entry)
    (haccepts : f.Accepts (f.leafLimit n) entry) (hstop : stop = offset + entry.record) :
    f.Tiles block offset [entry] stop := by
  subst hentry hstop
  exact .single haccepts

/-- What is left of a record before the new one. -/
def keptEntries (entry : DirectoryEntry) : List DirectoryEntry :=
  if entry.inode = 0 then [] else [{ entry with record := usedSize entry }]

/-- The slack of a record becomes a record of its own. -/
theorem tiles_splitRecord (hn : n ≤ 4096) (h : f.Storable name child type)
    (htiles : f.Tiles block 0 (pre ++ entry :: post) (f.leafLimit n))
    (hroom : usedSize entry + recordSize name.bytes.length ≤ entry.record) :
    ∃ edited, f.splitRecord name child type ⟨entry.offset, usedSize entry, entry.record⟩ block =
        f.directoryLeafSeal edited ∧
      f.Tiles edited 0 (pre ++ ((keptEntries entry ++ [f.newEntry (entry.offset + usedSize entry)
        (entry.record - usedSize entry) name child type]) ++ post)) (f.leafLimit n) := by
  obtain ⟨hpre, hentry, haccepts, hpost⟩ := htiles.around
  obtain ⟨-, hshort, -, -, -⟩ := nameLength_eq_ok h.ordinary
  have hbounds := recordSize_bounds hshort
  have hlimit := @leafLimit_le f n
  have hinside := haccepts.inside
  have haligned := haccepts.aligned
  by_cases hinode : entry.inode = 0
  · have hused : usedSize entry = 0 := by simp [usedSize, hinode]
    rw [hused] at hroom ⊢
    refine ⟨_, rfl, ?_⟩
    simp only [keptEntries, hinode]
    exact hpre.replace hpost (tiles_putEntry h hn (by omega) haligned hinside)
      (agree_putEntry (by omega) (.inl (by omega))) (agree_putEntry (by omega) (.inr (by omega)))
  · have hname := recordSize_bounds haccepts.short
    have hused : usedSize entry = recordSize entry.name.length := by simp [usedSize, hinode]
    refine ⟨_, rfl, ?_⟩
    simp only [hused, keptEntries, hinode] at hroom ⊢
    generalize recordSize entry.name.length = used at hroom hname ⊢
    rw [if_pos (by omega)]
    have hkept : f.Tiles (f.putEntry (block.set16 (entry.offset + 4) used) (entry.offset + used)
        (entry.record - used) child.toNat name.bytes type) entry.offset
        [{ entry with record := used }] (entry.offset + used) := by
      refine .of_entryAt ?_ (haccepts.withRecord hname.1 hname.2.2 (by omega)) rfl
      have hset : f.entryAt (block.set16 (entry.offset + 4) used) entry.offset =
          { entry with record := used } := by
        rw [entryAt_setRecord (by omega) (by omega), ← hentry]
      have hagree : Agree (f.putEntry (block.set16 (entry.offset + 4) used)
          (entry.offset + used) (entry.record - used) child.toNat name.bytes type)
          (block.set16 (entry.offset + 4) used) entry.offset used :=
        agree_putEntry (by omega) (.inl (by omega))
      rw [← hset]
      exact entryAt_congr (by rw [hset]; exact hname.1) hagree
    have hnew : f.Tiles (f.putEntry (block.set16 (entry.offset + 4) used) (entry.offset + used)
        (entry.record - used) child.toNat name.bytes type) (entry.offset + used)
        [f.newEntry (entry.offset + used) (entry.record - used) name child type]
        (entry.offset + entry.record) := by
      have hend : entry.offset + entry.record = entry.offset + used + (entry.record - used) := by
        omega
      rw [hend]
      exact tiles_putEntry h hn (by omega) (by omega) (by omega)
    refine hpre.replace hpost (hkept.append hnew) ?_ ?_
    · exact (agree_putEntry (by omega) (.inl (by omega))).trans (agree_set16 _ _ (.inl (by omega)))
    · exact (agree_putEntry (by omega) (.inr (by omega))).trans (agree_set16 _ _ (.inr (by omega)))

/-- A record that was cleared. -/
def clearedEntry (entry : DirectoryEntry) : DirectoryEntry := ⟨entry.offset, entry.record, 0, [], 0⟩

theorem entryAt_cleared (h : f.Accepts limit entry) (hlimit : limit ≤ n) (hn : n ≤ 4096) :
    f.entryAt ((block.zero entry.offset entry.record).set16 (entry.offset + 4) entry.record)
      entry.offset = clearedEntry entry := by
  have hmin := h.minimum
  have hinside := h.inside
  have hname : f.nameSize ((block.zero entry.offset entry.record).set16 (entry.offset + 4)
      entry.record) entry.offset = 0 := by
    simp (disch := omega) only [nameSize, byte_set16_other, Block.get16_set16_other,
      byte_zero, Block.get16_zero, UInt8.toNat_zero, ite_self]
  rw [entryAt, hname]
  simp (disch := omega) only [Block.get16_set16, Block.get32_set16_other, byte_set16_other,
    byte_zero, Block.get32_zero, ite_self]
  rfl

/-- The records of a block when one of them is removed. -/
def removeEntry (pre : List DirectoryEntry) (entry : DirectoryEntry) (post : List DirectoryEntry) :
    List DirectoryEntry :=
  match pre.getLast? with
  | none => clearedEntry entry :: post
  | some last => pre.dropLast ++ { last with record := last.record + entry.record } :: post

/-- The first record of a block is emptied and keeps its length. -/
theorem clearRecord_first (hn : n ≤ 4096)
    (htiles : f.Tiles block 0 (entry :: post) (f.leafLimit n)) :
    ∃ edited, f.clearRecord ⟨logical, entry.inode, entry.offset, kNoRecord, entry.type⟩ block =
        .ok (f.directoryLeafSeal edited) ∧
      f.Tiles edited 0 (clearedEntry entry :: post) (f.leafLimit n) := by
  have hwhole : f.Tiles block 0 ([] ++ entry :: post) (f.leafLimit n) := htiles
  obtain ⟨hpre, hentry, haccepts, hpost⟩ := hwhole.around
  have hlimit := @leafLimit_le f n
  have hinside := haccepts.inside
  have hmin := haccepts.minimum
  have hrecord : block.get16 (entry.offset + 4) = entry.record :=
    (congrArg DirectoryEntry.record hentry).symm
  have hinode : block.get32 entry.offset = entry.inode :=
    (congrArg DirectoryEntry.inode hentry).symm
  refine ⟨_, by rw [clearRecord, if_neg (by simpa using hinode), if_neg (by simp)], ?_⟩
  rw [hrecord]
  have hcleared : f.Accepts (f.leafLimit n) (clearedEntry entry) :=
    ⟨hmin, haccepts.aligned, hinside, by simp [clearedEntry], hmin, fun hne => absurd rfl hne⟩
  refine hpre.replace hpost (.of_entryAt (entryAt_cleared haccepts hlimit hn) hcleared rfl) ?_ ?_
  · exact (agree_set16 _ _ (.inl (by omega))).trans (agree_zero _ (.inl (by omega)))
  · exact (agree_set16 _ _ (.inr (by omega))).trans (agree_zero _ (.inr (by omega)))

/-- Any other record is added to the one before it. -/
theorem clearRecord_merge {last : DirectoryEntry} (hn : n ≤ 4096)
    (htiles : f.Tiles block 0 (pre ++ last :: entry :: post) (f.leafLimit n)) :
    ∃ edited, f.clearRecord ⟨logical, entry.inode, entry.offset, last.offset, entry.type⟩ block =
        .ok (f.directoryLeafSeal edited) ∧
      f.Tiles edited 0 (pre ++ { last with record := last.record + entry.record } :: post)
        (f.leafLimit n) := by
  obtain ⟨hpre, hlast, hlastAccepts, hrest⟩ := htiles.around
  obtain ⟨hentry, haccepts, hpost⟩ := hrest.uncons
  have hoffset : last.offset + last.record = entry.offset := by rw [hentry]; rfl
  rw [hoffset] at hentry hpost
  have hlimit := @leafLimit_le f n
  have hinside := haccepts.inside
  have hfits := hlastAccepts.fits
  have hrecord : block.get16 (entry.offset + 4) = entry.record :=
    (congrArg DirectoryEntry.record hentry).symm
  have hinode : block.get32 entry.offset = entry.inode :=
    (congrArg DirectoryEntry.inode hentry).symm
  have hprevious : block.get16 (last.offset + 4) = last.record :=
    (congrArg DirectoryEntry.record hlast).symm
  have hnone : last.offset ≠ kNoRecord := by
    have : kNoRecord = 0xffff := rfl
    omega
  refine ⟨_, by rw [clearRecord, if_neg (by simpa using hinode), if_pos hnone,
    if_neg (by simpa [hprevious] using hoffset)], ?_⟩
  simp only [hrecord, hprevious]
  have hmerged : f.Accepts (f.leafLimit n) { last with record := last.record + entry.record } :=
    hlastAccepts.withRecord (by omega) (by have := haccepts.aligned; have := hlastAccepts.aligned; omega)
      (by omega)
  have hset : f.entryAt (block.set16 (last.offset + 4) (last.record + entry.record)) last.offset =
      { last with record := last.record + entry.record } := by
    rw [entryAt_setRecord (by omega) (by omega), ← hlast]
  have hagree : Agree ((block.set16 (last.offset + 4) (last.record + entry.record)).zero
      entry.offset entry.record) (block.set16 (last.offset + 4) (last.record + entry.record))
      last.offset last.record := agree_zero _ (.inl (by omega))
  have hread : f.entryAt ((block.set16 (last.offset + 4) (last.record + entry.record)).zero
      entry.offset entry.record) last.offset =
      { last with record := last.record + entry.record } := by
    rw [← hset]
    exact entryAt_congr (by rw [hset]; exact hfits) hagree
  refine hpre.replace hpost (.of_entryAt hread hmerged ?_) ?_ ?_
  · simp only
    omega
  · exact (agree_zero _ (.inl (by omega))).trans (agree_set16 _ _ (.inl (by omega)))
  · exact (agree_zero _ (.inr (by omega))).trans (agree_set16 _ _ (.inr (by omega)))

theorem clearRecord_of_located {block : Block n} {pre post : List DirectoryEntry}
    {entry : DirectoryEntry} {logical : Nat} (hn : n ≤ 4096)
    (htiles : f.Tiles block 0 (pre ++ entry :: post) (f.leafLimit n)) :
    ∃ edited, f.clearRecord ⟨logical, entry.inode, entry.offset, lastRecord kNoRecord pre,
        entry.type⟩ block = .ok (f.directoryLeafSeal edited) ∧
      f.Tiles edited 0 (removeEntry pre entry post) (f.leafLimit n) := by
  rcases List.eq_nil_or_concat pre with rfl | ⟨front, last, rfl⟩
  · exact clearRecord_first hn htiles
  · rw [List.concat_eq_append] at htiles ⊢
    rw [List.append_assoc] at htiles
    simp only [removeEntry, lastRecord_concat, List.getLast?_append, List.dropLast_concat]
    exact clearRecord_merge hn htiles

end DirectoryFormat

end OpenXJ380.Ext4
