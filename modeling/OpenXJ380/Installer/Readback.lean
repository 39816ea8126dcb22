/-
# The table that is read back is the one that was written

`disk_layout_validate` looks at one field of the partition table after the other, and
`disk_layout_build` writes one field after the other. The two are inverse: a table passes
exactly if every byte of its five buffers is the one that was written, the unused bytes and
the checksums included.

The check also refuses buffers that are no memory or that overlap, so two copies of the
table cannot be validated from one buffer.
-/

import OpenXJ380.Data.Pieces
import OpenXJ380.Installer.DiskLayout

namespace OpenXJ380.Installer

open Data Data.Block
open List hiding span

/-- The sectors of the MBR, the primary header and its entries, the root, the ESP, the
backup entries and their header; each range without its end. -/
def DiskLayout.ranges (layout : DiskLayout) : List (Nat × Nat) :=
  [(0, 1), (1, 2), (layout.primaryEntriesLba, layout.primaryEntriesLba + tableSectors),
    (layout.rootFirstLba, layout.rootLastLba + 1), (layout.espFirstLba, layout.espLastLba + 1),
    (layout.backupEntriesLba, layout.backupEntriesLba + tableSectors),
    (layout.totalSectors - 1, layout.totalSectors)]

variable {layout : DiskLayout} {options : DiskLayoutOptions} {size : Nat}

section

variable (h : diskLayoutPlan options = .ok layout)
include h

/-- The ranges of a plan are apart and end inside the disk. -/
theorem ranges_of_plan : layout.ranges.Pairwise (fun first second => first.2 ≤ second.1) ∧
      ∀ range ∈ layout.ranges, range.1 < range.2 ∧ range.2 ≤ layout.totalSectors := by
  have hplan := planned_of_plan h
  have hprimary := hplan.primary
  have hroot := hplan.root
  have hrootLt := hplan.root_lt
  have hrootLast := hplan.root_last
  have hespLt := hplan.esp_lt
  have hespLast := hplan.esp_last
  have hbackup := hplan.backup
  simp only [sectorsPerMiB, tableSectors] at *
  simp only [DiskLayout.ranges, pairwise_cons, forall_mem_cons, not_mem_nil,
    false_implies, implies_true, and_true, List.Pairwise.nil, tableSectors]
  omega

theorem sectors_of_plan : layout.totalSectors * diskSectorBytes = options.diskBytes := by
  unfold diskLayoutPlan at h
  split at h
  next => cases h
  next hrefused =>
    cases h
    simp only [diskMiB] at hrefused
    simp only [diskSectorBytes]
    omega

end

/-- Numbers of a valid layout fit into their fields. -/
structure DiskLayout.Fits (layout : DiskLayout) : Prop where
  total : layout.totalSectors < 2 ^ 64
  first : layout.firstUsableLba < 2 ^ 64
  last : layout.lastUsableLba < 2 ^ 64
  primary : layout.primaryEntriesLba < 2 ^ 64
  backup : layout.backupEntriesLba < 2 ^ 64
  rootFirst : layout.rootFirstLba < 2 ^ 64
  rootLast : layout.rootLastLba < 2 ^ 64
  espFirst : layout.espFirstLba < 2 ^ 64
  espLast : layout.espLastLba < 2 ^ 64

/-- A layout that passes the check is one that the planner makes. -/
theorem plan_of_validLayout (h : validLayout layout = true) :
    ∃ options, diskLayoutPlan options = .ok layout := by
  unfold validLayout at h
  split at h
  next => cases h
  next =>
    split at h
    next => cases h
    next expected hplan =>
      rw [eq_of_beq h]
      exact ⟨_, hplan⟩

theorem fits_of_validLayout (h : validLayout layout = true) (hsize : layout.diskBytes < 2 ^ 64) :
    layout.Fits := by
  rcases plan_of_validLayout h with ⟨options, hplan⟩
  unfold diskLayoutPlan at hplan
  split at hplan
  next => cases hplan
  next =>
    cases hplan
    constructor <;> simp only [sectorsPerMiB, diskSectorBytes, tableSectors] at * <;> omega

section

variable (layout : DiskLayout)

def mbrPieces : List (Nat × List UInt8) :=
  [(448, [2]), (450, [0xee, 0xff, 0xff, 0xff]), (454, encodeLE 4 1),
    (458, encodeLE 4 (protectiveSize layout)), (510, [0x55, 0xaa])]

theorem makeMbr_eq : makeMbr layout = zeros.spliceAll (mbrPieces layout) := rfl

theorem protectiveSize_lt : protectiveSize layout < 256 ^ 4 := by
  rw [protectiveSize]
  split <;> omega

/-- The check of the boot sector accepts the sector that is built and no other. -/
theorem checkMbr_iff (mbr : Sector) : checkMbr layout mbr = true ↔ mbr = makeMbr layout := by
  have hhead : mbr.equal 448 [2, 0, 0xee, 0xff, 0xff, 0xff] = true ↔ mbr.equal 448 [2] = true ∧
      mbr.equal 449 [0] = true ∧ mbr.equal 450 [0xee, 0xff, 0xff, 0xff] = true :=
    (equal_append [2] _).trans (and_congr_right' (equal_append [0] _))
  have hzero : mbr.equal 449 [0] = true ↔ Agree mbr zeros 449 1 :=
    equal_iff.trans slice_eq_replicate_iff
  rw [makeMbr_eq, eq_spliceAll_iff]
  · simp only [checkMbr, Bool.and_eq_true, beq_iff_eq, hhead, hzero, allZero_iff, equal_iff,
      little_eq_iff (protectiveSize_lt layout), little_eq_iff (show 1 < 256 ^ 4 by decide)]
    simp only [Shows, mbrPieces, forall_mem_cons, not_mem_nil, false_implies, implies_true,
      and_true, length_encodeLE, Touches, length_cons, length_nil]
    constructor
    · rintro ⟨⟨⟨⟨⟨hfirst, hactive, hgap, hchs⟩, hlba⟩, hsize⟩, hmiddle⟩, hmark⟩
      refine ⟨⟨hactive, hchs, hlba, hsize, hmark⟩, ?_⟩
      rintro i hi ⟨hactive', hchs', hlba', hsize', hmark'⟩
      rcases (by omega : i < 448 ∨ i = 449 ∨ 462 ≤ i ∧ i < 510) with h | h | h
      · exact hfirst i (by omega) (by omega)
      · exact hgap i (by omega) (by omega)
      · exact hmiddle i (by omega) (by omega)
    · rintro ⟨⟨hactive, hchs, hlba, hsize, hmark⟩, hzeros⟩
      refine ⟨⟨⟨⟨⟨?_, hactive, ?_, hchs⟩, hlba⟩, hsize⟩, ?_⟩, hmark⟩ <;>
      · intro i hlow hhigh
        exact hzeros i (by omega) (by omega)
  · simp [mbrPieces]
  · simp [mbrPieces, Separate]

end

section

variable (layout : DiskLayout) (tableCrc : UInt32) (backup : Bool)

/-- A header but for its checksum. -/
def headerPieces : List (Nat × List UInt8) :=
  [(0, signature), (8, encodeLE 4 0x00010000), (12, encodeLE 4 headerBytes),
    (24, encodeLE 8 (if backup then layout.totalSectors - 1 else 1)),
    (32, encodeLE 8 (if backup then 1 else layout.totalSectors - 1)),
    (40, encodeLE 8 layout.firstUsableLba), (48, encodeLE 8 layout.lastUsableLba),
    (56, layout.identities.disk.slice 0 16),
    (72, encodeLE 8 (if backup then layout.backupEntriesLba else layout.primaryEntriesLba)),
    (80, encodeLE 4 diskEntryCount), (84, encodeLE 4 diskEntryBytes),
    (88, encodeLE 4 tableCrc.toNat)]

def blankHeader : Sector := zeros.spliceAll (headerPieces layout tableCrc backup)

theorem makeHeader_eq :
    makeHeader layout tableCrc backup = (blankHeader layout tableCrc backup).putLittle 16 4
      (crc32Header (blankHeader layout tableCrc backup)).toNat := rfl

end

theorem zero_eq_blankHeader {header : Sector} {tableCrc : UInt32} {backup : Bool}
    (hfits : layout.Fits) (h : checkHeader layout header tableCrc backup = true) :
    header.zero 16 4 = blankHeader layout tableCrc backup := by
  have hown : (if backup then layout.totalSectors - 1 else 1) < 256 ^ 8 := by
    have := hfits.total
    split <;> omega
  have hother : (if backup then 1 else layout.totalSectors - 1) < 256 ^ 8 := by
    have := hfits.total
    split <;> omega
  have htable : (if backup then layout.backupEntriesLba else layout.primaryEntriesLba) < 256 ^ 8 := by
    have := hfits.primary
    have := hfits.backup
    split <;> omega
  rw [blankHeader, eq_spliceAll_iff]
  · simp only [checkHeader, Bool.and_eq_true, beq_iff_eq, allZero_iff, equal_iff,
      little_eq_iff hown, little_eq_iff hother, little_eq_iff htable,
      little_eq_iff (show layout.firstUsableLba < 256 ^ 8 from hfits.first),
      little_eq_iff (show layout.lastUsableLba < 256 ^ 8 from hfits.last),
      little_eq_iff (show tableCrc.toNat < 256 ^ 4 from tableCrc.toNat_lt),
      little_eq_iff (show 0x00010000 < 256 ^ 4 by decide),
      little_eq_iff (show headerBytes < 256 ^ 4 by decide),
      little_eq_iff (show diskEntryCount < 256 ^ 4 by decide),
      little_eq_iff (show diskEntryBytes < 256 ^ 4 by decide),
      little_eq_iff (show 0 < 256 ^ 4 by decide)] at h
    rcases h with ⟨⟨⟨⟨⟨⟨⟨⟨⟨⟨⟨⟨⟨⟨hsignature, hversion⟩, hlength⟩, -⟩, hreserved⟩, howner⟩, halternate⟩,
      hfirst⟩, hlast⟩, hdisk⟩, hentries⟩, hcount⟩, hbytes⟩, hcrc⟩, hrest⟩
    have hgap : Agree header zeros 20 4 := slice_eq_replicate_iff.mp hreserved
    have hsame : ∀ offset length, offset + length ≤ 16 ∨ 20 ≤ offset →
        (header.zero 16 4).slice offset length = header.slice offset length :=
      fun offset length hapart => slice_splice_apart hapart
    constructor
    · simp only [Shows, headerPieces, forall_mem_cons, not_mem_nil, false_implies,
        implies_true, and_true, length_encodeLE]
      simp (disch := decide) only [hsame]
      exact ⟨hsignature, hversion, hlength, howner, halternate, hfirst, hlast, hdisk, hentries, hcount,
        hbytes, hcrc⟩
    · intro i hi huntouched
      by_cases hin : 16 ≤ i ∧ i < 20
      · exact slice_eq_replicate_iff.mp (slice_splice_self (by simp)) i hin.1 hin.2
      have hplace : 20 ≤ i ∧ i < 24 ∨ 92 ≤ i := by
        simp only [headerPieces, forall_mem_cons, Touches, length_encodeLE, length_slice,
          show signature.length = 8 from rfl] at huntouched
        omega
      refine (byte_splice_outside (by simp only [length_replicate]; omega)).trans ?_
      rcases hplace with hplace | hplace
      · exact hgap i hplace.1 hplace.2
      · exact hrest i hplace (by simp only [diskSectorBytes]; omega)
  · simp [headerPieces, signature]
  · simp [headerPieces, Separate, signature]

/-- The check of a header accepts the header that is built and no other. -/
theorem checkHeader_iff (hfits : layout.Fits) (header : Sector) (tableCrc : UInt32)
    (backup : Bool) :
    checkHeader layout header tableCrc backup = true ↔ header = makeHeader layout tableCrc backup := by
  constructor
  · intro h
    have hblank := zero_eq_blankHeader hfits h
    have hcrc : header.little 16 4 = (crc32Header header).toNat := by
      simp only [checkHeader, Bool.and_eq_true, beq_iff_eq] at h
      exact h.1.1.1.1.1.1.1.1.1.1.1.2
    have hagain : crc32Header (header.zero 16 4) = crc32Header header := by
      rw [crc32Header, crc32Header, zero, zero, splice_splice rfl]
    rw [makeHeader_eq, ← hblank, hagain, ← hcrc, zero, putLittle, splice_splice (by simp)]
    refine (splice_eq_self ?_).symm
    rw [length_encodeLE]
    exact (little_eq_iff (by rw [hcrc]; exact UInt32.toNat_lt _)).mp rfl
  · rintro rfl
    exact checkHeader_makeHeader tableCrc backup hfits.total hfits.first hfits.last hfits.primary
      hfits.backup

def entryPieces (offset : Nat) (type : List UInt8) (identity : Guid) (first last : Nat)
    (label : List UInt8) : List (Nat × List UInt8) :=
  [(offset, type), (offset + 16, identity.slice 0 16), (offset + 32, encodeLE 8 first),
    (offset + 40, encodeLE 8 last)] ++
      label.zipIdx.map fun char => (offset + 56 + char.2 * 2, [char.1])

theorem makeEntry_eq (table : Table) (offset : Nat) (type : List UInt8) (identity : Guid)
    (first last : Nat) (label : List UInt8) :
    makeEntry table offset type identity first last label =
      table.spliceAll (entryPieces offset type identity first last label) := by
  rw [entryPieces, spliceAll_append, spliceAll, foldl_map]
  rfl

section Entry

variable {offset first last : Nat} {type label : List UInt8} {identity : Guid} {table : Table}

theorem entryPieces_within (htype : type.length = 16) (hlabel : label.length * 2 ≤ 72)
    {piece : Nat × List UInt8} (h : piece ∈ entryPieces offset type identity first last label) :
    offset ≤ piece.1 ∧ piece.1 + piece.2.length ≤ offset + 128 := by
  rw [entryPieces, mem_append] at h
  rcases h with h | h
  · simp only [mem_cons, not_mem_nil, or_false] at h
    rcases h with rfl | rfl | rfl | rfl <;>
      simp only [length_encodeLE, length_slice] <;> omega
  · rcases mem_map.mp h with ⟨char, hchar, rfl⟩
    have hindex := (mem_zipIdx hchar).2.1
    simp only [length_cons, length_nil]
    omega

theorem not_touches_entryPieces (htype : type.length = 16) (hlabel : label.length * 2 ≤ 72) {i : Nat}
    (h : i < offset ∨ offset + 128 ≤ i) :
    ∀ piece ∈ entryPieces offset type identity first last label, ¬ Touches piece i := by
  rintro piece hpiece ⟨hlow, hhigh⟩
  have hplace := entryPieces_within htype hlabel hpiece
  omega

theorem separate_entryPieces (htype : type.length = 16) :
    Separate (entryPieces offset type identity first last label) := by
  rw [Separate, entryPieces, pairwise_append]
  refine ⟨?_, ?_, ?_⟩
  · simp [htype]
  · rw [pairwise_map, pairwise_iff_getElem]
    intro i j hi hj hlt
    simp only [getElem_zipIdx, length_cons, length_nil]
    omega
  · intro piece hpiece other hother
    rcases mem_map.mp hother with ⟨-, -, rfl⟩
    simp only [mem_cons, not_mem_nil, or_false] at hpiece
    rcases hpiece with rfl | rfl | rfl | rfl <;>
      simp only [length_encodeLE, length_slice] <;> omega

/-- The label is spelled out exactly if its characters are there and the bytes between them
are zero. -/
theorem label_iff :
    (label.zipIdx.all fun char => table.equal (offset + char.2 * 2) [char.1, 0]) = true ↔
      table.Shows (label.zipIdx.map fun char => (offset + char.2 * 2, [char.1])) ∧
        ∀ k < label.length, Agree table zeros (offset + k * 2 + 1) 1 := by
  have hchar : ∀ place (char : UInt8), table.equal place [char, 0] = true ↔
      table.slice place 1 = [char] ∧ Agree table zeros (place + 1) 1 := fun place char =>
    (equal_append [char] [0]).trans (and_congr equal_iff (equal_iff.trans slice_eq_replicate_iff))
  rw [all_eq_true, Shows, forall_mem_map]
  simp only [hchar]
  constructor
  · intro h
    refine ⟨fun char hmem => (h char hmem).1, fun k hk => ?_⟩
    exact (h (label[k], k) (mk_mem_zipIdx_iff_getElem?.mpr (List.getElem?_eq_getElem hk))).2
  · rintro ⟨hshows, hzero⟩ char hmem
    have hindex := (mem_zipIdx hmem).2.1
    exact ⟨hshows char hmem, hzero char.2 (by omega)⟩

/-- The check of an entry accepts the bytes that are built and no others. -/
theorem checkEntry_iff (htype : type.length = 16) (hlabel : label.length * 2 ≤ 72)
    (hfirst : first < 2 ^ 64) (hlast : last < 2 ^ 64) :
    checkEntry table offset type identity first last label = true ↔
      table.Shows (entryPieces offset type identity first last label) ∧
        ∀ i, offset ≤ i → i < offset + 128 →
          (∀ piece ∈ entryPieces offset type identity first last label, ¬ Touches piece i) →
          table.byte i = (zeros : Table).byte i := by
  have hzero : table.slice (offset + 48) 8 = encodeLE 8 0 ↔ Agree table zeros (offset + 48) 8 :=
    slice_eq_replicate_iff
  simp only [checkEntry, Bool.and_eq_true, beq_iff_eq, allZero_iff, equal_iff, label_iff,
    little_eq_iff (show first < 256 ^ 8 from hfirst), little_eq_iff (show last < 256 ^ 8 from hlast),
    little_eq_iff (show 0 < 256 ^ 8 by decide), hzero]
  simp only [Shows, entryPieces, forall_mem_append, forall_mem_cons, not_mem_nil,
    false_implies, implies_true, and_true]
  constructor
  · rintro ⟨⟨⟨⟨⟨⟨hkind, hidentity⟩, hstart⟩, hend⟩, hattributes⟩, hchars, hbetween⟩, hrest⟩
    refine ⟨⟨⟨hkind, hidentity, hstart, hend⟩, hchars⟩, ?_⟩
    rintro i hlow hhigh ⟨hfields, hlabels⟩
    simp only [Touches, length_encodeLE, length_slice] at hfields
    rcases Nat.lt_or_ge i (offset + 56) with hlt | hge
    · exact hattributes i (by omega) (by omega)
    rcases Nat.lt_or_ge i (offset + 56 + label.length * 2) with hlt | hend'
    · -- A byte of the label is the second one of its character.
      have hk : (i - offset - 56) / 2 < label.length := by omega
      have hchar : ¬ Touches (offset + 56 + (i - offset - 56) / 2 * 2,
          [label[(i - offset - 56) / 2]]) i := by
        apply hlabels
        refine mem_map.mpr ⟨(label[(i - offset - 56) / 2], (i - offset - 56) / 2), ?_, rfl⟩
        exact mk_mem_zipIdx_iff_getElem?.mpr (List.getElem?_eq_getElem hk)
      simp only [Touches, length_cons] at hchar
      exact hbetween _ hk i (by omega) (by omega)
    · exact hrest i (by omega) (by omega)
  · rintro ⟨⟨⟨hkind, hidentity, hstart, hend⟩, hchars⟩, hzeros⟩
    have hfree : ∀ i, offset + 48 ≤ i → i < offset + 128 →
        (∀ k < label.length, i ≠ offset + 56 + k * 2) → table.byte i = (zeros : Table).byte i := by
      intro i hlow hhigh hother
      apply hzeros i (by omega) hhigh
      simp only [Touches, length_encodeLE, length_slice]
      refine ⟨by omega, ?_⟩
      intro piece hpiece
      rcases mem_map.mp hpiece with ⟨char, hchar, rfl⟩
      have hindex := (mem_zipIdx hchar).2.1
      have hne := hother char.2 (by omega)
      simp only [length_cons, length_nil]
      omega
    refine ⟨⟨⟨⟨⟨⟨hkind, hidentity⟩, hstart⟩, hend⟩, ?_⟩, hchars, ?_⟩, ?_⟩
    · intro i hlow hhigh
      exact hfree i hlow (by omega) fun k hk => by omega
    · intro k hk i hlow hhigh
      exact hfree i (by omega) (by omega) fun k' hk' => by omega
    · intro i hlow hhigh
      exact hfree i (by omega) (by omega) fun k hk => by omega

end Entry

def tablePieces (layout : DiskLayout) : List (Nat × List UInt8) :=
  entryPieces 0 rootType layout.identities.root layout.rootFirstLba layout.rootLastLba rootLabel ++
    entryPieces diskEntryBytes espType layout.identities.esp layout.espFirstLba layout.espLastLba
      espLabel

def makeTable (layout : DiskLayout) : Table := zeros.spliceAll (tablePieces layout)

theorem diskLayoutBuild_eq (h : validLayout layout = true) : diskLayoutBuild layout = .ok
      { mbr := makeMbr layout
        primaryHeader := makeHeader layout (crc32Table (makeTable layout)) false
        backupHeader := makeHeader layout (crc32Table (makeTable layout)) true
        entries := makeTable layout } := by
  simp only [diskLayoutBuild, h, if_true, makeEntry_eq, makeTable, tablePieces, spliceAll_append]

def checkTable (layout : DiskLayout) (entries : Table) : Bool :=
  checkEntry entries 0 rootType layout.identities.root layout.rootFirstLba layout.rootLastLba
      rootLabel &&
    checkEntry entries diskEntryBytes espType layout.identities.esp layout.espFirstLba
      layout.espLastLba espLabel &&
    entries.allZero (2 * diskEntryBytes) (diskTableBytes - 2 * diskEntryBytes)

/-- The check of the table accepts the table that is built and no other. -/
theorem checkTable_iff (hfits : layout.Fits) (entries : Table) :
    checkTable layout entries = true ↔ entries = makeTable layout := by
  have hroot : ∀ piece ∈ entryPieces 0 rootType layout.identities.root layout.rootFirstLba
      layout.rootLastLba rootLabel, 0 ≤ piece.1 ∧ piece.1 + piece.2.length ≤ 0 + 128 :=
    fun piece hpiece => entryPieces_within rfl (by decide) hpiece
  have hesp : ∀ piece ∈ entryPieces diskEntryBytes espType layout.identities.esp layout.espFirstLba
      layout.espLastLba espLabel,
      diskEntryBytes ≤ piece.1 ∧ piece.1 + piece.2.length ≤ diskEntryBytes + 128 :=
    fun piece hpiece => entryPieces_within rfl (by decide) hpiece
  simp only [checkTable, Bool.and_eq_true, allZero_iff,
    checkEntry_iff (show rootType.length = 16 from rfl) (show rootLabel.length * 2 ≤ 72 by decide) hfits.rootFirst
      hfits.rootLast,
    checkEntry_iff (show espType.length = 16 from rfl) (show espLabel.length * 2 ≤ 72 by decide) hfits.espFirst
      hfits.espLast]
  rw [makeTable, eq_spliceAll_iff]
  · simp only [tablePieces, Shows, forall_mem_append]
    constructor
    · rintro ⟨⟨⟨hrootShows, hrootZero⟩, hespShows, hespZero⟩, hrest⟩
      refine ⟨⟨hrootShows, hespShows⟩, ?_⟩
      rintro i hi ⟨hrootFree, hespFree⟩
      rcases Nat.lt_or_ge i 128 with hlt | hge
      · exact hrootZero i (by omega) (by omega) hrootFree
      rcases Nat.lt_or_ge i 256 with hlt | hge'
      · exact hespZero i hge (by simp only [diskEntryBytes]; omega) hespFree
      · exact hrest i hge' (by simp only [diskTableBytes]; omega)
    · rintro ⟨⟨hrootShows, hespShows⟩, hzero⟩
      refine ⟨⟨⟨hrootShows, ?_⟩, hespShows, ?_⟩, ?_⟩
      · intro i _ hhigh hfree
        exact hzero i (by omega) ⟨hfree, not_touches_entryPieces rfl (by decide) (.inl hhigh)⟩
      · intro i hlow hhigh hfree
        simp only [diskEntryBytes] at hlow hhigh
        exact hzero i (by omega) ⟨not_touches_entryPieces rfl (by decide) (.inr hlow), hfree⟩
      · intro i hlow hhigh
        simp only [diskEntryBytes, diskTableBytes] at hlow hhigh
        exact hzero i (by omega) ⟨not_touches_entryPieces rfl (by decide) (.inr (by omega)),
          not_touches_entryPieces rfl (by decide) (.inr hlow)⟩
  · intro piece hpiece
    rcases mem_append.mp hpiece with hmem | hmem
    · exact (hroot piece hmem).2.trans (by decide)
    · exact (hesp piece hmem).2.trans (by decide)
  · refine pairwise_append.mpr ⟨separate_entryPieces rfl, separate_entryPieces rfl, ?_⟩
    intro piece hpiece other hother
    exact .inl ((hroot piece hpiece).2.trans (hesp other hother).1)

/-- A readback is accepted if it is what was built. -/
theorem diskLayoutValidate_iff (hvalid : validLayout layout = true) (hfits : layout.Fits)
    (readback : DiskLayoutReadback) :
    diskLayoutValidate layout readback = .ok () ↔
      readback.mbr = makeMbr layout ∧ readback.primaryEntries = makeTable layout ∧
        readback.backupEntries = makeTable layout ∧
        readback.primaryHeader = makeHeader layout (crc32Table (makeTable layout)) false ∧
        readback.backupHeader = makeHeader layout (crc32Table (makeTable layout)) true := by
  have htable : checkTable layout readback.primaryEntries = true ↔ _ := checkTable_iff hfits _
  simp only [checkTable, Bool.and_eq_true] at htable
  simp only [diskLayoutValidate, hvalid, Bool.true_eq_false, false_or, checkHeader_iff hfits]
  constructor
  · intro h
    split at h
    · cases h
    rename_i hpassed
    split at h
    · rename_i hheaders
      simp only [not_or, Bool.not_eq_false, not_not] at hpassed
      rcases hpassed with ⟨hmbr, hcopies, hroot, hesp, hrest⟩
      have hentries := htable.mp ⟨⟨hroot, hesp⟩, hrest⟩
      rw [hentries] at hheaders hcopies
      exact ⟨(checkMbr_iff layout _).mp hmbr, hentries, hcopies.symm, hheaders⟩
    · cases h
  · rintro ⟨hmbr, hentries, hcopies, hheaders⟩
    rcases htable.mpr hentries with ⟨⟨hroot, hesp⟩, hrest⟩
    rw [if_neg, if_pos (by rwa [hentries])]
    simp only [not_or, Bool.not_eq_false, not_not]
    exact ⟨(checkMbr_iff layout _).mpr hmbr, hentries.trans hcopies.symm, hroot, hesp, hrest⟩

structure DiskLayoutSpan where
  data : Nat
  size : Nat
  deriving DecidableEq

structure DiskLayoutSpans where
  mbr : DiskLayoutSpan
  primaryHeader : DiskLayoutSpan
  primaryEntries : DiskLayoutSpan
  backupHeader : DiskLayoutSpan
  backupEntries : DiskLayoutSpan

def validRange (begin size : Nat) : Bool := begin != 0 && decide (size ≤ 2 ^ 64 - 1 - begin)

def overlaps (first firstSize second secondSize : Nat) : Bool :=
  if first ≤ second then decide (second - first < firstSize) else decide (first - second < secondSize)

namespace DiskLayoutSpans

section

variable (spans : DiskLayoutSpans)

/-- The buffers in the order of the check, with the sizes they must have. -/
def rows : List (DiskLayoutSpan × Nat) :=
  [(spans.mbr, diskSectorBytes), (spans.primaryHeader, diskSectorBytes),
    (spans.primaryEntries, diskTableBytes), (spans.backupHeader, diskSectorBytes),
    (spans.backupEntries, diskTableBytes)]

/-- The buffers have the required sizes. -/
def Sized : Prop := ∀ row ∈ spans.rows, row.1.size = row.2

end

instance (spans : DiskLayoutSpans) : Decidable spans.Sized :=
  inferInstanceAs (Decidable (∀ row ∈ spans.rows, row.1.size = row.2))

/-- They lie in the address space, and none reaches into another. -/
structure Distinct (spans : DiskLayoutSpans) : Prop where
  inside : ∀ row ∈ spans.rows, row.1.data ≠ 0 ∧ row.1.data + row.1.size < 2 ^ 64
  apart : spans.rows.Pairwise fun first second =>
    first.1.data + first.1.size ≤ second.1.data ∨ second.1.data + second.1.size ≤ first.1.data

/-- The loop over the buffers; those before the current one are `seen`. -/
def acceptFrom (seen : List DiskLayoutSpan) : List (DiskLayoutSpan × Nat) → Bool
  | [] => true
  | (span, expected) :: rest =>
    if span.size ≠ expected ∨ validRange span.data span.size = false then false
    else if seen.any (fun other => overlaps span.data span.size other.data other.size) then false
    else acceptFrom (seen ++ [span]) rest

def accept (spans : DiskLayoutSpans) : Bool := acceptFrom [] spans.rows

/-- What is in the buffers. -/
def readback (memory : Nat → UInt8) (spans : DiskLayoutSpans) : DiskLayoutReadback where
  mbr i := memory (spans.mbr.data + i)
  primaryHeader i := memory (spans.primaryHeader.data + i)
  primaryEntries i := memory (spans.primaryEntries.data + i)
  backupHeader i := memory (spans.backupHeader.data + i)
  backupEntries i := memory (spans.backupEntries.data + i)

end DiskLayoutSpans

/-- `disk_layout_validate` with the buffers where they are in memory. -/
def diskLayoutValidateAt (memory : Nat → UInt8) (layout : DiskLayout) (spans : DiskLayoutSpans) :
    Except Errno Unit :=
  if validLayout layout = false then .error .einval
  else if spans.accept = false then .error .einval
  else diskLayoutValidate layout (spans.readback memory)

theorem validRange_iff {begin : Nat} (hsize : 0 < size) :
    validRange begin size = true ↔ begin ≠ 0 ∧ begin + size < 2 ^ 64 := by
  simp only [validRange, Bool.and_eq_true, bne_iff_ne, decide_eq_true_eq]
  omega

theorem overlaps_eq_false_iff {first firstSize second secondSize : Nat} (hfirst : 0 < firstSize)
    (hsecond : 0 < secondSize) :
    overlaps first firstSize second secondSize = false ↔
      first + firstSize ≤ second ∨ second + secondSize ≤ first := by
  rw [overlaps]
  split <;> simp only [decide_eq_false_iff_not] <;> omega

namespace DiskLayoutSpans

theorem acceptFrom_iff {seen : List DiskLayoutSpan} {rows : List (DiskLayoutSpan × Nat)}
    (hseen : ∀ other ∈ seen, 0 < other.size) (hpos : ∀ row ∈ rows, 0 < row.2)
    (hsized : ∀ row ∈ rows, row.1.size = row.2) :
    acceptFrom seen rows = true ↔
      (∀ row ∈ rows, row.1.data ≠ 0 ∧ row.1.data + row.1.size < 2 ^ 64) ∧
      (∀ row ∈ rows, ∀ other ∈ seen, row.1.data + row.1.size ≤ other.data ∨
        other.data + other.size ≤ row.1.data) ∧
      rows.Pairwise fun first second => first.1.data + first.1.size ≤ second.1.data ∨
        second.1.data + second.1.size ≤ first.1.data := by
  induction rows generalizing seen with
  | nil => simp [acceptFrom]
  | cons row rows ih =>
    rcases row with ⟨span, expected⟩
    rcases forall_mem_cons.mp hpos with ⟨hexpected, hposRest⟩
    rcases forall_mem_cons.mp hsized with ⟨hsize, hsizedRest⟩
    simp only at hexpected hsize
    have hspan : 0 < span.size := by omega
    have hseen' : ∀ other ∈ seen ++ [span], 0 < other.size := by
      intro other hother
      rcases mem_append.mp hother with hold | hnew
      · exact hseen other hold
      · exact (mem_singleton.mp hnew) ▸ hspan
    have hany : (seen.any fun other => overlaps span.data span.size other.data other.size) = false ↔
        ∀ other ∈ seen, span.data + span.size ≤ other.data ∨ other.data + other.size ≤ span.data := by
      rw [any_eq_false]
      refine forall₂_congr fun other hother => ?_
      rw [Bool.not_eq_true, overlaps_eq_false_iff hspan (hseen other hother)]
    rw [acceptFrom]
    split
    · rename_i hrefused
      have hrange : ¬ (span.data ≠ 0 ∧ span.data + span.size < 2 ^ 64) := by
        rw [← validRange_iff hspan, Bool.not_eq_true]
        exact hrefused.resolve_left (absurd hsize)
      simp only [Bool.false_eq_true, forall_mem_cons, false_iff]
      exact fun h => hrange h.1.1
    · rename_i hrange
      rw [not_or, Bool.not_eq_false, validRange_iff hspan] at hrange
      split
      · rename_i hmeets
        simp only [Bool.false_eq_true, forall_mem_cons, false_iff]
        intro h
        rw [hany.mpr h.2.1.1] at hmeets
        cases hmeets
      · rename_i hclear
        rw [Bool.not_eq_true, hany] at hclear
        rw [ih hseen' hposRest hsizedRest]
        simp only [forall_mem_cons, pairwise_cons, forall_mem_append, not_mem_nil,
          false_implies, implies_true, and_true]
        constructor
        · rintro ⟨hinside, hseenApart, hpairs⟩
          exact ⟨⟨hrange.2, hinside⟩, ⟨hclear, fun row hrow => (hseenApart row hrow).1⟩,
            fun row hrow => (hseenApart row hrow).2.symm, hpairs⟩
        · rintro ⟨⟨-, hinside⟩, ⟨-, hseenApart⟩, hhead, hpairs⟩
          exact ⟨hinside, fun row hrow => ⟨hseenApart row hrow, (hhead row hrow).symm⟩, hpairs⟩

/-- Buffers are accepted if no two of them overlap. -/
theorem accept_iff {spans : DiskLayoutSpans} (hsized : spans.Sized) :
    spans.accept = true ↔ spans.Distinct := by
  rw [accept, acceptFrom_iff (by simp) (by simp [rows, diskSectorBytes, diskTableBytes]) hsized]
  constructor
  · rintro ⟨hinside, -, hapart⟩
    exact ⟨hinside, hapart⟩
  · rintro ⟨hinside, hapart⟩
    exact ⟨hinside, by simp, hapart⟩

/-- The buffers hold a table, the entries in both copies. -/
structure Hold (memory : Nat → UInt8) (spans : DiskLayoutSpans) (gpt : DiskLayoutWorkspace) :
    Prop where
  mbr : (spans.readback memory).mbr = gpt.mbr
  primaryHeader : (spans.readback memory).primaryHeader = gpt.primaryHeader
  primaryEntries : (spans.readback memory).primaryEntries = gpt.entries
  backupHeader : (spans.readback memory).backupHeader = gpt.backupHeader
  backupEntries : (spans.readback memory).backupEntries = gpt.entries

end DiskLayoutSpans

/-- **The builder and the validator are inverse.**  The ranges of every plan lie on the disk and
do not meet. For every valid layout a table is built, and buffers of the required sizes pass
exactly if they do not overlap and hold that table. -/
theorem gpt_inverse : (∀ options layout, diskLayoutPlan options = .ok layout →
      layout.totalSectors * diskSectorBytes = options.diskBytes ∧
      layout.ranges.Pairwise (fun first second => first.2 ≤ second.1) ∧
      ∀ range ∈ layout.ranges, range.1 < range.2 ∧ range.2 ≤ layout.totalSectors) ∧
    ∀ layout, validLayout layout = true → layout.diskBytes < 2 ^ 64 →
      ∃ gpt, diskLayoutBuild layout = .ok gpt ∧
        ∀ (memory : Nat → UInt8) (spans : DiskLayoutSpans), spans.Sized →
          (diskLayoutValidateAt memory layout spans = .ok () ↔
            spans.Distinct ∧ spans.Hold memory gpt) := by
  constructor
  · intro options layout hplan
    refine ⟨?_, ranges_of_plan hplan⟩
    exact sectors_of_plan hplan
  · intro layout hvalid hbytes
    refine ⟨_, diskLayoutBuild_eq hvalid, fun memory spans hsized => ?_⟩
    rw [diskLayoutValidateAt, hvalid, if_neg (by simp), ← DiskLayoutSpans.accept_iff hsized]
    cases haccept : spans.accept with
    | false => simp
    | true =>
      rw [if_neg (by simp), diskLayoutValidate_iff hvalid (fits_of_validLayout hvalid hbytes)]
      constructor
      · rintro ⟨hmbr, hentries, hcopies, hprimary, hbackup⟩
        exact ⟨rfl, hmbr, hprimary, hentries, hbackup, hcopies⟩
      · rintro ⟨-, hmbr, hprimary, hentries, hbackup, hcopies⟩
        exact ⟨hmbr, hentries, hcopies, hprimary, hbackup⟩

section

variable (gpt : DiskLayoutWorkspace)

/-- A table in memory: the MBR, the two headers and the entries, each at its own address. -/
def placed (address : Nat) : UInt8 :=
  if address < 0x2000 then gpt.mbr.byte (address - 0x1000)
  else if address < 0x3000 then gpt.primaryHeader.byte (address - 0x2000)
  else if address < 0x10000 then gpt.backupHeader.byte (address - 0x3000)
  else gpt.entries.byte (address % 0x10000)

/-- Buffers for it; both copies of the entries are read into their own. -/
def ownBuffers : DiskLayoutSpans :=
  ⟨⟨0x1000, 512⟩, ⟨0x2000, 512⟩, ⟨0x10000, 16384⟩, ⟨0x3000, 512⟩, ⟨0x20000, 16384⟩⟩

/-- One buffer for both copies of the entries. -/
def sharedBuffer : DiskLayoutSpans :=
  { ownBuffers with backupEntries := ⟨0x10000, 16384⟩ }

theorem byte_val (block : Block size) (i : Fin size) : block.byte i = block i := by
  rw [byte, dif_pos i.isLt]

theorem hold_placed {spans : DiskLayoutSpans}
    (h : spans = ownBuffers ∨ spans = sharedBuffer) : spans.Hold (placed gpt) gpt := by
  have hmbr : ∀ i : Fin 512, placed gpt (0x1000 + i) = gpt.mbr i := fun i => by
    rw [placed, if_pos (by omega), Nat.add_sub_cancel_left, byte_val]
  have hprimary : ∀ i : Fin 512, placed gpt (0x2000 + i) = gpt.primaryHeader i := fun i => by
    rw [placed, if_neg (by omega), if_pos (by omega), Nat.add_sub_cancel_left, byte_val]
  have hbackup : ∀ i : Fin 512, placed gpt (0x3000 + i) = gpt.backupHeader i := fun i => by
    rw [placed, if_neg (by omega), if_neg (by omega), if_pos (by omega), Nat.add_sub_cancel_left,
      byte_val]
  have hentries : ∀ copy, 0 < copy → ∀ i : Fin 16384, placed gpt (0x10000 * copy + i) = gpt.entries i := by
    intro copy hcopy i
    rw [placed, if_neg (by omega), if_neg (by omega), if_neg (by omega), Nat.mul_add_mod,
      Nat.mod_eq_of_lt (by omega), byte_val]
  rcases h with rfl | rfl
  · exact ⟨funext hmbr, funext hprimary, funext (hentries 1 (by decide)), funext hbackup,
      funext (hentries 2 (by decide))⟩
  · exact ⟨funext hmbr, funext hprimary, funext (hentries 1 (by decide)), funext hbackup,
      funext (hentries 1 (by decide))⟩

end

/-- The smallest disk: its table passes from five buffers. -/
theorem gpt_inverse_small : ∃ gpt, diskLayoutBuild smallLayout = .ok gpt ∧
    diskLayoutValidateAt (placed gpt) smallLayout ownBuffers = .ok () := by
  rcases gpt_inverse.2 smallLayout valid_small (by decide) with ⟨gpt, hbuilt, hiff⟩
  refine ⟨gpt, hbuilt, (hiff _ ownBuffers (by decide)).mpr ⟨⟨?_, ?_⟩, hold_placed gpt (.inl rfl)⟩⟩
  all_goals decide

/-- The same table is refused where one buffer serves for both copies of the entries. -/
theorem validate_refuses_sharedBuffer : ∃ gpt, diskLayoutBuild smallLayout = .ok gpt ∧
    sharedBuffer.Sized ∧ sharedBuffer.Hold (placed gpt) gpt ∧
      diskLayoutValidateAt (placed gpt) smallLayout sharedBuffer = .error .einval := by
  refine ⟨_, diskLayoutBuild_eq valid_small, by decide, hold_placed _ (.inr rfl), ?_⟩
  rw [diskLayoutValidateAt, valid_small, if_neg (by simp), if_pos (by decide)]

end OpenXJ380.Installer
