/-
# The partition table of a fresh disk

`src/kernel/installer/disk_layout.cpp` plans the ranges of a fresh installation, writes
the GPT that describes them and checks what was read back. The plan leaves one MiB at
each end of the disk, for the two copies of the table; the root comes first and the ESP
takes the rest.

Pointers are left out here, and with them the tests that buffers exist and do not
overlap. Sizes and block addresses are unbounded numbers: no sum of the source is
reached with values that would wrap.
-/

import OpenXJ380.Data.Fields
import OpenXJ380.Kernel.Errno

namespace OpenXJ380.Installer

open Data
open Block (little_putLittle zeros)

def diskSectorBytes : Nat := 512
def diskEntryCount : Nat := 128
def diskEntryBytes : Nat := 128
def diskTableBytes : Nat := 16384
def diskMiB : Nat := 1048576
def sectorsPerMiB : Nat := 2048
def tableSectors : Nat := 32
def headerBytes : Nat := 92

abbrev Sector : Type := Block 512
abbrev Guid : Type := Block 16
abbrev Table : Type := Block 16384

def rootType : List UInt8 :=
  [0xaf, 0x3d, 0xc6, 0x0f, 0x83, 0x84, 0x72, 0x47, 0x8e, 0x79, 0x3d, 0x69, 0xd8, 0x47, 0x7d, 0xe4]

def espType : List UInt8 :=
  [0x28, 0x73, 0x2a, 0xc1, 0x1f, 0xf8, 0xd2, 0x11, 0xba, 0x4b, 0x00, 0xa0, 0xc9, 0x3e, 0xc9, 0x3b]

/-- `EFI PART` -/
def signature : List UInt8 := [0x45, 0x46, 0x49, 0x20, 0x50, 0x41, 0x52, 0x54]

/-- `XJ380` -/
def rootLabel : List UInt8 := [0x58, 0x4a, 0x33, 0x38, 0x30]

/-- `ESP` -/
def espLabel : List UInt8 := [0x45, 0x53, 0x50]

structure DiskIdentities where
  disk : Guid
  root : Guid
  esp : Guid
  deriving DecidableEq

structure DiskLayoutOptions where
  diskBytes : Nat
  espBytes : Nat
  identities : DiskIdentities

structure DiskLayout where
  diskBytes : Nat
  totalSectors : Nat
  primaryEntriesLba : Nat
  backupEntriesLba : Nat
  firstUsableLba : Nat
  lastUsableLba : Nat
  rootFirstLba : Nat
  rootLastLba : Nat
  espFirstLba : Nat
  espLastLba : Nat
  identities : DiskIdentities
  deriving DecidableEq

structure DiskLayoutWorkspace where
  mbr : Sector
  primaryHeader : Sector
  backupHeader : Sector
  entries : Table

structure DiskLayoutReadback where
  mbr : Sector
  primaryHeader : Sector
  primaryEntries : Table
  backupHeader : Sector
  backupEntries : Table

def crc32Bit (state : UInt32) : UInt32 := (state >>> 1) ^^^ ((0 - (state &&& 1)) &&& 0xedb88320)

def crc32Byte (state : UInt32) (byte : UInt8) : UInt32 := crc32Bit^[8] (state ^^^ byte.toUInt32)

/-- The reflected IEEE checksum. -/
def crc32 (bytes : List UInt8) : UInt32 := bytes.foldl crc32Byte 0xffffffff ^^^ 0xffffffff

/-- The checksum of a header, with its own field counted as zero. -/
def crc32Header (header : Sector) : UInt32 := crc32 ((header.zero 16 4).slice 0 headerBytes)

def crc32Table (entries : Table) : UInt32 := crc32 (entries.slice 0 diskTableBytes)

def validIdentities (ids : DiskIdentities) : Bool :=
  !ids.disk.allZero 0 16 && !ids.root.allZero 0 16 && !ids.esp.allZero 0 16 &&
    ids.disk != ids.root && ids.disk != ids.esp && ids.root != ids.esp

def diskLayoutPlan (options : DiskLayoutOptions) : Except Errno DiskLayout :=
  if options.diskBytes % diskMiB ≠ 0 ∨ options.espBytes % diskMiB ≠ 0 ∨
      options.diskBytes < 98 * diskMiB ∨ options.espBytes < 64 * diskMiB ∨
      options.espBytes > options.diskBytes - 2 * diskMiB ∨
      options.diskBytes - 2 * diskMiB - options.espBytes < 32 * diskMiB ∨
      validIdentities options.identities = false then
    .error .einval
  else
    let total := options.diskBytes / diskSectorBytes
    let espFirst := total - sectorsPerMiB - options.espBytes / diskSectorBytes
    .ok
      { diskBytes := options.diskBytes
        totalSectors := total
        primaryEntriesLba := 2
        backupEntriesLba := total - 1 - tableSectors
        firstUsableLba := 2 + tableSectors
        lastUsableLba := total - 2 - tableSectors
        rootFirstLba := sectorsPerMiB
        rootLastLba := espFirst - 1
        espFirstLba := espFirst
        espLastLba := total - sectorsPerMiB - 1
        identities := options.identities }

/-- The geometry is computed again, never taken from the caller. -/
def validLayout (layout : DiskLayout) : Bool :=
  if layout.espFirstLba > layout.espLastLba ∨
      layout.espLastLba - layout.espFirstLba ≥ (2 ^ 64 - 1) / diskSectorBytes then false
  else
    match diskLayoutPlan
        { diskBytes := layout.diskBytes
          espBytes := (layout.espLastLba - layout.espFirstLba + 1) * diskSectorBytes
          identities := layout.identities } with
    | .error _ => false
    | .ok expected => layout == expected

section

variable (layout : DiskLayout)

def protectiveSize : Nat :=
  if layout.totalSectors - 1 > 0xffffffff then 0xffffffff else layout.totalSectors - 1

def makeMbr : Sector :=
  let mbr : Sector := zeros
  let mbr := mbr.splice 448 [2]
  let mbr := mbr.splice 450 [0xee, 0xff, 0xff, 0xff]
  let mbr := mbr.putLittle 454 4 1
  let mbr := mbr.putLittle 458 4 (protectiveSize layout)
  mbr.splice 510 [0x55, 0xaa]

def makeEntry (table : Table) (offset : Nat) (type : List UInt8) (identity : Guid)
    (first last : Nat) (label : List UInt8) : Table :=
  let table := table.splice offset type
  let table := table.splice (offset + 16) (identity.slice 0 16)
  let table := table.putLittle (offset + 32) 8 first
  let table := table.putLittle (offset + 40) 8 last
  label.zipIdx.foldl (fun table char => table.splice (offset + 56 + char.2 * 2) [char.1]) table

def makeHeader (tableCrc : UInt32) (backup : Bool) : Sector :=
  let header : Sector := zeros
  let header := header.splice 0 signature
  let header := header.putLittle 8 4 0x00010000
  let header := header.putLittle 12 4 headerBytes
  let header := header.putLittle 24 8 (if backup then layout.totalSectors - 1 else 1)
  let header := header.putLittle 32 8 (if backup then 1 else layout.totalSectors - 1)
  let header := header.putLittle 40 8 layout.firstUsableLba
  let header := header.putLittle 48 8 layout.lastUsableLba
  let header := header.splice 56 (layout.identities.disk.slice 0 16)
  let header := header.putLittle 72 8
    (if backup then layout.backupEntriesLba else layout.primaryEntriesLba)
  let header := header.putLittle 80 4 diskEntryCount
  let header := header.putLittle 84 4 diskEntryBytes
  let header := header.putLittle 88 4 tableCrc.toNat
  header.putLittle 16 4 (crc32Header header).toNat

def diskLayoutBuild : Except Errno DiskLayoutWorkspace :=
  if validLayout layout then
    let entries : Table := zeros
    let entries := makeEntry entries 0 rootType layout.identities.root layout.rootFirstLba
      layout.rootLastLba rootLabel
    let entries := makeEntry entries diskEntryBytes espType layout.identities.esp
      layout.espFirstLba layout.espLastLba espLabel
    .ok
      { mbr := makeMbr layout
        primaryHeader := makeHeader layout (crc32Table entries) false
        backupHeader := makeHeader layout (crc32Table entries) true
        entries := entries }
  else .error .einval

end

section

variable (layout : DiskLayout)

def checkMbr (mbr : Sector) : Bool :=
  mbr.allZero 0 448 && mbr.equal 448 [2, 0, 0xee, 0xff, 0xff, 0xff] && mbr.little 454 4 == 1 &&
    mbr.little 458 4 == protectiveSize layout && mbr.allZero 462 48 && mbr.equal 510 [0x55, 0xaa]

def checkHeader (header : Sector) (tableCrc : UInt32) (backup : Bool) : Bool :=
  header.equal 0 signature && header.little 8 4 == 0x00010000 && header.little 12 4 == headerBytes &&
    header.little 16 4 == (crc32Header header).toNat && header.little 20 4 == 0 &&
    header.little 24 8 == (if backup then layout.totalSectors - 1 else 1) &&
    header.little 32 8 == (if backup then 1 else layout.totalSectors - 1) &&
    header.little 40 8 == layout.firstUsableLba && header.little 48 8 == layout.lastUsableLba &&
    header.equal 56 (layout.identities.disk.slice 0 16) &&
    header.little 72 8 == (if backup then layout.backupEntriesLba else layout.primaryEntriesLba) &&
    header.little 80 4 == diskEntryCount && header.little 84 4 == diskEntryBytes &&
    header.little 88 4 == tableCrc.toNat && header.allZero headerBytes (diskSectorBytes - headerBytes)

def checkEntry (table : Table) (offset : Nat) (type : List UInt8) (identity : Guid)
    (first last : Nat) (label : List UInt8) : Bool :=
  table.equal offset type && table.equal (offset + 16) (identity.slice 0 16) &&
    table.little (offset + 32) 8 == first && table.little (offset + 40) 8 == last &&
    table.little (offset + 48) 8 == 0 &&
    label.zipIdx.all (fun char => table.equal (offset + 56 + char.2 * 2) [char.1, 0]) &&
    table.allZero (offset + 56 + label.length * 2) (72 - label.length * 2)

def diskLayoutValidate (readback : DiskLayoutReadback) : Except Errno Unit :=
  let entries := readback.primaryEntries
  if validLayout layout = false ∨ checkMbr layout readback.mbr = false ∨
      entries ≠ readback.backupEntries ∨
      checkEntry entries 0 rootType layout.identities.root layout.rootFirstLba layout.rootLastLba
        rootLabel = false ∨
      checkEntry entries diskEntryBytes espType layout.identities.esp layout.espFirstLba
        layout.espLastLba espLabel = false ∨
      entries.allZero (2 * diskEntryBytes) (diskTableBytes - 2 * diskEntryBytes) = false then
    .error .einval
  else if checkHeader layout readback.primaryHeader (crc32Table entries) false = true ∧
      checkHeader layout readback.backupHeader (crc32Table entries) true = true then .ok ()
  else .error .einval

end

/-- The two ends of the disk, the root and the ESP do not touch, and the ESP is a whole
number of MiB. -/
structure DiskLayout.Planned (layout : DiskLayout) : Prop where
  primary : layout.primaryEntriesLba = 2
  root : layout.rootFirstLba = sectorsPerMiB
  root_lt : layout.rootFirstLba < layout.rootLastLba
  root_last : layout.rootLastLba + 1 = layout.espFirstLba
  esp_lt : layout.espFirstLba < layout.espLastLba
  esp_last : layout.espLastLba + sectorsPerMiB + 1 = layout.totalSectors
  backup : layout.backupEntriesLba + tableSectors + 1 = layout.totalSectors
  aligned : sectorsPerMiB ∣ layout.espLastLba + 1 - layout.espFirstLba

variable {layout : DiskLayout}

theorem planned_of_plan {options : DiskLayoutOptions} (h : diskLayoutPlan options = .ok layout) :
    layout.Planned := by
  unfold diskLayoutPlan at h
  split at h
  next => cases h
  next hrefused =>
    cases h
    simp only [not_or, not_not, not_lt, diskMiB, gt_iff_lt] at hrefused
    constructor <;> simp only [sectorsPerMiB, diskSectorBytes, tableSectors] <;> omega

theorem checkHeader_zeros (layout : DiskLayout) (tableCrc : UInt32) (backup : Bool) :
    checkHeader layout zeros tableCrc backup = false := by
  have hsignature : (zeros : Sector).equal 0 signature = false := by decide
  simp [checkHeader, hsignature]

theorem checkHeader_makeHeader (tableCrc : UInt32) (backup : Bool)
    (htotal : layout.totalSectors < 2 ^ 64) (hfirst : layout.firstUsableLba < 2 ^ 64)
    (hlast : layout.lastUsableLba < 2 ^ 64) (hprimary : layout.primaryEntriesLba < 2 ^ 64)
    (hbackup : layout.backupEntriesLba < 2 ^ 64) :
    checkHeader layout (makeHeader layout tableCrc backup) tableCrc backup = true := by
  have hown : (if backup then layout.totalSectors - 1 else 1) < 256 ^ 8 := by split <;> omega
  have hother : (if backup then 1 else layout.totalSectors - 1) < 256 ^ 8 := by split <;> omega
  have htable : (if backup then layout.backupEntriesLba else layout.primaryEntriesLba) < 256 ^ 8 := by
    split <;> omega
  have hlength : signature.length = 8 := rfl
  -- Every field is looked up past the ones that were written later.
  simp (disch := simp [hlength, headerBytes, diskSectorBytes]) only [checkHeader, makeHeader,
    Bool.and_eq_true, beq_iff_eq, crc32Header, Block.zero_putLittle, Block.equal_putLittle_apart,
    Block.equal_splice_apart, Block.little_putLittle_apart, Block.little_splice_apart,
    Block.little_zeros, Block.allZero_putLittle_apart, Block.allZero_splice_apart]
  refine ⟨⟨⟨⟨⟨⟨⟨⟨⟨⟨⟨⟨⟨⟨?_, ?_⟩, ?_⟩, ?_⟩, trivial⟩, ?_⟩, ?_⟩, ?_⟩, ?_⟩, ?_⟩, ?_⟩, ?_⟩, ?_⟩, ?_⟩, ?_⟩
  · exact Block.equal_splice_self (by simp [hlength])
  · exact little_putLittle (by simp) (by simp)
  · exact little_putLittle (by simp) (by simp [headerBytes])
  · exact little_putLittle (by simp) (UInt32.toNat_lt _)
  · exact little_putLittle (by simp) hown
  · exact little_putLittle (by simp) hother
  · exact little_putLittle (by simp) hfirst
  · exact little_putLittle (by simp) hlast
  · exact Block.equal_splice_self (by simp)
  · exact little_putLittle (by simp) htable
  · exact little_putLittle (by simp) (by simp [diskEntryCount])
  · exact little_putLittle (by simp) (by simp [diskEntryBytes])
  · exact little_putLittle (by simp) (UInt32.toNat_lt _)
  · exact Block.allZero_zeros

theorem headers_of_build {gpt : DiskLayoutWorkspace} (h : diskLayoutBuild layout = .ok gpt) :
    gpt.primaryHeader = makeHeader layout (crc32Table gpt.entries) false ∧
      gpt.backupHeader = makeHeader layout (crc32Table gpt.entries) true := by
  unfold diskLayoutBuild at h
  split at h
  next =>
    cases h
    exact ⟨rfl, rfl⟩
  next => cases h

/-- A disk of 98 MiB. -/
def smallOptions : DiskLayoutOptions :=
  ⟨98 * diskMiB, 64 * diskMiB, ⟨fun _ => 1, fun _ => 2, fun _ => 3⟩⟩

def smallLayout : DiskLayout :=
  ⟨98 * diskMiB, 200704, 2, 200671, 34, 200670, 2048, 67583, 67584, 198655, smallOptions.identities⟩

theorem plan_small : diskLayoutPlan smallOptions = .ok smallLayout := if_neg (by decide)

theorem valid_small : validLayout smallLayout = true := by decide

end OpenXJ380.Installer
