/-
# Sectors under FatFs

`disk_read` and `disk_write` (`src/driver/fs/fatfs/diskio.cpp`) give FatFs the sectors of a
device. Small reads go through a read-ahead buffer, which every write invalidates. Sector
numbers and counts have 32 bits and are multiplied by the sector size in 32 bits, so that a
number from `2 ^ 23` on names another sector; and a read through the buffer that reaches past
the end of the device returns what the buffer held before.

A device call moves everything or is cut short, as it always is at the end of the device; then it
leaves anything where it was to write. Sectors are of any type.
-/

import OpenXJ380.Protocol.Run

namespace OpenXJ380.Fat

open Protocol

variable {β : Type}

/-- The device, its `fatfs_read_cache_t`, and what the successful writes have left in each sector,
as far as no failed one touched it later. -/
structure Drive (β : Type) where
  disk : ℕ → β
  total : ℕ
  valid : Bool := false
  start : ℕ := 0
  count : ℕ := 0
  data : ℕ → β
  expected : ℕ → Option β

/-- The sector at the byte offset `sector * 0x200`. -/
def addressed (sector : ℕ) : ℕ := sector * 0x200 % 2 ^ 32 / 0x200

namespace Drive

variable (drive : Drive β) (full ahead : Bool) (sector count : ℕ) (buff torn : ℕ → β)

/-- Whether a device call from a sector on moves everything. -/
def complete (count : ℕ) : Bool := full && (count = 0 || addressed sector + count ≤ drive.total)

/-- `fatfs_cache_covers`. -/
def cacheCovers : Bool :=
  drive.valid && drive.start ≤ sector && sector + count ≤ drive.start + drive.count

/-- `fatfs_cache_fill`, with a buffer of `FATFS_READAHEAD_BYTES`. -/
def cacheFill : Bool × Drive β :=
  if sector ≥ drive.total then (false, drive)
  else
    let toRead := min (max 1024 count) (drive.total - sector)
    if drive.complete full sector toRead then
      (true, { drive with
        data := fun i => if i < toRead then drive.disk (addressed sector + i) else drive.data i
        start := sector, count := toRead, valid := true })
    else (false, { drive with data := torn, valid := false })

/-- The buffer is filled where it does not cover the request. -/
def cachePrepare : Bool × Drive β :=
  if drive.cacheCovers sector count then (true, drive) else drive.cacheFill full sector count torn

/-- `disk_read`: the sectors in case of `RES_OK`. Read-ahead is used where it is allowed and there
is a buffer. -/
def diskRead : Option (ℕ → β) × Drive β :=
  if count = 0 then (none, drive)
  else if ahead && count ≤ 8 then
    let (ok, drive) := drive.cachePrepare full sector count torn
    (if ok then some fun i => drive.data (sector - drive.start + i) else none, drive)
  else
    (if drive.complete full sector count then some fun i => drive.disk (addressed sector + i)
      else none, { drive with valid := false })

/-- The sectors from one on are replaced. -/
def overwrite {γ : Type} (old : ℕ → γ) (first count : ℕ) (new : ℕ → γ) : ℕ → γ := fun s =>
  if first ≤ s ∧ s < first + count then new (s - first) else old s

/-- `disk_write`, whether it is `RES_OK`. -/
def diskWrite : Bool × Drive β :=
  let sectors := count * 0x200 % 2 ^ 32 / 0x200
  if drive.complete full sector sectors then
    (true, { drive with
      valid := false
      disk := overwrite drive.disk (addressed sector) sectors buff
      expected := overwrite drive.expected sector count (some ∘ buff) })
  else
    (false, { drive with
      valid := false
      disk := overwrite drive.disk (addressed sector) sectors torn
      expected := overwrite drive.expected sector count fun _ => none })

end Drive

open Drive

inductive Call (β : Type)
  | read (full ahead : Bool) (sector count : ℕ) (torn : ℕ → β)
  | write (full : Bool) (sector count : ℕ) (buff torn : ℕ → β)

def step (drive : Drive β) : Call β → Drive β
  | .read full ahead sector count torn => (drive.diskRead full ahead sector count torn).2
  | .write full sector count buff torn => (drive.diskWrite full sector count buff torn).2

/-- Numbers that can be multiplied by the sector size, and no read-ahead past the end. -/
def Within (drive : Drive β) : Call β → Prop
  | .read _ ahead sector count _ => sector < 2 ^ 23 ∧
    (ahead = true → count ≤ 8 → sector + count ≤ drive.total)
  | .write _ sector count _ _ => sector < 2 ^ 23 ∧ count < 2 ^ 23

theorem addressed_eq {sector : ℕ} (h : sector < 2 ^ 23) : addressed sector = sector := by
  unfold addressed
  omega

/-- The device has what is expected of it, and the buffer what is on the device. -/
structure Sound (drive : Drive β) : Prop where
  expected : ∀ s v, drive.expected s = some v → drive.disk s = v
  cached : drive.valid = true → drive.start + drive.count ≤ drive.total ∧
    ∀ i < drive.count, drive.data i = drive.disk (drive.start + i)

variable {drive : Drive β} {full ahead : Bool} {sector count : ℕ} {buff torn : ℕ → β}

section

variable (sound : Sound drive)
include sound

/-- Sectors that the buffer covers are read from it as they are on the device. -/
theorem Sound.covered (covers : drive.cacheCovers sector count = true) :
    sector + count ≤ drive.total ∧
      ∀ i < count, drive.data (sector - drive.start + i) = drive.disk (sector + i) := by
  simp only [cacheCovers, Bool.and_eq_true, decide_eq_true_eq] at covers
  obtain ⟨⟨hvalid, hstart⟩, hend⟩ := covers
  obtain ⟨hinside, hdata⟩ := sound.cached hvalid
  refine ⟨by omega, fun i hi => ?_⟩
  rw [hdata _ (by omega), show drive.start + (sector - drive.start + i) = sector + i by omega]

theorem cachePrepare_spec (hsector : sector < 2 ^ 23)
    (hinside : sector + count ≤ drive.total) {ok : Bool} {later : Drive β}
    (h : drive.cachePrepare full sector count torn = (ok, later)) :
    Sound later ∧ (ok = true →
      ∀ i < count, later.data (sector - later.start + i) = drive.disk (sector + i)) := by
  unfold cachePrepare cacheFill at h
  split at h
  · cases h
    exact ⟨sound, fun _ => (sound.covered ‹_›).2⟩
  split at h
  · cases h
    exact ⟨sound, by simp⟩
  dsimp only at h
  split at h
  · cases h
    rw [addressed_eq hsector]
    refine ⟨⟨sound.expected, fun _ => ⟨?_, fun i hi => if_pos hi⟩⟩, fun _ i hi => ?_⟩
    · dsimp only
      omega
    · rw [Nat.sub_self, Nat.zero_add]
      exact if_pos (by omega)
  · cases h
    exact ⟨⟨sound.expected, by simp⟩, by simp⟩

theorem diskRead_spec (within : Within drive (.read full ahead sector count torn)) :
    Sound (drive.diskRead full ahead sector count torn).2 ∧
      ∀ sectors, (drive.diskRead full ahead sector count torn).1 = some sectors →
        sector + count ≤ drive.total ∧ ∀ i < count, sectors i = drive.disk (sector + i) := by
  obtain ⟨hsector, hinside⟩ := within
  unfold diskRead
  split
  · exact ⟨sound, by simp⟩
  rename_i hzero
  split
  · rename_i hahead
    simp only [Bool.and_eq_true, decide_eq_true_eq] at hahead
    have hinside := hinside hahead.1 hahead.2
    obtain ⟨hsound, hdata⟩ := cachePrepare_spec sound hsector hinside rfl
    refine ⟨hsound, fun sectors h => ?_⟩
    obtain ⟨hok, rfl⟩ : _ ∧ _ = sectors := by simpa using h
    exact ⟨hinside, hdata hok⟩
  · refine ⟨⟨sound.expected, by simp⟩, fun sectors h => ?_⟩
    obtain ⟨hcomplete, rfl⟩ : _ ∧ _ = sectors := by simpa using h
    simp only [complete, addressed_eq hsector, Bool.and_eq_true, Bool.or_eq_true,
      decide_eq_true_eq] at hcomplete
    exact ⟨hcomplete.2.resolve_left hzero, fun i _ => by rw [addressed_eq hsector]⟩

end

theorem overwrite_agrees {expected m : ℕ → Option β} {disk new : ℕ → β}
    (h : ∀ s v, expected s = some v → disk s = v) {s : ℕ} {v : β}
    (hs : overwrite expected sector count m s = some v)
    (hnew : ∀ i v, m i = some v → new i = v) : overwrite disk sector count new s = v := by
  unfold overwrite at hs ⊢
  split at hs
  · rw [if_pos ‹_›]
    exact hnew _ v hs
  · rw [if_neg ‹_›]
    exact h s v hs

theorem diskWrite_spec (sound : Sound drive)
    (within : Within drive (.write full sector count buff torn)) :
    Sound (drive.diskWrite full sector count buff torn).2 ∧
      ((drive.diskWrite full sector count buff torn).1 = true →
        (count = 0 ∨ sector + count ≤ drive.total) ∧
        (drive.diskWrite full sector count buff torn).2.disk =
          overwrite drive.disk sector count buff) := by
  have hsectors : count * 0x200 % 2 ^ 32 / 0x200 = count := addressed_eq within.2
  unfold diskWrite
  rw [addressed_eq within.1, hsectors]
  dsimp only
  split
  · rename_i hcomplete
    simp only [complete, addressed_eq within.1, Bool.and_eq_true, Bool.or_eq_true,
      decide_eq_true_eq] at hcomplete
    refine ⟨⟨fun s v h => ?_, by simp⟩, fun _ => ⟨hcomplete.2, rfl⟩⟩
    exact overwrite_agrees sound.expected h fun _ _ => Option.some.inj
  · refine ⟨⟨fun s v h => ?_, by simp⟩, by simp⟩
    exact overwrite_agrees (m := fun _ => none) sound.expected h fun _ _ => nofun

theorem sound_step {call : Call β} (sound : Sound drive) (within : Within drive call) :
    Sound (step drive call) := by
  cases call with
  | read full ahead sector count torn => exact (diskRead_spec sound within).1
  | write full sector count buff torn => exact (diskWrite_spec sound within).1

/-- A device before the first call. -/
def fresh (disk data : ℕ → β) (total : ℕ) : Drive β where
  disk := disk
  total := total
  data := data
  expected := some ∘ disk

/-- Calls with numbers that can be multiplied by the sector size, whose reads stay inside the device
where read-ahead is used, treat the device as an array of sectors: a successful read returns what the
successful writes have left, a successful write changes exactly its sectors, and neither reaches past
the end. -/
theorem diskio_array {disk data : ℕ → β} {total : ℕ} {calls : List (Call β)}
    (within : Along step Within (fresh disk data total) calls) :
    let drive := run step (fresh disk data total) calls
    (∀ full ahead sector count torn sectors, Within drive (.read full ahead sector count torn) →
      (drive.diskRead full ahead sector count torn).1 = some sectors → sector + count ≤ drive.total ∧
        ∀ i < count, ∀ v, drive.expected (sector + i) = some v → sectors i = v) ∧
    ∀ full sector count buff torn, Within drive (.write full sector count buff torn) →
      (drive.diskWrite full sector count buff torn).1 = true →
        (count = 0 ∨ sector + count ≤ drive.total) ∧
        (drive.diskWrite full sector count buff torn).2.disk =
          overwrite drive.disk sector count buff := by
  have sound := invariant_run step Sound (fun _ _ ok inv => sound_step inv ok) within
    ⟨fun s v h => by simpa [fresh] using h, by simp [fresh]⟩
  refine ⟨fun full ahead sector count torn sectors ok h => ?_, fun full sector count buff torn ok =>
    (diskWrite_spec sound ok).2⟩
  obtain ⟨hinside, hsectors⟩ := (diskRead_spec sound ok).2 sectors h
  exact ⟨hinside, fun i hi v hv => (hsectors i hi).trans (sound.expected _ v hv)⟩

/-- A device of `2 ^ 24` sectors, of which each holds its number. -/
def numbered : Drive ℕ := fresh id id (2 ^ 24)

/-- Sector `2 ^ 23` is read, and written, as sector 0; and a read past the end of three sectors
succeeds with what was in the buffer. -/
theorem sector_numbers_wrap :
    (numbered.diskRead true false (2 ^ 23) 1 id).1.map (fun sectors => sectors 0) = some 0 ∧
      (numbered.diskWrite true (2 ^ 23) 1 (fun _ => 7) id).1 = true ∧
      (numbered.diskWrite true (2 ^ 23) 1 (fun _ => 7) id).2.disk 0 = 7 ∧
      ((fresh id (fun _ => 9) 3).diskRead true true 2 2 id).1.map (fun sectors => sectors 1) =
        some 9 := by
  decide

/-- A sector is written and read. -/
theorem diskio_array_small :
    let drive := run step (fresh id id 4) [.write true 1 1 (fun _ => 7) id]
    Along step Within (fresh id id 4) [.write true 1 1 (fun _ => 7) id] ∧
      ∃ sectors, (drive.diskRead true true 1 2 id).1 = some sectors ∧ sectors 0 = 7 := by
  have within : Along step Within (fresh id id 4) [.write true 1 1 (fun _ => 7) id] :=
    ⟨⟨by decide, by decide⟩, trivial⟩
  exact ⟨within, _, rfl, ((diskio_array within).1 true true 1 2 id _
    ⟨by decide, fun _ _ => by decide⟩ rfl).2 0 (by decide) 7 rfl⟩

end OpenXJ380.Fat
