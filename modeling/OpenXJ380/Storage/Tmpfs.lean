/-
# Files of tmpfs

`tmpfs_read`, `tmpfs_write` and `tmpfs_resize` (`src/driver/fs/vfs/tmpfs.cpp`) keep the bytes of
a file in a buffer with a size and a capacity. Growing the buffer and growing the file by a
resize clear the new part; a write behind the end does not. So the bytes that a shrinking
resize left behind the end come back when a later write begins further on, and only then.
-/

import OpenXJ380.Data.Memory
import OpenXJ380.Protocol.Run

namespace OpenXJ380.Tmpfs

open List Data Protocol

/-- `tmpfs_entry_t` of a file. -/
structure Entry where
  data : ByteMemory
  capacity : ℕ
  size : ℕ

/-- The loop of `tmpfs_reserve`. -/
def grow (want : ℕ) : ℕ → ℕ → Option ℕ
  | 0, _ => none
  | turns + 1, capacity =>
    if want ≤ capacity then some capacity
    else if capacity > (2 ^ 64 - 1) / 2 then none
    else grow want turns (capacity * 2)

/-- The turns are enough: a capacity of a page is past half of all sizes before they end. -/
theorem grow_enough {want turns capacity : ℕ} (h : 2 ^ 64 ≤ capacity * 2 ^ turns) :
    grow want (turns + 2) capacity = grow want (turns + 1) capacity := by
  induction turns generalizing capacity with
  | zero =>
    have hlarge : capacity > (2 ^ 64 - 1) / 2 := by omega
    simp only [grow, if_pos hlarge]
  | succ turns ih =>
    have hturns : 2 ^ 64 ≤ capacity * 2 * 2 ^ turns := by
      rwa [Nat.mul_assoc, Nat.mul_comm 2, ← Nat.pow_succ]
    rw [grow, ih hturns]
    rfl

namespace Entry

variable (entry : Entry) (granted : Bool)

/-- `tmpfs_reserve`, where `realloc` fails unless it is granted. -/
def reserve (want : ℕ) : Option Entry :=
  if want ≤ entry.capacity then some entry
  else
    match grow want 64 (if entry.capacity = 0 then 4096 else entry.capacity) with
    | none => none
    | some capacity =>
      if granted then
        some { entry with
          data := entry.data.write entry.capacity (.replicate (capacity - entry.capacity) 0)
          capacity }
      else none

/-- `tmpfs_read`. -/
def read (offset size : ℕ) : List UInt8 :=
  if offset ≥ entry.size then [] else entry.data.read offset (min size (entry.size - offset))

/-- `tmpfs_write`; nothing where it fails. -/
def write (offset : ℕ) (bytes : List UInt8) : Option Entry :=
  if offset > 2 ^ 64 - 1 - bytes.length then none
  else (entry.reserve granted (offset + bytes.length)).map fun entry =>
    { entry with
      data := entry.data.write offset bytes
      size := if offset + bytes.length > entry.size then offset + bytes.length else entry.size }

/-- `tmpfs_resize`. -/
def resize (size : ℕ) : Option Entry :=
  if size > 2 ^ 64 - 1 then none
  else (entry.reserve granted size).map fun entry =>
    { entry with
      data :=
        if size > entry.size then entry.data.write entry.size (.replicate (size - entry.size) 0)
        else entry.data
      size }

end Entry

/-- A write into an array, which is extended with zeros up to the offset. -/
def overlay (file : List UInt8) (offset : ℕ) (bytes : List UInt8) : List UInt8 :=
  (file ++ .replicate (offset - file.length) 0).take offset ++ bytes ++ file.drop (offset + bytes.length)

def resized (file : List UInt8) (size : ℕ) : List UInt8 :=
  file.take size ++ .replicate (size - file.length) 0

/-- A call, with what `realloc` answers. -/
inductive Call
  | write (granted : Bool) (offset : ℕ) (bytes : List UInt8)
  | resize (granted : Bool) (size : ℕ)

/-- A file next to its reference, and whether it was ever made shorter. -/
structure Pair where
  entry : Entry := ⟨fun _ => 0, 0, 0⟩
  file : List UInt8 := []
  shrunk : Bool := false

def step (pair : Pair) : Call → Pair
  | .write granted offset bytes =>
    match pair.entry.write granted offset bytes with
    | none => pair
    | some entry => { pair with entry, file := overlay pair.file offset bytes }
  | .resize granted size =>
    match pair.entry.resize granted size with
    | none => pair
    | some entry => ⟨entry, resized pair.file size, pair.shrunk || size < pair.file.length⟩

/-- A file that was made shorter is not written behind its end. -/
def Orderly (pair : Pair) : Call → Prop
  | .write _ offset _ => pair.shrunk = true → offset ≤ pair.file.length
  | .resize _ _ => True

/-- The array is the used part of the buffer, and the rest is clear if nothing was cut off. -/
structure Sound (pair : Pair) : Prop where
  length : pair.file.length = pair.entry.size
  file : ∀ i < pair.entry.size, pair.file[i]? = some (pair.entry.data i)
  fits : pair.entry.size ≤ pair.entry.capacity
  clear : pair.shrunk = false → ∀ i, pair.entry.size ≤ i → i < pair.entry.capacity → pair.entry.data i = 0

variable {entry entry' : Entry} {granted : Bool} {want : ℕ}

theorem write_replicate (data : ByteMemory) (start length i : ℕ) :
    data.write start (.replicate length 0) i = if start ≤ i ∧ i < start + length then 0 else data i := by
  unfold ByteMemory.write
  grind

theorem cleared (data : ByteMemory) (start stop i : ℕ) :
    (if stop > start then data.write start (.replicate (stop - start) 0) else data) i =
      if start ≤ i ∧ i < stop then 0 else data i := by
  split
  · rw [write_replicate]
    grind
  · rw [if_neg (by omega)]

theorem grow_le {turns capacity found : ℕ} (h : grow want turns capacity = some found) : want ≤ found := by
  induction turns generalizing capacity with
  | zero => cases h
  | succ turns ih =>
    rw [grow] at h
    split at h
    · cases h
      assumption
    · split at h
      · cases h
      · exact ih h

/-- A larger buffer has the old bytes and zeros. -/
theorem reserve_spec (h : entry.reserve granted want = some entry') :
    want ≤ entry'.capacity ∧ entry.capacity ≤ entry'.capacity ∧ entry'.size = entry.size ∧
      ∀ i < entry'.capacity, entry'.data i = if i < entry.capacity then entry.data i else 0 := by
  unfold Entry.reserve at h
  split at h
  · cases h
    exact ⟨‹_›, le_rfl, rfl, fun i hi => (if_pos hi).symm⟩
  split at h
  · cases h
  rename_i hsmall capacity hgrow
  have hwant := grow_le hgrow
  split at h
  · cases h
    simp only [write_replicate]
    grind
  · cases h

section

variable (file : List UInt8)

theorem length_overlay (offset : ℕ) (bytes : List UInt8) :
    (overlay file offset bytes).length = max file.length (offset + bytes.length) := by
  simp only [overlay, length_append, length_take, length_replicate, length_drop]
  omega

theorem overlay_getElem? (offset : ℕ) (bytes : List UInt8) (i : ℕ) :
    (overlay file offset bytes)[i]? =
      if i < offset then (if i < file.length then file[i]? else some 0)
      else if i < offset + bytes.length then bytes[i - offset]? else file[i]? := by
  have hfront : ((file ++ List.replicate (offset - file.length) 0).take offset).length = offset := by
    rw [length_take, length_append, length_replicate]
    omega
  rw [overlay, append_assoc, List.getElem?_append, hfront, List.getElem?_append,
    List.getElem?_drop, List.getElem?_take]
  grind

theorem resized_getElem? {size i : ℕ} (hi : i < size) :
    (resized file size)[i]? = if i < file.length then file[i]? else some 0 := by
  unfold resized
  grind

end

theorem sound_step {pair : Pair} (sound : Sound pair) (call : Call) (orderly : Orderly pair call) :
    Sound (step pair call) := by
  obtain ⟨hlength, hfile, hfits, hclear⟩ := sound
  cases call with
  | write granted offset bytes =>
    unfold step Entry.write
    dsimp only
    split
    · exact ⟨hlength, hfile, hfits, hclear⟩
    rename_i entry hwrite
    split at hwrite
    · cases hwrite
    obtain ⟨larger, hreserve, rfl⟩ := Option.map_eq_some_iff.mp hwrite
    obtain ⟨hwant, hcapacity, hsize, hdata⟩ := reserve_spec hreserve
    have hend : (if offset + bytes.length > larger.size then offset + bytes.length else larger.size) =
        max pair.file.length (offset + bytes.length) := by
      split <;> omega
    refine ⟨?_, ?_, ?_, ?_⟩
    all_goals dsimp only [Orderly] at *
    all_goals rw [hend]
    · exact length_overlay _ _ _
    · intro i hi
      rw [overlay_getElem?]
      unfold ByteMemory.write
      grind
    · omega
    · unfold ByteMemory.write
      grind
  | resize granted size =>
    unfold step Entry.resize
    dsimp only
    split
    · exact ⟨hlength, hfile, hfits, hclear⟩
    rename_i entry hresize
    split at hresize
    · cases hresize
    obtain ⟨larger, hreserve, rfl⟩ := Option.map_eq_some_iff.mp hresize
    obtain ⟨hwant, hcapacity, hsize, hdata⟩ := reserve_spec hreserve
    refine ⟨?_, ?_, hwant, ?_⟩
    · simp only [resized, length_append, length_take, length_replicate]
      omega
    · intro i hi
      rw [resized_getElem? _ hi]
      simp only [cleared]
      grind
    · simp only [cleared]
      grind

/-- After every sequence of calls in which a file that was made shorter is not written behind its
end, a read returns the bytes of the array. -/
theorem read_eq_reference {calls : List Call} (orderly : Along step Orderly {} calls) (offset size : ℕ) :
    (run step {} calls).entry.read offset size = ((run step {} calls).file.drop offset).take size := by
  have initially : Sound {} := ⟨rfl, by simp, le_rfl, fun _ _ _ _ => rfl⟩
  obtain ⟨hlength, hfile, -, -⟩ := invariant_run step Sound
    (fun _ call orderly sound => sound_step sound call orderly) orderly initially
  generalize run step {} calls = pair at hlength hfile ⊢
  unfold Entry.read
  split
  · rw [drop_eq_nil_of_le (by omega), take_nil]
  · refine ext_getElem? fun i => ?_
    simp only [ByteMemory.read]
    grind

/-- Two bytes are written, the file is emptied, and a byte is written at offset one. -/
def revived : List Call := [.write true 0 [7, 7], .resize true 0, .write true 1 [8]]

/-- The first byte of the file that was emptied is read again. -/
theorem read_revives_forgotten : (run step {} revived).entry.read 0 2 = [7, 8] ∧
    (run step {} revived).file = [0, 8] := by
  decide

/-- A byte behind a gap, a shorter file, a byte at its end, and a longer file. -/
def regrown : List Call := [.write true 2 [8], .resize true 1, .write true 1 [9], .resize true 4]

/-- The byte that was cut off reads as zero. -/
theorem read_eq_reference_gap : Along step Orderly {} regrown ∧
    (run step {} regrown).entry.read 0 4 = [0, 9, 0, 0] := by
  have orderly : Along step Orderly {} regrown :=
    ⟨fun shrunk => absurd shrunk (by decide), trivial, fun _ => by decide, trivial, trivial⟩
  exact ⟨orderly, (read_eq_reference orderly 0 4).trans (by decide)⟩

end OpenXJ380.Tmpfs
