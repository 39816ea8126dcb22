/-
# The FNV-1a checksum

A file that carries its own checksum is summed up with the four bytes of the checksum
counted as zero, so the sum does not depend on what stands there.
-/

import Mathlib

namespace OpenXJ380.Data

open List

def fnvByte (hash : UInt32) (byte : UInt8) : UInt32 := (hash ^^^ byte.toUInt32) * 16777619

def fnv1a (bytes : List UInt8) : UInt32 := bytes.foldl fnvByte 2166136261

/-- The checksum with the four bytes from `skipped` on counted as zero. -/
def fnv1aSkipping (skipped : Nat) (bytes : List UInt8) : UInt32 :=
  fnv1a (bytes.mapIdx fun i byte => if skipped ≤ i ∧ i < skipped + 4 then 0 else byte)

theorem fnv1aSkipping_append {front field rest : List UInt8} (hfield : field.length = 4) :
    fnv1aSkipping front.length (front ++ (field ++ rest)) =
      fnv1a (front ++ (List.replicate 4 0 ++ rest)) := by
  rw [fnv1aSkipping]
  congr 1
  apply ext_getElem
  · simp only [length_mapIdx, length_append, length_replicate, hfield]
  intro i hi hi'
  rw [getElem_mapIdx]
  by_cases hlow : i < front.length
  · rw [if_neg (by omega), getElem_append_left hlow, getElem_append_left hlow]
  have hge := Nat.le_of_not_lt hlow
  rw [getElem_append_right hge, getElem_append_right hge]
  by_cases hhigh : i < front.length + 4
  · rw [if_pos ⟨hge, hhigh⟩, getElem_append_left (by rw [length_replicate]; omega),
      getElem_replicate]
  · rw [if_neg (by omega), getElem_append_right (by omega),
      getElem_append_right (by rw [length_replicate]; omega)]
    simp only [hfield, length_replicate]

end OpenXJ380.Data
