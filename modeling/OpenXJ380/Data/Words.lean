/-
# Numbers in a block, low byte first

The same two rules as for bytes: a number that was stored is read back, and an edit that
does not reach a number leaves it as it is.
-/

import OpenXJ380.Data.Bytes
import OpenXJ380.Data.LittleEndian

namespace OpenXJ380.Data.Block

variable {size : Nat}

section

variable (block : Block size)

def get16 (offset : Nat) : Nat := decodeLE (block.slice offset 2)

def get32 (offset : Nat) : Nat := decodeLE (block.slice offset 4)

/-- Store the low sixteen bits of a number. -/
def set16 (offset value : Nat) : Block size := block.splice offset (encodeLE 2 value)

/-- Store the low thirty-two bits of a number. -/
def set32 (offset value : Nat) : Block size := block.splice offset (encodeLE 4 value)

def setByte (offset : Nat) (value : UInt8) : Block size := block.splice offset [value]

end

variable {block a b : Block size} {offset offset' length : Nat} {value : Nat}

theorem get16_set16 (hsize : offset + 2 ≤ size) (hvalue : value < 65536) :
    (block.set16 offset value).get16 offset = value := by
  have hslice := @slice_splice_self size block offset (encodeLE 2 value) (by simpa using hsize)
  rw [length_encodeLE] at hslice
  rw [get16, set16, hslice, decodeLE_encodeLE hvalue]

theorem get32_set32 (hsize : offset + 4 ≤ size) (hvalue : value < 4294967296) :
    (block.set32 offset value).get32 offset = value := by
  have hslice := @slice_splice_self size block offset (encodeLE 4 value) (by simpa using hsize)
  rw [length_encodeLE] at hslice
  rw [get32, set32, hslice, decodeLE_encodeLE hvalue]

theorem byte_setByte {value : UInt8} (hsize : offset < size) :
    (block.setByte offset value).byte offset = value := by
  rw [setByte, byte_splice_inside le_rfl (by simp) hsize]
  simp

theorem Agree.get16 (h : Agree a b offset 2) : a.get16 offset = b.get16 offset := by
  rw [Block.get16, Block.get16, h.slice]

theorem Agree.get32 (h : Agree a b offset 4) : a.get32 offset = b.get32 offset := by
  rw [Block.get32, Block.get32, h.slice]

theorem Agree.byte (h : Agree a b offset 1) : a.byte offset = b.byte offset :=
  h offset le_rfl (Nat.lt_succ_self _)

section

variable (block : Block size)

theorem agree_refl (offset length : Nat) : Agree block block offset length := fun _ _ _ => rfl

theorem agree_set16 (value : Nat) (h : offset' + length ≤ offset ∨ offset + 2 ≤ offset') :
    Agree (block.set16 offset value) block offset' length :=
  agree_splice block (by simpa using h)

theorem agree_set32 (value : Nat) (h : offset' + length ≤ offset ∨ offset + 4 ≤ offset') :
    Agree (block.set32 offset value) block offset' length :=
  agree_splice block (by simpa using h)

theorem agree_setByte (value : UInt8) (h : offset' + length ≤ offset ∨ offset + 1 ≤ offset') :
    Agree (block.setByte offset value) block offset' length :=
  agree_splice block (by simpa using h)

end

section Elsewhere

variable {block : Block size} {offset offset' : Nat} {piece : List UInt8}

theorem get16_splice_other (h : offset' + 2 ≤ offset ∨ offset + piece.length ≤ offset') :
    (block.splice offset piece).get16 offset' = block.get16 offset' :=
  (agree_splice block h).get16

theorem get32_splice_other (h : offset' + 4 ≤ offset ∨ offset + piece.length ≤ offset') :
    (block.splice offset piece).get32 offset' = block.get32 offset' :=
  (agree_splice block h).get32

variable {value count : Nat}

theorem get16_set16_other (h : offset' + 2 ≤ offset ∨ offset + 2 ≤ offset') :
    (block.set16 offset value).get16 offset' = block.get16 offset' :=
  (agree_set16 block value h).get16

theorem get32_set16_other (h : offset' + 4 ≤ offset ∨ offset + 2 ≤ offset') :
    (block.set16 offset value).get32 offset' = block.get32 offset' :=
  (agree_set16 block value h).get32

theorem byte_set16_other (h : offset' < offset ∨ offset + 2 ≤ offset') :
    (block.set16 offset value).byte offset' = block.byte offset' :=
  (agree_set16 block value (by omega)).byte

theorem get16_set32_other (h : offset' + 2 ≤ offset ∨ offset + 4 ≤ offset') :
    (block.set32 offset value).get16 offset' = block.get16 offset' :=
  (agree_set32 block value h).get16

theorem get32_set32_other (h : offset' + 4 ≤ offset ∨ offset + 4 ≤ offset') :
    (block.set32 offset value).get32 offset' = block.get32 offset' :=
  (agree_set32 block value h).get32

theorem byte_set32_other (h : offset' < offset ∨ offset + 4 ≤ offset') :
    (block.set32 offset value).byte offset' = block.byte offset' :=
  (agree_set32 block value (by omega)).byte

theorem get16_setByte_other {value : UInt8} (h : offset' + 2 ≤ offset ∨ offset + 1 ≤ offset') :
    (block.setByte offset value).get16 offset' = block.get16 offset' :=
  (agree_setByte block value h).get16

theorem get32_setByte_other {value : UInt8} (h : offset' + 4 ≤ offset ∨ offset + 1 ≤ offset') :
    (block.setByte offset value).get32 offset' = block.get32 offset' :=
  (agree_setByte block value h).get32

theorem byte_setByte_other {value : UInt8} (h : offset' < offset ∨ offset + 1 ≤ offset') :
    (block.setByte offset value).byte offset' = block.byte offset' :=
  (agree_setByte block value (by omega)).byte

/-- A cleared stretch is as in an empty block. -/
theorem agree_zero_zeros {length : Nat} (hlow : offset ≤ offset')
    (hhigh : offset' + length ≤ offset + count) :
    Agree (block.zero offset count) zeros offset' length := by
  intro i hi hi'
  rw [byte_zeros, zero]
  by_cases hsize : i < size
  · rw [byte_splice_inside (by omega) (by simp; omega) hsize]
    simp
  · rw [byte, dif_neg hsize]

variable (hlow : offset ≤ offset')
include hlow

theorem get16_zero (hhigh : offset' + 2 ≤ offset + count) :
    (block.zero offset count).get16 offset' = 0 := by
  rw [(agree_zero_zeros hlow hhigh).get16]
  simp [get16, slice, decodeLE]

theorem get32_zero (hhigh : offset' + 4 ≤ offset + count) :
    (block.zero offset count).get32 offset' = 0 := by
  rw [(agree_zero_zeros hlow hhigh).get32]
  simp [get32, slice, decodeLE]

theorem byte_zero (hhigh : offset' < offset + count) :
    (block.zero offset count).byte offset' = 0 := by
  have hagree : Agree (block.zero offset count) zeros offset' 1 := agree_zero_zeros hlow (by omega)
  rw [hagree.byte, byte_zeros]

end Elsewhere

end OpenXJ380.Data.Block
