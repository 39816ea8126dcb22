/-
# Blocks of bytes

A block is a buffer of fixed length. It is read one byte at a time and edited by
overwriting a piece of it; bytes past its end read as zero and cannot be written.
What a later proof needs from an edit is where it is visible, so each reading function
has two rules: one for the piece itself, and one for every place that the piece does not
touch.
-/

import Mathlib

namespace OpenXJ380.Data

open List

def Block (size : Nat) : Type := Fin size → UInt8

instance {size : Nat} : DecidableEq (Block size) := inferInstanceAs (DecidableEq (Fin size → UInt8))

namespace Block

variable {size : Nat}

def zeros : Block size := fun _ => 0

instance : Inhabited (Block size) := ⟨zeros⟩

section

variable (block : Block size)

def byte (i : Nat) : UInt8 :=
  if h : i < size then block ⟨i, h⟩ else 0

/-- Overwrite the bytes from `offset` on with a piece. -/
def splice (offset : Nat) (piece : List UInt8) : Block size :=
  fun i => if offset ≤ i.val ∧ i.val < offset + piece.length then piece.getD (i.val - offset) 0
    else block i

def slice (offset length : Nat) : List UInt8 :=
  (List.range length).map fun i => block.byte (offset + i)

def zero (offset length : Nat) : Block size := block.splice offset (List.replicate length 0)

def equal (offset : Nat) (bytes : List UInt8) : Bool := block.slice offset bytes.length == bytes

def allZero (offset length : Nat) : Bool := (block.slice offset length).all (· == 0)

end

variable {a b block : Block size} {offset length offset' : Nat} {piece : List UInt8}

theorem ext_byte (h : ∀ i < size, a.byte i = b.byte i) : a = b := by
  funext i
  simpa [byte] using h i.val i.isLt

@[simp]
theorem byte_zeros (i : Nat) : (zeros : Block size).byte i = 0 := by simp [byte, zeros]

theorem byte_splice_inside {i : Nat} (hlow : offset ≤ i) (hhigh : i < offset + piece.length)
    (hsize : i < size) :
    (block.splice offset piece).byte i = piece.getD (i - offset) 0 := by
  rw [byte, dif_pos hsize, splice, if_pos ⟨hlow, hhigh⟩]

theorem byte_splice_outside {i : Nat} (h : i < offset ∨ offset + piece.length ≤ i) :
    (block.splice offset piece).byte i = block.byte i := by
  rw [byte, byte]
  split
  · rw [splice, if_neg]
    dsimp only
    omega
  · rfl

/-- Two blocks agree on a stretch of bytes. -/
def Agree (a b : Block size) (offset length : Nat) : Prop :=
  ∀ i, offset ≤ i → i < offset + length → a.byte i = b.byte i

theorem Agree.trans {c : Block size} (hab : Agree a b offset length)
    (hbc : Agree b c offset length) : Agree a c offset length :=
  fun i hlow hhigh => (hab i hlow hhigh).trans (hbc i hlow hhigh)

theorem Agree.mono {length' : Nat} (h : Agree a b offset length) (hlow : offset ≤ offset')
    (hhigh : offset' + length' ≤ offset + length) : Agree a b offset' length' :=
  fun i hi hi' => h i (by omega) (by omega)

/-- An edit is invisible wherever its piece does not reach. -/
theorem agree_splice (block : Block size)
    (h : offset' + length ≤ offset ∨ offset + piece.length ≤ offset') :
    Agree (block.splice offset piece) block offset' length :=
  fun _ hlow hhigh => byte_splice_outside (by omega)

theorem Agree.slice (h : Agree a b offset length) :
    a.slice offset length = b.slice offset length := by
  apply map_congr_left
  intro i hi
  have hlt := mem_range.mp hi
  exact h _ (by omega) (by omega)

section

variable (block : Block size)

@[simp]
theorem length_slice (offset length : Nat) : (block.slice offset length).length = length := by
  simp [slice]

theorem slice_one (offset : Nat) : block.slice offset 1 = [block.byte offset] := rfl

theorem slice_two (offset : Nat) :
    block.slice offset 2 = [block.byte offset, block.byte (offset + 1)] := rfl

theorem slice_append (offset first second : Nat) : block.slice offset (first + second) =
      block.slice offset first ++ block.slice (offset + first) second := by
  rw [slice, slice, slice, range_add, map_append, map_map]
  congr 1
  apply map_congr_left
  intro i _
  simp [Nat.add_assoc]

end

theorem slice_splice_self {block : Block size} {offset : Nat} {piece : List UInt8}
    (h : offset + piece.length ≤ size) :
    (block.splice offset piece).slice offset piece.length = piece := by
  apply ext_getElem
  · simp
  · intro i hi hi'
    simp only [slice, getElem_map, getElem_range]
    rw [byte_splice_inside (by omega) (by omega) (by omega), Nat.add_sub_cancel_left,
      getD_eq_getElem piece 0 hi']

theorem equal_splice_self (h : offset + piece.length ≤ size) :
    (block.splice offset piece).equal offset piece = true := by
  rw [equal, slice_splice_self h, beq_self_eq_true]

theorem splice_eq_self (h : block.slice offset piece.length = piece) :
    block.splice offset piece = block := by
  funext i
  rw [splice]
  split
  case isFalse => rfl
  case isTrue hin =>
    have hi : i.val - offset < piece.length := by omega
    have hbyte : piece.getD (i.val - offset) 0 = block.byte (offset + (i.val - offset)) := by
      conv_lhs => rw [← h]
      rw [getD_eq_getElem _ 0 (by simpa using hi)]
      simp only [slice, getElem_map, getElem_range]
    rw [hbyte, Nat.add_sub_cancel' hin.1, byte, dif_pos i.isLt]

theorem splice_splice {first second : List UInt8} (h : first.length = second.length) :
    (block.splice offset first).splice offset second = block.splice offset second := by
  funext i
  simp only [splice, h]
  split <;> rfl

theorem allZero_iff : block.allZero offset length = true ↔ Agree block zeros offset length := by
  rw [allZero, all_eq_true]
  constructor
  · intro h i hlow hhigh
    have hmem : block.byte i ∈ block.slice offset length := by
      refine mem_map.mpr ⟨i - offset, mem_range.mpr (by omega), ?_⟩
      rw [Nat.add_sub_cancel' hlow]
    simpa using h _ hmem
  · intro h x hx
    rcases mem_map.mp hx with ⟨i, hi, rfl⟩
    have hlt := mem_range.mp hi
    simpa using h (offset + i) (by omega) (by omega)

theorem agree_zero (block : Block size) {count : Nat}
    (h : offset' + length ≤ offset ∨ offset + count ≤ offset') :
    Agree (block.zero offset count) block offset' length :=
  agree_splice block (by simpa using h)

end Block

variable (value : UInt32)

def crcBit : UInt32 := (value >>> 1) ^^^ (if value &&& 1 ≠ 0 then 0x82f63b78 else 0)

def crcByte (byte : UInt8) : UInt32 := crcBit^[8] (value ^^^ byte.toUInt32)

/-- The CRC-32C of some bytes, continued from an earlier value. -/
def crc32c (bytes : List UInt8) : UInt32 := bytes.foldl crcByte value

end OpenXJ380.Data
