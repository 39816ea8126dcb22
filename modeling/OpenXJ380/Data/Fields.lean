/-
# Numbers in a block, low byte first

A record of fixed layout in a block is a row of numbers and byte strings at fixed
offsets. Each is read back as it was written, whatever is written elsewhere in the block
afterwards.
-/

import OpenXJ380.Data.Bytes
import OpenXJ380.Data.LittleEndian

namespace OpenXJ380.Data.Block

variable {size : Nat} {block : Block size} {offset offset' length width width' value : Nat}
  {piece : List UInt8}

/-- The number in `width` bytes. -/
def little (block : Block size) (offset width : Nat) : Nat := decodeLE (block.slice offset width)

def putLittle (block : Block size) (offset width value : Nat) : Block size :=
  block.splice offset (encodeLE width value)

theorem slice_splice_apart (h : offset' + length ≤ offset ∨ offset + piece.length ≤ offset') :
    (block.splice offset piece).slice offset' length = block.slice offset' length :=
  (agree_splice block h).slice

theorem slice_putLittle_apart (h : offset' + length ≤ offset ∨ offset + width ≤ offset') :
    (block.putLittle offset width value).slice offset' length = block.slice offset' length :=
  slice_splice_apart (by rwa [length_encodeLE])

variable {bytes : List UInt8}

theorem equal_splice_apart (h : offset' + bytes.length ≤ offset ∨ offset + piece.length ≤ offset') :
    (block.splice offset piece).equal offset' bytes = block.equal offset' bytes := by
  rw [equal, slice_splice_apart h, equal]

theorem equal_putLittle_apart (h : offset' + bytes.length ≤ offset ∨ offset + width ≤ offset') :
    (block.putLittle offset width value).equal offset' bytes = block.equal offset' bytes := by
  rw [equal, slice_putLittle_apart h, equal]

theorem allZero_splice_apart (h : offset' + length ≤ offset ∨ offset + piece.length ≤ offset') :
    (block.splice offset piece).allZero offset' length = block.allZero offset' length := by
  rw [allZero, slice_splice_apart h, allZero]

theorem allZero_putLittle_apart (h : offset' + length ≤ offset ∨ offset + width ≤ offset') :
    (block.putLittle offset width value).allZero offset' length = block.allZero offset' length := by
  rw [allZero, slice_putLittle_apart h, allZero]

theorem little_splice_apart (h : offset' + width' ≤ offset ∨ offset + piece.length ≤ offset') :
    (block.splice offset piece).little offset' width' = block.little offset' width' := by
  rw [little, slice_splice_apart h, little]

theorem little_putLittle_apart (h : offset' + width' ≤ offset ∨ offset + width ≤ offset') :
    (block.putLittle offset width value).little offset' width' = block.little offset' width' := by
  rw [little, slice_putLittle_apart h, little]

theorem little_putLittle (hfits : offset + width ≤ size) (hvalue : value < 256 ^ width) :
    (block.putLittle offset width value).little offset width = value := by
  have hslice : (block.splice offset (encodeLE width value)).slice offset
      (encodeLE width value).length = encodeLE width value :=
    slice_splice_self (by rwa [length_encodeLE])
  rw [length_encodeLE] at hslice
  rw [little, putLittle, hslice, decodeLE_encodeLE hvalue]

theorem zero_putLittle : (block.putLittle offset width value).zero offset width =
    block.zero offset width :=
  splice_splice (by simp)

theorem slice_zeros : (zeros : Block size).slice offset length = List.replicate length 0 := by
  rw [slice, List.eq_replicate_iff]
  simp

theorem allZero_zeros : (zeros : Block size).allZero offset length = true := by
  simp [allZero, slice_zeros]

theorem decodeLE_replicate (width : Nat) : decodeLE (List.replicate width 0) = 0 := by
  induction width with
  | zero => rfl
  | succ width ih => simp [List.replicate_succ, decodeLE, ih]

theorem little_zeros : (zeros : Block size).little offset width = 0 := by
  rw [little, slice_zeros, decodeLE_replicate]

end OpenXJ380.Data.Block
