/-
# Blocks that are written piece by piece

A record of fixed layout is written into a cleared block as a row of pieces. When the
pieces do not overlap, a block is the written one exactly if each piece is found at its
place and every other byte is zero (`eq_spliceAll_iff`). That is what a reader checks
who looks at one field after the other.
-/

import OpenXJ380.Data.Fields

namespace OpenXJ380.Data.Block

open List

variable {size : Nat} {block a b : Block size} {pieces : List (Nat × List UInt8)} {i : Nat}

/-- The byte at `i` is one of the piece. -/
def Touches (piece : Nat × List UInt8) (i : Nat) : Prop :=
  piece.1 ≤ i ∧ i < piece.1 + piece.2.length

section

variable (block : Block size)

section

variable (pieces : List (Nat × List UInt8))

/-- Write the pieces one after the other. -/
def spliceAll : Block size := pieces.foldl (fun block piece => block.splice piece.1 piece.2) block

/-- Every piece is found at its place. -/
def Shows : Prop := ∀ piece ∈ pieces, block.slice piece.1 piece.2.length = piece.2

/-- The pieces do not overlap. -/
def Separate : Prop := pieces.Pairwise fun first second =>
    first.1 + first.2.length ≤ second.1 ∨ second.1 + second.2.length ≤ first.1

end

theorem spliceAll_append (first second : List (Nat × List UInt8)) :
    block.spliceAll (first ++ second) = (block.spliceAll first).spliceAll second :=
  foldl_append

end

theorem byte_spliceAll_outside (h : ∀ piece ∈ pieces, ¬ Touches piece i) :
    (block.spliceAll pieces).byte i = block.byte i := by
  induction pieces generalizing block with
  | nil => rfl
  | cons piece pieces ih =>
    have hhead := h piece (mem_cons_self ..)
    refine (ih fun other hother => h other (mem_cons_of_mem _ hother)).trans ?_
    apply byte_splice_outside
    rw [Touches] at hhead
    omega

theorem Shows.spliceAll_eq (h : block.Shows pieces) : block.spliceAll pieces = block := by
  induction pieces with
  | nil => rfl
  | cons piece pieces ih =>
    rw [spliceAll, foldl_cons, splice_eq_self (h piece (mem_cons_self ..))]
    exact ih fun other hother => h other (mem_cons_of_mem _ hother)

/-- What the blocks were before counts only where no piece is written. -/
theorem spliceAll_congr
    (h : ∀ i < size, (∀ piece ∈ pieces, ¬ Touches piece i) → a.byte i = b.byte i) :
    a.spliceAll pieces = b.spliceAll pieces := by
  induction pieces generalizing a b with
  | nil => exact ext_byte fun i hi => h i hi (by simp)
  | cons piece pieces ih =>
    apply ih
    intro i hi huntouched
    by_cases hin : Touches piece i
    · rw [byte_splice_inside hin.1 hin.2 hi, byte_splice_inside hin.1 hin.2 hi]
    · have hout : i < piece.1 ∨ piece.1 + piece.2.length ≤ i := by
        rw [Touches] at hin
        omega
      rw [byte_splice_outside hout, byte_splice_outside hout]
      exact h i hi (forall_mem_cons.mpr ⟨hin, huntouched⟩)

variable {offset : Nat} {length : Nat}

theorem agree_spliceAll
    (h : ∀ piece ∈ pieces, offset + length ≤ piece.1 ∨ piece.1 + piece.2.length ≤ offset) :
    Agree (block.spliceAll pieces) block offset length := by
  intro i hlow hhigh
  apply byte_spliceAll_outside
  intro piece hpiece hin
  have hapart := h piece hpiece
  rw [Touches] at hin
  omega

section

variable (hfits : ∀ piece ∈ pieces, piece.1 + piece.2.length ≤ size)
include hfits

variable (hapart : Separate pieces)
include hapart

theorem shows_spliceAll : (block.spliceAll pieces).Shows pieces := by
  induction pieces generalizing block with
  | nil => simp [Shows]
  | cons piece pieces ih =>
    rcases pairwise_cons.mp hapart with ⟨hhead, htail⟩
    rw [spliceAll, foldl_cons]
    refine forall_mem_cons.mpr ⟨?_, ?_⟩
    · refine (agree_spliceAll ?_).slice.trans (slice_splice_self (hfits piece (mem_cons_self ..)))
      exact hhead
    · exact ih (fun other hother => hfits other (mem_cons_of_mem _ hother)) htail

/-- **A cleared block with pieces written to it.**  It is the only block that shows them all
and is zero everywhere else. -/
theorem eq_spliceAll_iff : block = zeros.spliceAll pieces ↔ block.Shows pieces ∧
        ∀ i < size, (∀ piece ∈ pieces, ¬ Touches piece i) →
          block.byte i = (zeros : Block size).byte i := by
  constructor
  · rintro rfl
    exact ⟨shows_spliceAll hfits hapart, fun i _ huntouched => byte_spliceAll_outside huntouched⟩
  · rintro ⟨hshows, hzero⟩
    rw [← hshows.spliceAll_eq]
    exact spliceAll_congr hzero

end

theorem equal_iff {bytes : List UInt8} :
    block.equal offset bytes = true ↔ block.slice offset bytes.length = bytes := by
  rw [equal, beq_iff_eq]

theorem equal_append (first second : List UInt8) : block.equal offset (first ++ second) = true ↔
      block.equal offset first = true ∧ block.equal (offset + first.length) second = true := by
  simp only [equal_iff, length_append, slice_append]
  constructor
  · intro h
    exact append_inj h (length_slice ..)
  · rintro ⟨hfirst, hsecond⟩
    rw [hfirst, hsecond]

/-- A number is read exactly if its bytes are there. -/
theorem little_eq_iff {width value : Nat} (h : value < 256 ^ width) :
    block.little offset width = value ↔ block.slice offset width = encodeLE width value := by
  constructor
  · intro hvalue
    have hbytes := encodeLE_decodeLE (block.slice offset width)
    rw [length_slice] at hbytes
    rw [← hvalue, little, hbytes]
  · intro hbytes
    rw [little, hbytes, decodeLE_encodeLE h]

theorem slice_eq_replicate_iff :
    block.slice offset length = List.replicate length 0 ↔ Agree block zeros offset length := by
  constructor
  · intro h
    apply allZero_iff.mp
    rw [allZero, h, all_replicate]
    simp
  · intro h
    rw [h.slice, slice_zeros]

end OpenXJ380.Data.Block
