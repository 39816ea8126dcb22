/-
# Files that are updated in place

A volume holds files, each a row of bytes, and performs updates in the order in which
they are asked for. It may stop at any time: its budget says how much it still does,
and a write that exceeds the budget is performed up to a byte in its middle. A program
that is cut off at any point, by a failure or a crash, is the same program on a volume
with the right budget; nothing happens to the files once the budget is spent.

Bytes past the end of a file count as zero, which is also what an extension writes there.
-/

import OpenXJ380.Kernel.Errno
import OpenXJ380.Protocol.Outcome

namespace OpenXJ380.Storage

open List Function Protocol

section

variable (content : List UInt8)

def byteAt (i : Nat) : UInt8 := content.getD i 0

def resized (size : Nat) : List UInt8 :=
  content.take size ++ List.replicate (size - content.length) 0

/-- The content after a write; a gap in front of it is filled with zeros. -/
def overwritten (offset : Nat) (bytes : List UInt8) : List UInt8 :=
  resized content offset ++ bytes ++ content.drop (offset + bytes.length)

end

section Contents

variable {content : List UInt8} {offset size : Nat} {bytes : List UInt8}

@[simp]
theorem length_resized : (resized content size).length = size := by
  simp only [resized, length_append, length_take, length_replicate]
  omega

@[simp]
theorem length_overwritten :
    (overwritten content offset bytes).length = max content.length (offset + bytes.length) := by
  simp only [overwritten, length_append, length_resized, length_drop]
  omega

theorem byteAt_of_le {i : Nat} (h : content.length ≤ i) : byteAt content i = 0 :=
  getD_eq_default _ _ h

variable (i : Nat) {first second : List UInt8}

theorem byteAt_append : byteAt (first ++ second) i =
      if i < first.length then byteAt first i else byteAt second (i - first.length) := by
  split
  next h => exact getD_append _ _ _ _ h
  next h => exact getD_append_right _ _ _ _ (Nat.le_of_not_lt h)

theorem byteAt_take : byteAt (content.take size) i = if i < size then byteAt content i else 0 := by
  simp only [byteAt, getD_eq_getElem?_getD, List.getElem?_take]
  split <;> rfl

theorem byteAt_drop : byteAt (content.drop size) i = byteAt content (size + i) := by
  simp only [byteAt, getD_eq_getElem?_getD, List.getElem?_drop]

theorem byteAt_replicate_zero (count i : Nat) : byteAt (List.replicate count 0) i = 0 := by
  simp only [byteAt, getD_eq_getElem?_getD, List.getElem?_replicate]
  split <;> rfl

/-- A new size keeps the bytes before it and adds zeros. -/
theorem byteAt_resized :
    byteAt (resized content size) i = if i < size then byteAt content i else 0 := by
  rw [resized, byteAt_append, byteAt_take, byteAt_replicate_zero, length_take]
  by_cases hsize : i < size
  · by_cases hlength : i < content.length
    · rw [if_pos (by omega), if_pos hsize]
    · simp [byteAt_of_le (Nat.le_of_not_lt hlength)]
  · simp [hsize]

/-- A write changes the bytes of its range only. -/
theorem byteAt_overwritten : byteAt (overwritten content offset bytes) i =
      if offset ≤ i ∧ i < offset + bytes.length then byteAt bytes (i - offset)
      else byteAt content i := by
  simp only [overwritten, byteAt_append, length_append, length_resized, byteAt_resized, byteAt_drop]
  by_cases hlow : i < offset
  · simp [hlow, Nat.not_le.mpr hlow, Nat.lt_of_lt_of_le hlow (Nat.le_add_right _ _)]
  · by_cases hhigh : i < offset + bytes.length
    · simp [hlow, hhigh]
    · simp only [hhigh, if_false, and_false]
      rw [Nat.add_sub_cancel' (Nat.le_of_not_lt hhigh)]

/-- Contents are equal if they have one length and the same bytes. -/
theorem ext_byteAt (hlength : first.length = second.length)
    (h : ∀ i < first.length, byteAt first i = byteAt second i) : first = second := by
  apply ext_getElem hlength
  intro i hi hi'
  have hbyte := h i hi
  rwa [byteAt, byteAt, getD_eq_getElem _ _ hi, getD_eq_getElem _ _ hi'] at hbyte

theorem resized_length : resized content content.length = content := by simp [resized]

theorem overwritten_nil (h : offset ≤ content.length) : overwritten content offset [] = content := by
  have hgap : offset - content.length = 0 := by omega
  simp [overwritten, resized, hgap]

end Contents

structure Volume (ι : Type) where
  files : ι → Option (List UInt8)
  /-- How many more bytes, creations and resizes are performed; `none` if it keeps working. -/
  budget : Option Nat

abbrev FileM (ι : Type) : Type → Type := EStateM Errno (Volume ι)

variable {ι : Type} [DecidableEq ι]

namespace Volume

section

variable (volume : Volume ι)

/-- How much of an update is performed. -/
def afford (cost : Nat) : Nat := volume.budget.elim cost (min cost)

def spend (cost : Nat) : Option Nat := volume.budget.map (· - cost)

def put (path : ι) (content : List UInt8) (cost : Nat) : Volume ι :=
  ⟨update volume.files path (some content), volume.spend cost⟩

end

variable {volume : Volume ι} {cost : Nat}

omit [DecidableEq ι] in
theorem afford_lt (h : volume.afford cost ≠ cost) :
    volume.afford cost < cost ∧ volume.budget ≠ none := by
  rcases volume with ⟨files, budget⟩
  cases budget with
  | none => exact absurd rfl h
  | some budget =>
    simp only [afford, Option.elim_some] at h ⊢
    exact ⟨by omega, by simp⟩

omit [DecidableEq ι] in
theorem spend_none (h : volume.budget = none) : volume.spend cost = none := by
  rw [spend, h, Option.map_none]

end Volume

section

variable (path : ι)

def content : FileM ι (Option (List UInt8)) := fun volume => .ok (volume.files path) volume

def mkfile : FileM ι Unit := fun volume =>
  if volume.afford 1 = 1 then .ok () (volume.put path [] 1) else .error .eio volume

def resize (size : Nat) : FileM ι Unit := fun volume =>
  match volume.files path with
  | none => .error .eio volume
  | some content =>
    if volume.afford 1 = 1 then .ok () (volume.put path (resized content size) 1)
    else .error .eio volume

def write (offset : Nat) (bytes : List UInt8) : FileM ι Unit := fun volume =>
  match volume.files path with
  | none => .error .eio volume
  | some content =>
    let done := volume.afford bytes.length
    let volume' := volume.put path (overwritten content offset (bytes.take done)) bytes.length
    if done = bytes.length then .ok () volume' else .error .eio volume'

end

/-- Wait until the file is on the device. -/
def sync : FileM ι Unit := fun volume =>
  if volume.afford 1 = 1 then .ok () ⟨volume.files, volume.spend 1⟩ else .error .eio volume

section Rules

variable {volume : Volume ι} {path : ι} {post : Unit → Volume ι → Prop}
  {fail : Errno → Volume ι → Prop}

omit [DecidableEq ι] in
@[simp]
theorem ends_content {post : Option (List UInt8) → Volume ι → Prop} :
    Ends (content path) post fail volume ↔ post (volume.files path) volume := Iff.rfl

/-- A new file is empty, or the power fails and there is none. -/
theorem ends_mkfile (hdone : ∀ budget, (volume.budget = none → budget = none) →
      post () ⟨update volume.files path (some []), budget⟩)
    (hcut : volume.budget ≠ none → fail .eio volume) : Ends (mkfile path) post fail volume := by
  unfold Ends mkfile
  by_cases h : volume.afford 1 = 1
  · simp only [if_pos h]
    exact hdone _ Volume.spend_none
  · simp only [if_neg h]
    exact hcut (Volume.afford_lt h).2

variable {content : List UInt8}

/-- The file has its new size, or the power fails before it has. -/
theorem ends_resize {size : Nat} (hfile : volume.files path = some content)
    (hdone : ∀ budget, (volume.budget = none → budget = none) →
      post () ⟨update volume.files path (some (resized content size)), budget⟩)
    (hcut : volume.budget ≠ none → fail .eio volume) :
    Ends (resize path size) post fail volume := by
  unfold Ends resize
  simp only [hfile]
  by_cases h : volume.afford 1 = 1
  · simp only [if_pos h]
    exact hdone _ Volume.spend_none
  · simp only [if_neg h]
    exact hcut (Volume.afford_lt h).2

/-- All of the bytes are written, or the power fails after some of them. -/
theorem ends_write {bytes : List UInt8} {offset : Nat} (hfile : volume.files path = some content)
    (hdone : ∀ budget, (volume.budget = none → budget = none) →
      post () ⟨update volume.files path (some (overwritten content offset bytes)), budget⟩)
    (hcut : ∀ count budget, count < bytes.length → volume.budget ≠ none →
      fail .eio ⟨update volume.files path
        (some (overwritten content offset (bytes.take count))), budget⟩) :
    Ends (write path offset bytes) post fail volume := by
  unfold Ends write
  simp only [hfile]
  by_cases h : volume.afford bytes.length = bytes.length
  · simp only [h, take_length]
    exact hdone _ Volume.spend_none
  · obtain ⟨hlt, hbudget⟩ := Volume.afford_lt h
    simp only [if_neg h]
    exact hcut _ _ hlt hbudget

omit [DecidableEq ι] in
theorem ends_sync
    (hdone : ∀ budget, (volume.budget = none → budget = none) → post () ⟨volume.files, budget⟩)
    (hcut : volume.budget ≠ none → fail .eio volume) : Ends sync post fail volume := by
  unfold Ends sync
  by_cases h : volume.afford 1 = 1
  · simp only [if_pos h]
    exact hdone _ Volume.spend_none
  · simp only [if_neg h]
    exact hcut (Volume.afford_lt h).2

end Rules

section OneFile

variable {files : ι → Option (List UInt8)} {budget : Option Nat} {path : ι} {content : List UInt8}
  {post : Unit → Volume ι → Prop} {fail : Errno → Volume ι → Prop}

theorem ends_resize_file {size : Nat} (hdone : ∀ budget', (budget = none → budget' = none) →
      post () ⟨update files path (some (resized content size)), budget'⟩)
    (hcut : budget ≠ none → fail .eio ⟨update files path (some content), budget⟩) :
    Ends (resize path size) post fail ⟨update files path (some content), budget⟩ := by
  refine ends_resize (update_self _ _ _) (fun budget' hbudget => ?_) hcut
  simp only [update_idem]
  exact hdone budget' hbudget

/-- The rule of `ends_write` for a file that was written right before. -/
theorem ends_write_file {offset : Nat} {bytes : List UInt8}
    (hdone : ∀ budget', (budget = none → budget' = none) →
      post () ⟨update files path (some (overwritten content offset bytes)), budget'⟩)
    (hcut : ∀ count budget', count < bytes.length → budget ≠ none → fail .eio ⟨update files path
        (some (overwritten content offset (bytes.take count))), budget'⟩) :
    Ends (write path offset bytes) post fail ⟨update files path (some content), budget⟩ := by
  refine ends_write (update_self _ _ _) (fun budget' hbudget => ?_)
    fun count budget' hcount hbudget => ?_
  · simp only [update_idem]
    exact hdone budget' hbudget
  · simp only [update_idem]
    exact hcut count budget' hcount hbudget

end OneFile

end OpenXJ380.Storage
