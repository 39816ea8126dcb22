/-
# Protection changes and the frame of a page

A page that is present and owns its frame is *held*. A protection other than
`PROT_NONE` rewrites the flags of a held page and keeps its frame and its owner.
`PROT_NONE` clears the present bit of the page, and from then on no walk of the
table looks at it: later protection changes pass it by and unmapping it does not
give the frame back. The page is *dropped*.

So a sequence of protection changes keeps the page exactly when none of them is
`PROT_NONE`.
-/

import OpenXJ380.Memory.Protect
import OpenXJ380.Memory.Walk
import OpenXJ380.Protocol.Run

namespace OpenXJ380.Memory

open Protocol

variable (prot word : UInt64)

theorem protToPteFlags_addr : protToPteFlags prot &&& pteAddrMask = 0 := by
  unfold protToPteFlags
  cases (prot != 0) <;> cases hasFlag prot protWrite <;> cases hasFlag prot protExec <;> decide

theorem protToPteFlags_owner : protToPteFlags prot &&& pteFrameAllocated = 0 := by
  unfold protToPteFlags
  cases (prot != 0) <;> cases hasFlag prot protWrite <;> cases hasFlag prot protExec <;> decide

theorem hasFlag_protToPteFlags_present :
    hasFlag (protToPteFlags prot) ptePresent = (prot != 0) := by
  unfold protToPteFlags
  cases (prot != 0) <;> cases hasFlag prot protWrite <;> cases hasFlag prot protExec <;> decide

section

variable (prot : UInt64)

theorem repaintWord_addr :
    repaintWord word (protToPteFlags prot) &&& pteAddrMask = word &&& pteAddrMask := by
  rw [repaintWord, word_or_and, word_or_and, protToPteFlags_addr, UInt64.and_assoc,
    UInt64.and_assoc, show pteFrameAllocated &&& pteAddrMask = 0 by decide]
  simp

theorem repaintWord_owner :
    repaintWord word (protToPteFlags prot) &&& pteFrameAllocated = word &&& pteFrameAllocated := by
  rw [repaintWord, word_or_and, word_or_and, protToPteFlags_owner, UInt64.and_assoc,
    UInt64.and_assoc, show pteAddrMask &&& pteFrameAllocated = 0 by decide]
  simp

theorem repaintWord_present :
    hasFlag (repaintWord word (protToPteFlags prot)) ptePresent = (prot != 0) := by
  rw [← hasFlag_protToPteFlags_present, hasFlag, hasFlag, repaintWord, word_or_and, word_or_and,
    UInt64.and_assoc, UInt64.and_assoc, show pteAddrMask &&& ptePresent = 0 by decide,
    show pteFrameAllocated &&& ptePresent = 0 by decide]
  simp

end

theorem samePage_refl (height addr : Nat) : SamePage height addr addr := by
  induction height with
  | zero => rfl
  | succ height ih => exact ⟨rfl, ih⟩

variable {height addr other : Nat} {p : Process} {table : Table (height + 1)}

theorem leaf_congr (h : SamePage height addr other) :
    leaf height table addr = leaf height table other := by
  induction height with
  | zero => rw [leaf, leaf, show entryIndex 0 addr = entryIndex 0 other from h]
  | succ height ih => simp only [leaf, h.1, ih h.2]

theorem updateFlags_congr {flags : UInt64} (h : SamePage height addr other) :
    updateFlags flags height table addr = updateFlags flags height table other := by
  induction height with
  | zero => rw [updateFlags, updateFlags, show entryIndex 0 addr = entryIndex 0 other from h]
  | succ height ih => simp only [updateFlags, h.1, ih h.2]

/-- The page is present and owns this frame. -/
def Held (table : PageDirectory) (page : Nat) (frame : UInt64) : Prop :=
  ∃ word, leaf 3 table page = some word ∧ hasFlag word ptePresent = true ∧
    hasFlag word pteFrameAllocated = true ∧ word &&& pteAddrMask = frame

/-- Tables lead to the page, but it is not present. -/
def Dropped (table : PageDirectory) (page : Nat) : Prop :=
  ∃ word, leaf 3 table page = some word ∧ hasFlag word ptePresent = false

section Page

variable {table : PageDirectory} {page : Nat} {frame : UInt64}

theorem Held.translate (h : Held table page frame) (hpage : pageSize ∣ page) :
    translate 3 table page = frame := by
  rcases h with ⟨word, hleaf, hpresent, -, hframe⟩
  rw [translate_of_leaf hleaf, if_pos hpresent, hframe, Nat.mod_eq_zero_of_dvd hpage]
  simp

theorem Dropped.translate (h : Dropped table page) : translate 3 table page = 0 := by
  rcases h with ⟨word, hleaf, hpresent⟩
  rw [translate_of_leaf hleaf, hpresent]
  rfl

variable {other : Nat}

theorem Held.congr (h : Held table page frame) (hsame : SamePage 3 page other) :
    Held table other frame := by
  rcases h with ⟨word, hleaf, hrest⟩
  exact ⟨word, leaf_congr hsame ▸ hleaf, hrest⟩

theorem Dropped.congr (h : Dropped table page) (hsame : SamePage 3 page other) :
    Dropped table other := by
  rcases h with ⟨word, hleaf, hrest⟩
  exact ⟨word, leaf_congr hsame ▸ hleaf, hrest⟩

theorem Held.updatePage_other (h : Held table page frame) (flags : UInt64)
    (hother : ¬SamePage 3 page other) : Held (updatePage flags table other) page frame := by
  rw [updatePage]
  split
  · rcases h with ⟨word, hleaf, hrest⟩
    exact ⟨word, leaf_updateFlags_other hleaf hother, hrest⟩
  · exact h

/-- A round at a held page writes the new flags under its frame and owner. -/
theorem Held.updatePage_self (h : Held table page frame) (hframe : frame ≠ 0) (prot : UInt64)
    (hsame : SamePage 3 page other) (hdvd : pageSize ∣ other) :
    ∃ word, leaf 3 (updatePage (protToPteFlags prot) table other) page = some word ∧
      hasFlag word ptePresent = (prot != 0) ∧ hasFlag word pteFrameAllocated = true ∧
      word &&& pteAddrMask = frame := by
  have hmapped : Memory.translate 3 table other = frame := (h.congr hsame).translate hdvd
  rcases h with ⟨word, hleaf, hpresent, howned, haddr⟩
  have hround : updatePage (protToPteFlags prot) table other =
      updateFlags (protToPteFlags prot) 3 table page := by
    rw [updatePage, hmapped, if_pos (by simpa using hframe), updateFlags_congr hsame]
  refine ⟨repaintWord word (protToPteFlags prot), ?_, repaintWord_present word prot, ?_, ?_⟩
  · rw [hround]
    exact leaf_updateFlags_self hleaf hpresent
  · rw [hasFlag, repaintWord_owner]
    exact howned
  · rw [repaintWord_addr, haddr]

/-- A dropped page is not mapped, so every round passes it by. -/
theorem Dropped.updatePage (h : Dropped table page) (flags : UInt64) (other : Nat) :
    Dropped (updatePage flags table other) page := by
  by_cases hsame : SamePage 3 page other
  · rw [Memory.updatePage, (h.congr hsame).translate]
    exact h
  · rw [Memory.updatePage]
    split
    · rcases h with ⟨word, hleaf, hpresent⟩
      exact ⟨word, leaf_updateFlags_other hleaf hsame, hpresent⟩
    · exact h

theorem Dropped.updatePages (h : Dropped table page) (flags : UInt64) (start count : Nat) :
    Dropped (updatePages flags table start count) page := by
  induction count with
  | zero => exact h
  | succ count ih => exact ih.updatePage flags _

section Loop

variable {start : Nat} (hstart : pageSize ∣ start) (hframe : frame ≠ 0)

include hstart hframe

variable (h : Held table page frame)
include h

/-- Without `PROT_NONE` the page loop keeps a held page. -/
theorem Held.updatePages {prot : UInt64} (hprot : prot ≠ 0)
    (count : Nat) : Held (updatePages (protToPteFlags prot) table start count) page frame := by
  induction count with
  | zero => exact h
  | succ count ih =>
    by_cases hsame : SamePage 3 page (start + count * pageSize)
    · rcases ih.updatePage_self hframe prot hsame
        (Nat.dvd_add hstart (Nat.dvd_mul_left _ _)) with ⟨word, hleaf, hpresent, hrest⟩
      exact ⟨word, hleaf, by rw [hpresent]; simpa using hprot, hrest⟩
    · exact ih.updatePage_other _ hsame

/-- With `PROT_NONE` the page is held until the loop reaches it, under its own
address or an alias, and dropped from then on. -/
theorem Held.updatePages_none (count : Nat) :
    (Held (Memory.updatePages (protToPteFlags 0) table start count) page frame ∧
      ∀ offset < count, page ≠ start + offset * pageSize) ∨
    Dropped (Memory.updatePages (protToPteFlags 0) table start count) page := by
  induction count with
  | zero => exact .inl ⟨h, fun offset hlt => absurd hlt (Nat.not_lt_zero offset)⟩
  | succ count ih =>
    rcases ih with ⟨hheld, hearlier⟩ | hdropped
    · by_cases hsame : SamePage 3 page (start + count * pageSize)
      · rcases hheld.updatePage_self hframe 0 hsame
          (Nat.dvd_add hstart (Nat.dvd_mul_left _ _)) with ⟨word, hleaf, hpresent, -⟩
        exact .inr ⟨word, hleaf, hpresent⟩
      · refine .inl ⟨hheld.updatePage_other _ hsame, fun offset hlt heq => ?_⟩
        rcases Nat.lt_succ_iff_lt_or_eq.mp hlt with hlt | rfl
        · exact hearlier offset hlt heq
        · exact hsame (heq ▸ samePage_refl 3 page)
    · exact .inr (hdropped.updatePage _ _)

end Loop

end Page

theorem sysMprotect_ok {addr length prot : UInt64}
    (h : (sysMprotect p addr length prot).1 = .ok ()) (hlength : length ≠ 0) {size : Nat}
    (hsize : alignUp length.toNat = some size) :
    (sysMprotect p addr length prot).2.pagedir =
      updatePages (protToPteFlags prot) p.pagedir (pageDown addr.toNat) (size / pageSize) := by
  rw [sysMprotect, if_neg hlength] at h ⊢
  simp only [hsize] at h ⊢
  split at h
  · simp at h
  split at h
  · simp at h
  · rename_i hrange hcovered
    rw [if_neg hrange, if_neg hcovered]

theorem sysMunmap_page {page : UInt64} (hpage : pageSize ∣ page.toNat)
    (h : (sysMunmap p page 4096).1 = .ok ()) :
    ∃ a : Allocators, a.freed = p.allocators.freed ∧
      (sysMunmap p page 4096).2.allocators = (unmapPage 3 p.pagedir page.toNat a).2 := by
  have hstart : pageDown page.toNat = page.toNat := Nat.div_mul_cancel hpage
  have hsize : alignUp (4096 : UInt64).toNat = some 4096 := by decide
  rw [sysMunmap, if_neg (by decide)] at h ⊢
  simp only [hsize, hstart] at h ⊢
  split at h
  · simp at h
  rename_i hrange
  rw [if_neg hrange]
  have hfreed : (vmaUnmapRange p.vmaManager page.toNat (page.toNat + 4096)
      p.allocators).2.2.freed = p.allocators.freed := freed_vmaUnmapRange _
  split at h
  · simp at h
  · rename_i mgr a hunmap
    rw [hunmap] at hfreed
    exact ⟨_, (VirtQueue.freed_unmapLoop _ _ _ _ a).trans hfreed, rfl⟩

structure ProtectCall where
  addr : UInt64
  length : UInt64
  prot : UInt64

def protectStep (p : Process) (call : ProtectCall) : Process :=
  (sysMprotect p call.addr call.length call.prot).2

/-- The call succeeds and its range contains the page. -/
def ProtectsPage (page : UInt64) (p : Process) (call : ProtectCall) : Prop :=
  (sysMprotect p call.addr call.length call.prot).1 = .ok () ∧
    ∃ size, alignUp call.length.toNat = some size ∧ pageDown call.addr.toNat ≤ page.toNat ∧
      page.toNat < pageDown call.addr.toNat + size

section Run

variable {page : UInt64} (hpage : pageSize ∣ page.toNat) {p : Process} {call : ProtectCall}

/-- The table after a call whose range contains the page. -/
theorem ProtectsPage.pagedir (h : ProtectsPage page p call) :
    ∃ size, pageSize ∣ size ∧ pageDown call.addr.toNat ≤ page.toNat ∧
      page.toNat < pageDown call.addr.toNat + size ∧
      (protectStep p call).pagedir = updatePages (protToPteFlags call.prot) p.pagedir
        (pageDown call.addr.toNat) (size / pageSize) := by
  rcases h with ⟨hok, size, hsize, hlow, hhigh⟩
  have hlength : call.length ≠ 0 := by
    intro hzero
    rw [hzero] at hsize
    have : size = 0 := (Option.some.inj (hsize.symm.trans (by decide : alignUp 0 = some 0)))
    omega
  exact ⟨size, alignUp_dvd hsize, hlow, hhigh, sysMprotect_ok hok hlength hsize⟩

theorem Dropped.after_call (h : Dropped p.pagedir page.toNat) (hcall : ProtectsPage page p call) :
    Dropped (protectStep p call).pagedir page.toNat := by
  rcases hcall.pagedir with ⟨size, -, -, -, heq⟩
  rw [heq]
  exact h.updatePages _ _ _

include hpage

variable {frame : UInt64}

/-- One call keeps a held page or, with `PROT_NONE`, drops it. -/
theorem Held.after_call (h : Held p.pagedir page.toNat frame) (hframe : frame ≠ 0)
    (hcall : ProtectsPage page p call) :
    (call.prot ≠ 0 → Held (protectStep p call).pagedir page.toNat frame) ∧
      (call.prot = 0 → Dropped (protectStep p call).pagedir page.toNat) := by
  rcases hcall.pagedir with ⟨size, hsize, hlow, hhigh, heq⟩
  have hstart := pageDown_dvd call.addr.toNat
  rw [heq]
  refine ⟨fun hprot => h.updatePages hstart hframe hprot _, fun hprot => ?_⟩
  rw [hprot]
  rcases h.updatePages_none hstart hframe (size / pageSize) with ⟨-, hmissed⟩ | hdropped
  · -- The loop runs over every page of the range, so over this one.
    have hoffset : page.toNat = pageDown call.addr.toNat +
        (page.toNat - pageDown call.addr.toNat) / pageSize * pageSize := by
      rw [Nat.div_mul_cancel (Nat.dvd_sub hpage hstart)]
      omega
    refine absurd hoffset (hmissed _ ?_)
    rcases hsize with ⟨pages, rfl⟩
    simp only [pageSize] at *
    omega
  · exact hdropped

/-- A run keeps a held page if no call is `PROT_NONE`, and drops it otherwise. -/
theorem Held.after_calls {calls : List ProtectCall} (h : Held p.pagedir page.toNat frame)
    (hframe : frame ≠ 0) (hcalls : Along protectStep (ProtectsPage page) p calls) :
    ((∀ call ∈ calls, call.prot ≠ 0) → Held (run protectStep p calls).pagedir page.toNat frame) ∧
      ((∃ call ∈ calls, call.prot = 0) → Dropped (run protectStep p calls).pagedir page.toNat) := by
  induction calls generalizing p with
  | nil => exact ⟨fun _ => h, by simp⟩
  | cons call rest ih =>
    rcases hcalls with ⟨hcall, hrest⟩
    rcases h.after_call hpage hframe hcall with ⟨hkeeps, hdrops⟩
    by_cases hprot : call.prot = 0
    · refine ⟨fun hnone => absurd hprot (hnone call (by simp)), fun _ => ?_⟩
      rw [run_cons]
      exact invariant_run protectStep (fun q => Dropped q.pagedir page.toNat)
        (fun q next hnext hq => Dropped.after_call hq hnext) hrest (hdrops hprot)
    · rcases ih (hkeeps hprot) hrest with ⟨hheld, hdropped⟩
      refine ⟨fun hnone => hheld fun next hn => hnone next (by simp [hn]), ?_⟩
      rintro ⟨next, hnext, hzero⟩
      rcases List.mem_cons.mp hnext with rfl | hnext
      · exact absurd hzero hprot
      · exact hdropped ⟨next, hnext, hzero⟩

end Run

/-- After the calls the page still translates to its frame, where the last call
grants reading, and unmapping it gives the frame back. -/
def KeepsFrame (p : Process) (page frame : UInt64) (calls : List ProtectCall) : Prop :=
  (∀ last, calls.getLast? = some last → hasFlag last.prot protRead = true →
      translate 3 (run protectStep p calls).pagedir page.toNat = translate 3 p.pagedir page.toNat) ∧
    (sysMunmap (run protectStep p calls) page 4096).2.allocators.freed =
      frame :: (run protectStep p calls).allocators.freed

/-- Protection changes that cover a present page with a frame of its own keep
that frame exactly when none of them is `PROT_NONE`. -/
theorem mprotect_keepsFrame_iff (p : Process) (page frame : UInt64) (calls : List ProtectCall)
    (hpage : pageSize ∣ page.toNat) (hheld : Held p.pagedir page.toNat frame)
    (hframe : frame ≠ 0) (hcalls : Along protectStep (ProtectsPage page) p calls)
    (hmunmap : (sysMunmap (run protectStep p calls) page 4096).1 = .ok ()) :
    KeepsFrame p page frame calls ↔ ∀ call ∈ calls, call.prot ≠ 0 := by
  rcases hheld.after_calls hpage hframe hcalls with ⟨hkeeps, hdrops⟩
  rcases sysMunmap_page hpage hmunmap with ⟨a, hfreed, hafter⟩
  refine ⟨fun hkept => ?_, fun hnone => ?_⟩
  · intro call hcall hzero
    rcases hdrops ⟨call, hcall, hzero⟩ with ⟨word, hleaf, hpresent⟩
    have hlost := hkept.2
    rw [hafter, unmapPage_of_not_present hleaf hpresent, hfreed] at hlost
    exact absurd (congrArg List.length hlost) (by simp)
  · have hend := hkeeps hnone
    refine ⟨fun _ _ _ => ?_, ?_⟩
    · rw [hend.translate hpage, hheld.translate hpage]
    · rcases hend with ⟨word, hleaf, hpresent, howned, haddr⟩
      rw [hafter, unmapPage_frees hleaf hpresent howned, haddr]
      show frame :: a.freed = _
      rw [hfreed]

/-- A process with one writable page, which owns the frame at `0x5000`. -/
def onePage : Process :=
  let a : Allocators := ⟨fun _ => true, 0, fun _ _ => ⟨0x1000, by decide⟩, 0, [], []⟩
  let flags := pteUser ||| ptePresent ||| pteWriteable ||| pteNoExecute ||| pteFrameAllocated
  let (pagedir, a) := pageMapTo 0x5000 flags 3 (Table.empty 4) userMmapStart a
  { vmaManager :=
      { vmaList := [{ vmStart := userMmapStart, vmEnd := userMmapStart + pageSize,
                      vmFlags := { read := true, write := true, anon := true } }]
        vmUsed := 4096 }
    virtQueue := {}
    pagedir := pagedir
    brkCurrent := userBrkStart
    mmapStart := userMmapStart + pageSize
    allocators := a }

/-- Read only, executable, and writable again. -/
def restored : List ProtectCall :=
  [⟨0x400000000000, 4096, 1⟩, ⟨0x400000000000, 4096, 5⟩, ⟨0x400000000000, 4096, 3⟩]

theorem mprotect_keepsFrame_onePage : KeepsFrame onePage 0x400000000000 0x5000 restored :=
  (mprotect_keepsFrame_iff onePage 0x400000000000 0x5000 restored
    (by decide) ⟨_, rfl, by decide +kernel, by decide +kernel, by decide +kernel⟩ (by decide)
    ⟨⟨rfl, 4096, by decide, by decide, by decide⟩, ⟨rfl, 4096, by decide, by decide, by decide⟩,
      ⟨rfl, 4096, by decide, by decide, by decide⟩, trivial⟩ rfl).mpr
    (by decide)

/-- `PROT_NONE` followed by `PROT_READ` leaves a page that translates to nothing
and whose frame is not given back. -/
theorem protNone_loses_frame : Held onePage.pagedir 0x400000000000 0x5000 ∧
      Along protectStep (ProtectsPage 0x400000000000) onePage
        [⟨0x400000000000, 4096, 0⟩, ⟨0x400000000000, 4096, 1⟩] ∧
      translate 3 (run protectStep onePage
        [⟨0x400000000000, 4096, 0⟩, ⟨0x400000000000, 4096, 1⟩]).pagedir 0x400000000000 = 0 ∧
      (sysMunmap (run protectStep onePage
        [⟨0x400000000000, 4096, 0⟩, ⟨0x400000000000, 4096, 1⟩]) 0x400000000000 4096).1 = .ok () ∧
      (sysMunmap (run protectStep onePage [⟨0x400000000000, 4096, 0⟩, ⟨0x400000000000, 4096, 1⟩])
          0x400000000000 4096).2.allocators.freed = [] :=
  ⟨⟨_, rfl, by decide +kernel, by decide +kernel, by decide +kernel⟩,
    ⟨⟨rfl, 4096, by decide, by decide, by decide⟩,
      ⟨rfl, 4096, by decide, by decide, by decide⟩, trivial⟩,
    by decide +kernel, rfl, by decide +kernel⟩

end OpenXJ380.Memory
