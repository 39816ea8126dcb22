/-
# A copied directory is a snapshot

Both copies of a table take frames that were not in use and write to no other frame. `Took`
says so for any run; it composes, so that a loop over the entries is followed entry by entry
(`Copying`). `Copied` is what a finished copy looks like beside its source, with the list of
its frames, and `Owned` is what releasing a table needs to know: only the table itself.
-/

import OpenXJ380.Memory.Snapshot

namespace OpenXJ380.Memory

open List

theorem word_and_not_and (x m : UInt64) : x &&& ~~~m &&& m = 0 := by
  apply UInt64.toBitVec_inj.mp
  ext i hi
  simp

variable {x m f table : UInt64} {level : Nat} {frames : List UInt64}

/-- The bits outside of a mask are not changed by clearing the mask. -/
theorem word_and_not_of_disjoint (h : ~~~m &&& f = f) : x &&& ~~~m &&& f = x &&& f := by
  rw [UInt64.and_assoc, h]

theorem word_and_of_disjoint (hx : x &&& m = x) (h : m &&& f = 0) : x &&& f = 0 := by
  rw [← hx, UInt64.and_assoc, h, UInt64.and_zero]

section Entry

variable {level : Nat} {child entry : UInt64}

theorem copiedEntry_address (hchild : child &&& pteAddrMask = child) :
    copiedEntry level child entry &&& pteAddrMask = child := by
  have hflag : flagIf (level == 1) pteFrameAllocated &&& pteAddrMask = 0 := by
    cases level == 1 <;> decide
  rw [copiedEntry, word_or_and, word_or_and, hchild, word_and_not_and, hflag]
  simp

theorem hasFlag_copiedEntry {flag : UInt64} (hchild : child &&& pteAddrMask = child)
    (hmask : pteAddrMask &&& flag = 0) (hout : ~~~pteAddrMask &&& flag = flag)
    (hnew : pteFrameAllocated &&& flag = 0) :
    hasFlag (copiedEntry level child entry) flag = hasFlag entry flag := by
  have hflag : flagIf (level == 1) pteFrameAllocated &&& flag = 0 := by
    cases level == 1
    · exact UInt64.zero_and
    · exact hnew
  rw [hasFlag, hasFlag, copiedEntry, word_or_and, word_or_and, word_and_of_disjoint hchild hmask,
    word_and_not_of_disjoint hout, hflag]
  simp

section

variable (hchild : child &&& pteAddrMask = child)
include hchild

theorem isPresent_copiedEntry : isPresent (copiedEntry level child entry) = isPresent entry :=
  hasFlag_copiedEntry hchild (by decide) (by decide) (by decide)

theorem isHuge_copiedEntry : isHuge (copiedEntry level child entry) = isHuge entry :=
  hasFlag_copiedEntry hchild (by decide) (by decide) (by decide)

end

/-- The pages of a copy are its own. -/
theorem hasFlag_copiedEntry_one : hasFlag (copiedEntry 1 child entry) pteFrameAllocated = true := by
  have hflag : ∀ x : UInt64, (x ||| pteFrameAllocated) &&& pteFrameAllocated ≠ 0 := by
    intro x h
    have hbit := congrArg (fun w : UInt64 => w.toBitVec.getLsbD 62) h
    simp [pteFrameAllocated] at hbit
  simp only [hasFlag, bne_iff_ne]
  exact hflag _

end Entry

/-- A run from `s` to `s'` has taken the given frames and changed no other frame in use. -/
structure Took (s : PhysState) (frames : List UInt64) (s' : PhysState) : Prop where
  nodup : frames.Nodup
  fresh : ∀ f ∈ frames, f ∉ s.used
  used : s'.used = frames.toFinset ∪ s.used
  kept : ∀ f ∈ s.used, s'.page f = s.page f

namespace Took

variable {s s₁ s₂ : PhysState} {frames more : List UInt64}

theorem refl (s : PhysState) : Took s [] s := ⟨nodup_nil, by simp, by simp, fun _ _ => rfl⟩

variable {f : UInt64} {source : FrameSource}

section

variable (h : Took s frames s₁)
include h

theorem mem_used : f ∈ s₁.used ↔ f ∈ frames ∨ f ∈ s.used := by
  rw [h.used]
  simp

theorem trans (h' : Took s₁ more s₂) : Took s (frames ++ more) s₂ := by
  refine ⟨?_, ?_, ?_, ?_⟩
  · refine nodup_append.mpr ⟨h.nodup, h'.nodup, ?_⟩
    rintro f hf f' hf' rfl
    exact h'.fresh f hf' (h.mem_used.mpr (.inl hf))
  · intro f hf hused
    rcases mem_append.mp hf with hf | hf
    · exact h.fresh f hf hused
    · exact h'.fresh f hf (h.mem_used.mpr (.inr hused))
  · ext f
    rw [h'.mem_used, h.mem_used]
    simp only [Finset.mem_union, mem_toFinset, mem_append]
    tauto
  · intro f hf
    rw [h'.kept f (h.mem_used.mpr (.inr hf)), h.kept f hf]

theorem setPage (hf : f ∈ frames) (words : FrameWords) : Took s frames (s₁.setPage f words) := by
  refine ⟨h.nodup, h.fresh, h.used, ?_⟩
  intro g hg
  have hne : g ≠ f := fun heq => h.fresh f hf (heq ▸ hg)
  exact (Function.update_of_ne hne _ _).trans (h.kept g hg)

end

theorem allocFrame (hframe : (s.allocFrame source).1 ≠ 0) :
    Took s [(s.allocFrame source).1] (s.allocFrame source).2 := by
  have hfresh := source.fresh s.used s.requests hframe
  refine ⟨nodup_singleton _, ?_, ?_, fun _ _ => rfl⟩
  · intro f hf
    rw [mem_singleton.mp hf]
    exact hfresh
  · simp only [PhysState.allocFrame] at hframe ⊢
    rw [if_neg hframe]
    ext f
    simp

theorem allocFrame_refused (hframe : (s.allocFrame source).1 = 0) :
    Took s [] (s.allocFrame source).2 := by
  refine ⟨nodup_nil, by simp, ?_, fun _ _ => rfl⟩
  simp only [PhysState.allocFrame] at hframe ⊢
  rw [if_pos hframe]
  simp

end Took

/-- The frames that a copy reads are in use. -/
def Mapped (memory : UInt64 → FrameWords) (used : Finset UInt64) : Nat → UInt64 → Prop
  | 0, frame => frame ∈ used
  | level + 1, table => table ∈ used ∧ ∀ i ∈ userSlots (level + 1), isPresent (memory table i) = true →
      isHuge (memory table i) = false → Mapped memory used level (memory table i &&& pteAddrMask)

/-- An entry beside its copy, given what a copy of the level below is. -/
def EntryCopied (below : UInt64 → UInt64 → List UInt64 → Prop) (level : Nat) (old new : UInt64)
    (frames : List UInt64) : Prop :=
  if isPresent old = true ∧ isHuge old = false then
    ∃ child, child &&& pteAddrMask = child ∧ new = copiedEntry level child old ∧
      below (old &&& pteAddrMask) child frames
  else frames = [] ∧ new = if isPresent old then old else 0

/-- A table in `before` and its copy in `after`, with the frames of the copy. -/
def Copied (before after : UInt64 → FrameWords) : Nat → UInt64 → UInt64 → List UInt64 → Prop
  | 0, old, new, frames => frames = [new] ∧ after new = before old
  | level + 1, old, new, frames =>
    ∃ parts : Fin 512 → List UInt64, frames = new :: (userSlots (level + 1)).flatMap parts ∧
      ∀ i ∈ userSlots (level + 1), EntryCopied (Copied before after level) (level + 1)
        (before old i) (after new i) (parts i)

/-- What an entry owns, given what the level below owns. -/
def EntryOwned (below : UInt64 → List UInt64 → Prop) (level : Nat) (entry : UInt64)
    (frames : List UInt64) : Prop :=
  if ownsEntry true level entry then below (entry &&& pteAddrMask) frames else frames = []

/-- The frames that releasing a failed copy gives back. -/
def Owned (memory : UInt64 → FrameWords) : Nat → UInt64 → List UInt64 → Prop
  | 0, frame, frames => frames = [frame]
  | level + 1, table, frames =>
    ∃ parts : Fin 512 → List UInt64, frames = table :: (userSlots (level + 1)).flatMap parts ∧
      ∀ i ∈ userSlots (level + 1), EntryOwned (Owned memory level) (level + 1) (memory table i) (parts i)

section Transport

variable {before before' after after' : UInt64 → FrameWords} {used : Finset UInt64} {level : Nat}
  {old new : UInt64} {frames : List UInt64}

theorem Mapped.transport {used' : Finset UInt64} (h : Mapped before used level old)
    (hsub : used ⊆ used') (heq : ∀ f ∈ used, before' f = before f) : Mapped before' used' level old := by
  induction level generalizing old with
  | zero => exact hsub h
  | succ level ih =>
    refine ⟨hsub h.1, ?_⟩
    intro i hi hpresent hhuge
    rw [heq old h.1] at hpresent hhuge ⊢
    exact ih (h.2 i hi hpresent hhuge)

variable {below : UInt64 → UInt64 → List UInt64 → Prop} {word : UInt64}

theorem EntryCopied.mono {below' : UInt64 → UInt64 → List UInt64 → Prop}
    (h : EntryCopied below level old word frames)
    (hbelow : isPresent old = true → isHuge old = false → ∀ child,
      below (old &&& pteAddrMask) child frames → below' (old &&& pteAddrMask) child frames) :
    EntryCopied below' level old word frames := by
  unfold EntryCopied at h ⊢
  split at h
  · rename_i hcopy
    rw [if_pos hcopy]
    rcases h with ⟨child, haligned, hword, hchild⟩
    exact ⟨child, haligned, hword, hbelow hcopy.1 hcopy.2 child hchild⟩
  · rename_i hcopy
    rw [if_neg hcopy]
    exact h

theorem EntryOwned.mono {below below' : UInt64 → List UInt64 → Prop} {entry : UInt64}
    (h : EntryOwned below level entry frames)
    (hbelow : ∀ frame, below frame frames → below' frame frames) :
    EntryOwned below' level entry frames := by
  unfold EntryOwned at h ⊢
  split at h
  · rename_i howns
    rw [if_pos howns]
    exact hbelow _ h
  · rename_i howns
    rw [if_neg howns]
    exact h

section

variable (h : Copied before after level old new frames)
include h

/-- A copy depends on its own frames only. -/
theorem Copied.congr
    (heq : ∀ f ∈ frames, after' f = after f) : Copied before after' level old new frames := by
  induction level generalizing old new frames with
  | zero =>
    refine ⟨h.1, ?_⟩
    rw [heq new (by rw [h.1]; exact mem_singleton_self new), h.2]
  | succ level ih =>
    rcases h with ⟨parts, rfl, hentries⟩
    refine ⟨parts, rfl, ?_⟩
    intro i hi
    rw [heq new mem_cons_self]
    apply (hentries i hi).mono
    intro _ _ child hchild
    apply ih hchild
    intro f hf
    exact heq f (mem_cons_of_mem _ (mem_flatMap.mpr ⟨i, hi, hf⟩))

/-- The source may change where it is not read. -/
theorem Copied.congr_source
    (hmapped : Mapped before used level old) (heq : ∀ f ∈ used, before' f = before f) :
    Copied before' after level old new frames := by
  induction level generalizing old new frames with
  | zero => exact ⟨h.1, by rw [heq old hmapped, h.2]⟩
  | succ level ih =>
    rcases h with ⟨parts, rfl, hentries⟩
    refine ⟨parts, rfl, ?_⟩
    intro i hi
    rw [heq old hmapped.1]
    apply (hentries i hi).mono
    intro hpresent hhuge child hchild
    exact ih hchild (hmapped.2 i hi hpresent hhuge)

end

section

variable (h : Owned before level new frames)
include h

theorem Owned.congr
    (heq : ∀ f ∈ frames, before' f = before f) : Owned before' level new frames := by
  induction level generalizing new frames with
  | zero => exact h
  | succ level ih =>
    rcases h with ⟨parts, rfl, hentries⟩
    refine ⟨parts, rfl, ?_⟩
    intro i hi
    rw [heq new mem_cons_self]
    apply (hentries i hi).mono
    intro frame hframe
    apply ih hframe
    intro f hf
    exact heq f (mem_cons_of_mem _ (mem_flatMap.mpr ⟨i, hi, hf⟩))

theorem Owned.mem : new ∈ frames := by
  cases level with
  | zero =>
    rw [show frames = [new] from h]
    exact mem_singleton_self new
  | succ level =>
    rcases h with ⟨-, rfl, -⟩
    exact mem_cons_self

end

/-- Only the entries that were copied to new frames are owned. -/
theorem EntryCopied.owned (h : EntryCopied below level old word frames) :
    EntryOwned (below (old &&& pteAddrMask)) level word frames := by
  unfold EntryCopied at h
  unfold EntryOwned
  split at h
  · rename_i hcopy
    rcases h with ⟨child, haligned, rfl, hchild⟩
    have hpresent : isPresent (copiedEntry level child old) = true :=
      (isPresent_copiedEntry haligned).trans hcopy.1
    have hhuge : isHuge (copiedEntry level child old) = false :=
      (isHuge_copiedEntry haligned).trans hcopy.2
    have howns : ownsEntry true level (copiedEntry level child old) = true := by
      unfold ownsEntry
      split
      · rename_i hlevel
        subst hlevel
        simp [hpresent, hhuge, hasFlag_copiedEntry_one]
      · simp [hpresent, hhuge]
    rw [if_pos howns, copiedEntry_address haligned]
    exact hchild
  · rename_i hcopy
    have howns : ownsEntry true level word = false := by
      rw [h.2]
      cases hpresent : isPresent old with
      | false =>
        have hzero : isPresent 0 = false := by decide
        simp [ownsEntry, hzero]
      | true =>
        have hhuge : isHuge old = true := by simpa [hpresent] using hcopy
        simp [ownsEntry, hhuge]
    rw [howns]
    exact h.1

theorem Copied.owned (h : Copied before after level old new frames) : Owned after level new frames := by
  induction level generalizing old new frames with
  | zero => exact h.1
  | succ level ih =>
    rcases h with ⟨parts, rfl, hentries⟩
    refine ⟨parts, rfl, ?_⟩
    intro i hi
    exact (hentries i hi).owned.mono fun _ hchild => ih hchild

end Transport

/-- A run from `s` to `s'` has given the frames back and changed no others. -/
structure Released (s : PhysState) (frames : List UInt64) (s' : PhysState) : Prop where
  used : s'.used = s.used \ frames.toFinset
  kept : ∀ f ∉ frames, s'.page f = s.page f

variable {s : PhysState}

theorem freeEntries_released
    (hfree : ∀ {frame : UInt64} {frames : List UInt64} {s : PhysState},
      Owned s.page level frame frames → frames.Nodup → Released s frames (freePageTable true level frame s))
    {parts : Fin 512 → List UInt64} {rest : List (Fin 512)} (hrest : rest.Nodup)
    (howned : ∀ i ∈ rest, EntryOwned (Owned s.page level) (level + 1) (s.page table i) (parts i))
    (hnodup : (table :: rest.flatMap parts).Nodup) :
    let s' := freeEntries (freePageTable true level) true (level + 1) table rest s
    s'.used = s.used \ (rest.flatMap parts).toFinset ∧
      ∀ f, f ∉ table :: rest.flatMap parts → s'.page f = s.page f := by
  induction rest generalizing s with
  | nil => exact ⟨by simp [freeEntries], fun _ _ => rfl⟩
  | cons i rest ih =>
    have hentry := howned i mem_cons_self
    rw [flatMap_cons] at hnodup ⊢
    rcases nodup_cons.mp hnodup with ⟨htable, hlists⟩
    rcases nodup_append.mp hlists with ⟨hpart, hflat, hapart⟩
    rw [mem_append, not_or] at htable
    simp only [freeEntries]
    unfold EntryOwned at hentry
    split at hentry
    · rename_i howns
      rw [if_pos howns]
      have hone := hfree hentry hpart
      -- Clearing the entry is all that happens to the table.
      generalize hs₁ : (if level + 1 = 1 then
        (freePageTable true level (s.page table i &&& pteAddrMask) s).setEntry table i 0
        else freePageTable true level (s.page table i &&& pteAddrMask) s) = s₁
      have hused : s₁.used = s.used \ (parts i).toFinset := by
        rw [← hs₁, ← hone.used]
        split <;> rfl
      have hkept : ∀ f ≠ table, f ∉ parts i → s₁.page f = s.page f := by
        intro f hne hf
        rw [← hone.kept f hf, ← hs₁]
        split
        · exact Function.update_of_ne hne _ _
        · rfl
      have hothers : ∀ j ≠ i, s₁.page table j = s.page table j := by
        intro j hne
        rw [← hone.kept table htable.1, ← hs₁]
        split
        · simp [PhysState.setEntry, PhysState.setPage, hne]
        · rfl
      have hnext := @ih s₁ (nodup_cons.mp hrest).2 (by
        intro j hj
        have hne : j ≠ i := by
          rintro rfl
          exact (nodup_cons.mp hrest).1 hj
        rw [hothers j hne]
        apply (howned j (mem_cons_of_mem _ hj)).mono
        intro frame hframe
        apply hframe.congr
        intro f hf
        have hmem : f ∈ rest.flatMap parts := mem_flatMap.mpr ⟨j, hj, hf⟩
        apply hkept f
        · rintro rfl
          exact htable.2 hmem
        · exact fun hfi => hapart f hfi f hmem rfl) (nodup_cons.mpr ⟨htable.2, hflat⟩)
      refine ⟨?_, ?_⟩
      · rw [hnext.1, hused]
        ext f
        simp only [Finset.mem_sdiff, mem_toFinset, mem_append]
        tauto
      · intro f hf
        simp only [mem_cons, mem_append, not_or] at hf
        rw [hnext.2 f (by simp only [mem_cons, not_or]; exact ⟨hf.1, hf.2.2⟩), hkept f hf.1 hf.2.1]
    · rename_i howns
      rw [if_neg howns]
      rw [hentry, nil_append]
      apply ih (nodup_cons.mp hrest).2
      · exact fun j hj => howned j (mem_cons_of_mem _ hj)
      · exact nodup_cons.mpr ⟨htable.2, hflat⟩

/-- Releasing a table gives back what it owns. -/
theorem freePageTable_released (howned : Owned s.page level table frames) (hnodup : frames.Nodup) :
    Released s frames (freePageTable true level table s) := by
  induction level generalizing table frames s with
  | zero =>
    have hframes : frames = [table] := howned
    rw [hframes]
    refine ⟨?_, fun _ _ => rfl⟩
    ext f
    simp [freePageTable, and_comm]
  | succ level ih =>
    rcases howned with ⟨parts, rfl, hentries⟩
    have hloop := freeEntries_released (fun h h' => ih h h') (nodup_userSlots (level + 1)) hentries hnodup
    rw [freePageTable]
    refine ⟨?_, fun f hf => (PhysState.page_freeFrame _ _ f).trans (hloop.2 f hf)⟩
    rw [PhysState.used_freeFrame, hloop.1]
    ext f
    simp only [Finset.mem_erase, Finset.mem_sdiff, mem_toFinset, mem_cons, not_or]
    exact and_left_comm

theorem Took.released {s₁ s₂ : PhysState} (h : Took s frames s₁) (h' : Released s₁ frames s₂) :
    Took s [] s₂ := by
  refine ⟨nodup_nil, by simp, ?_, ?_⟩
  · ext f
    have hfresh := h.fresh f
    rw [h'.used, h.used]
    simp only [Finset.mem_sdiff, Finset.mem_union, mem_toFinset]
    tauto
  · intro f hf
    rw [h'.kept f fun hmem => h.fresh f hmem hf, h.kept f hf]

end OpenXJ380.Memory
