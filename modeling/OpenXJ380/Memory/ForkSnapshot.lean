/-
# `clone_page_directory` makes a snapshot or refuses

A finished copy translates what its source translates, in frames of its own. For a directory
that is not the kernel's, this needs that a frame is granted for each table and page: a page
without a frame is left out of the copy, which is returned all the same.
-/

import OpenXJ380.Memory.Fork

namespace OpenXJ380.Memory

open List Function
open PhysState (page_setEntry_other setPage)

/-- The end of the addresses of the user half. -/
def userEnd : Nat := 2 ^ 47

/-- The directory at `new` is a snapshot of the user half of the one at `old`: the same
addresses lead to pages, in distinct frames that were not in use, with the same contents and
flags, and large entries are shared. -/
structure Snapshot (before : PhysState) (old : UInt64) (after : PhysState) (new : UInt64) : Prop where
  absent : ∀ addr < userEnd, walkTable before.page 3 old addr = .absent →
    walkTable after.page 3 new addr = .absent
  huge : ∀ addr < userEnd, ∀ height entry, walkTable before.page 3 old addr = .huge height entry →
    walkTable after.page 3 new addr = .huge height entry
  page : ∀ addr < userEnd, ∀ entry, walkTable before.page 3 old addr = .page entry →
    ∃ frame, frame &&& pteAddrMask = frame ∧ frame ∉ before.used ∧ frame ∈ after.used ∧
      walkTable after.page 3 new addr =
        .page (frame ||| (entry &&& ~~~pteAddrMask) ||| pteFrameAllocated) ∧
      after.page frame = before.page (entry &&& pteAddrMask)
  distinct : ∀ addr < userEnd, ∀ addr' < userEnd, ∀ entry entry',
    walkTable after.page 3 new addr = .page entry → walkTable after.page 3 new addr' = .page entry' →
    entry &&& pteAddrMask = entry' &&& pteAddrMask → addr / pageSize = addr' / pageSize
  /-- The source and all other frames in use are as before. -/
  kept : ∀ f ∈ before.used, after.page f = before.page f

section Walk

variable {before after after' : UInt64 → FrameWords} {height addr : Nat} {old new : UInt64}
  {frames : List UInt64} {level : Nat} {entry : UInt64}

/-- The words of a table that are not copied may change. -/
theorem Copied.congr_root (h : Copied before after (level + 1) old new frames)
    (hnodup : frames.Nodup) (hroot : ∀ i ∈ userSlots (level + 1), after' new i = after new i)
    (hothers : ∀ f ≠ new, after' f = after f) :
    Copied before after' (level + 1) old new frames := by
  rcases h with ⟨parts, rfl, hentries⟩
  refine ⟨parts, rfl, ?_⟩
  intro i hi
  rw [hroot i hi]
  apply (hentries i hi).mono
  intro _ _ child hchild
  apply hchild.congr
  intro f hf
  apply hothers
  rintro rfl
  exact (nodup_cons.mp hnodup).1 (mem_flatMap.mpr ⟨i, hi, hf⟩)

variable {below : UInt64 → UInt64 → List UInt64 → Prop} {word table : UInt64}
  {memory : UInt64 → FrameWords}

section

variable (h : EntryCopied below level old word frames)
include h

theorem EntryCopied.follow (hpresent : isPresent word = true) (hhuge : isHuge word = false) :
    below (old &&& pteAddrMask) (word &&& pteAddrMask) frames := by
  unfold EntryCopied at h
  split at h
  · rcases h with ⟨child, haligned, rfl, hchild⟩
    rw [copiedEntry_address haligned]
    exact hchild
  · rename_i hcopy
    rw [h.2] at hpresent hhuge
    cases hold : isPresent old with
    | false =>
      rw [hold] at hpresent
      simp [isPresent, hasFlag] at hpresent
    | true =>
      rw [hold] at hhuge
      exact absurd ⟨hold, hhuge⟩ hcopy

/-- An entry of the source and its copy are of one kind. -/
theorem EntryCopied.kind :
    isPresent word = isPresent old ∧ (isPresent old = true → isHuge word = isHuge old) ∧
      (isPresent old = true → isHuge old = true → word = old) := by
  unfold EntryCopied at h
  split at h
  · rename_i hcopy
    rcases h with ⟨child, haligned, rfl, -⟩
    refine ⟨isPresent_copiedEntry haligned, fun _ => isHuge_copiedEntry haligned, ?_⟩
    intro _ hhuge
    simp [hcopy.2] at hhuge
  · rw [h.2]
    cases hold : isPresent old with
    | false => simp [isPresent, hasFlag]
    | true => simp [hold]

end

/-- What a copy leads to, from what its source leads to. -/
def Translation.CopyOf (before after : UInt64 → FrameWords) (frames : List UInt64) :
    Translation → Translation → Prop
  | .absent, copy => copy = .absent
  | .huge height entry, copy => copy = .huge height entry
  | .page entry, copy => ∃ frame, frame &&& pteAddrMask = frame ∧ frame ∈ frames ∧
      copy = .page (copiedEntry 1 frame entry) ∧ after frame = before (entry &&& pteAddrMask)

theorem Copied.walkTable_copyOf (h : Copied before after (height + 1) old new frames)
    (haddr : ∀ k, entryIndex k addr ∈ userSlots (k + 1)) :
    Translation.CopyOf before after frames (walkTable before height old addr)
      (walkTable after height new addr) := by
  induction height generalizing old new frames with
  | zero =>
    rcases h with ⟨parts, rfl, hentries⟩
    have hentry := hentries _ (haddr 0)
    rcases hentry.kind with ⟨hpresent', hhuge', hsame⟩
    simp only [walkTable]
    cases hpresent : isPresent (before old (entryIndex 0 addr)) with
    | false =>
      rw [hpresent', hpresent]
      rfl
    | true =>
      rw [hpresent', hpresent, hhuge' hpresent]
      cases hhuge : isHuge (before old (entryIndex 0 addr)) with
      | true =>
        rw [hsame hpresent hhuge]
        rfl
      | false =>
        rw [EntryCopied, if_pos ⟨hpresent, hhuge⟩] at hentry
        rcases hentry with ⟨child, haligned, hword, hframes, hcontents⟩
        refine ⟨child, haligned, ?_, ?_, hcontents⟩
        · apply mem_cons_of_mem
          apply mem_flatMap.mpr
          exact ⟨_, haddr 0, by rw [hframes]; exact mem_singleton_self _⟩
        · rw [hword]
          rfl
  | succ height ih =>
    rcases h with ⟨parts, rfl, hentries⟩
    have hentry := hentries _ (haddr (height + 1))
    rcases hentry.kind with ⟨hpresent', hhuge', hsame⟩
    simp only [walkTable]
    cases hpresent : isPresent (before old (entryIndex (height + 1) addr)) with
    | false =>
      rw [hpresent', hpresent]
      rfl
    | true =>
      rw [hpresent', hpresent, hhuge' hpresent]
      cases hhuge : isHuge (before old (entryIndex (height + 1) addr)) with
      | true =>
        rw [hsame hpresent hhuge]
        rfl
      | false =>
        have hbelow := ih (hentry.follow (hpresent'.trans hpresent) ((hhuge' hpresent).trans hhuge))
        generalize walkTable before height _ addr = source at hbelow ⊢
        cases source with
        | absent => exact hbelow
        | huge k entry => exact hbelow
        | page entry =>
          rcases hbelow with ⟨frame, haligned, hmem, hrest⟩
          refine ⟨frame, haligned, ?_, hrest⟩
          apply mem_cons_of_mem
          exact mem_flatMap.mpr ⟨_, haddr (height + 1), hmem⟩

theorem walkTable_zero_eq_page (h : walkTable memory 0 table addr = .page entry) :
    isPresent entry = true ∧ isHuge entry = false ∧ memory table (entryIndex 0 addr) = entry := by
  simp only [walkTable] at h
  split at h
  · simp at h
  split at h
  · simp at h
  · cases h
    simp_all

theorem walkTable_succ_eq_page (h : walkTable memory (height + 1) table addr = .page entry) :
    isPresent (memory table (entryIndex (height + 1) addr)) = true ∧
      isHuge (memory table (entryIndex (height + 1) addr)) = false ∧
      walkTable memory height (memory table (entryIndex (height + 1) addr) &&& pteAddrMask) addr =
        .page entry := by
  simp only [walkTable] at h
  split at h
  · simp at h
  · split at h
    · simp at h
    · simp_all

/-- A page of a copy lies in a frame of the entry that leads to it. -/
theorem Copied.mem_frames (h : Copied before after (height + 1) old new frames)
    (haddr : ∀ k, entryIndex k addr ∈ userSlots (k + 1))
    (hwalk : walkTable after height new addr = .page entry) : entry &&& pteAddrMask ∈ frames := by
  induction height generalizing old new frames with
  | zero =>
    rcases h with ⟨parts, rfl, hentries⟩
    rcases walkTable_zero_eq_page hwalk with ⟨hpresent, hhuge, rfl⟩
    have hpage := (hentries _ (haddr 0)).follow hpresent hhuge
    apply mem_cons_of_mem
    apply mem_flatMap.mpr
    exact ⟨_, haddr 0, by rw [hpage.1]; exact mem_singleton_self _⟩
  | succ height ih =>
    rcases h with ⟨parts, rfl, hentries⟩
    rcases walkTable_succ_eq_page hwalk with ⟨hpresent, hhuge, hnext⟩
    have hmem := ih ((hentries _ (haddr (height + 1))).follow hpresent hhuge) hnext
    exact mem_cons_of_mem _ (mem_flatMap.mpr ⟨_, haddr (height + 1), hmem⟩)

/-- The frames below two entries of a copy have nothing in common. -/
theorem eq_of_mem_parts {slots : List (Fin 512)} {parts : Fin 512 → List UInt64} {f : UInt64}
    {i j : Fin 512} (hnodup : (slots.flatMap parts).Nodup) (hi : i ∈ slots) (hj : j ∈ slots)
    (hfi : f ∈ parts i) (hfj : f ∈ parts j) : i = j := by
  by_contra hne
  have hapart := (nodup_flatMap.mp hnodup).2
  have hsymm : Std.Symm (onFun List.Disjoint parts) := ⟨fun _ _ h => h.symm⟩
  exact hapart.forall hi hj hne hfi hfj

/-- Two addresses in one frame of a copy are in one page. -/
theorem Copied.samePage {addr' : Nat} {entry' : UInt64}
    (h : Copied before after (height + 1) old new frames) (hnodup : frames.Nodup)
    (haddr : ∀ k, entryIndex k addr ∈ userSlots (k + 1))
    (haddr' : ∀ k, entryIndex k addr' ∈ userSlots (k + 1))
    (hwalk : walkTable after height new addr = .page entry)
    (hwalk' : walkTable after height new addr' = .page entry')
    (hframe : entry &&& pteAddrMask = entry' &&& pteAddrMask) : SamePage height addr addr' := by
  induction height generalizing old new frames with
  | zero =>
    rcases h with ⟨parts, rfl, hentries⟩
    rcases walkTable_zero_eq_page hwalk with ⟨hpresent, hhuge, rfl⟩
    rcases walkTable_zero_eq_page hwalk' with ⟨hpresent', hhuge', rfl⟩
    have hpage := (hentries _ (haddr 0)).follow hpresent hhuge
    have hpage' := (hentries _ (haddr' 0)).follow hpresent' hhuge'
    apply eq_of_mem_parts (f := after new (entryIndex 0 addr) &&& pteAddrMask)
      (nodup_cons.mp hnodup).2 (haddr 0) (haddr' 0)
    · rw [hpage.1]
      exact mem_singleton_self _
    · rw [hpage'.1, hframe]
      exact mem_singleton_self _
  | succ height ih =>
    rcases h with ⟨parts, rfl, hentries⟩
    rcases walkTable_succ_eq_page hwalk with ⟨hpresent, hhuge, hnext⟩
    rcases walkTable_succ_eq_page hwalk' with ⟨hpresent', hhuge', hnext'⟩
    have hbelow := (hentries _ (haddr (height + 1))).follow hpresent hhuge
    have hbelow' := (hentries _ (haddr' (height + 1))).follow hpresent' hhuge'
    have hflat := (nodup_cons.mp hnodup).2
    have hindex : entryIndex (height + 1) addr = entryIndex (height + 1) addr' :=
      eq_of_mem_parts hflat (haddr (height + 1)) (haddr' (height + 1))
        (hbelow.mem_frames haddr hnext) (hframe ▸ hbelow'.mem_frames haddr' hnext')
    rw [← hindex] at hnext'
    have hpart := (nodup_flatMap.mp hflat).1 _ (haddr (height + 1))
    exact ⟨hindex, ih hbelow hpart hnext hnext'⟩

end Walk

variable {addr count : Nat} {s' : PhysState} {dir old : UInt64} {source : FrameSource}

theorem entryIndex_mem_userSlots (h : addr < userEnd) (k : Nat) :
    entryIndex k addr ∈ userSlots (k + 1) := by
  apply mem_userSlots.mpr
  by_cases hk : k = 3
  · right
    subst hk
    simp only [entryIndex, userEnd] at h ⊢
    omega
  · left
    omega

theorem page_eq_of_samePage {addr' : Nat} (h : addr < userEnd) (h' : addr' < userEnd)
    (hsame : SamePage 3 addr addr') : addr / pageSize = addr' / pageSize := by
  simp only [SamePage, entryIndex, Fin.mk.injEq, userEnd, pageSize] at *
  omega

variable {s : PhysState} {new child : UInt64} {level : Nat}

theorem CopyOutcome.snapshot (h : CopyOutcome s 4 dir (some new, s')) :
    Snapshot s dir (s'.shareKernelHalf dir new) new := by
  rcases h with ⟨-, -, frames, htook, hcopied⟩
  have hshared : Copied s.page (s'.shareKernelHalf dir new).page 4 dir new frames := by
    apply hcopied.congr_root htook.nodup
    · intro i hi
      have hlow : i.val < 256 := by simpa using mem_userSlots.mp hi
      simp [PhysState.shareKernelHalf, setPage, hlow]
    · exact fun f hne => update_of_ne hne _ _
  have hmem : new ∈ frames := hcopied.owned.mem
  have hkept := (htook.setPage hmem fun i => if i.val < 256 then s'.page new i else s'.page dir i).kept
  refine ⟨?_, ?_, ?_, ?_, hkept⟩
  · intro addr haddr hwalk
    have hcopy := hshared.walkTable_copyOf (entryIndex_mem_userSlots haddr)
    rw [hwalk] at hcopy
    exact hcopy
  · intro addr haddr height entry hwalk
    have hcopy := hshared.walkTable_copyOf (entryIndex_mem_userSlots haddr)
    rw [hwalk] at hcopy
    exact hcopy
  · intro addr haddr entry hwalk
    have hcopy := hshared.walkTable_copyOf (entryIndex_mem_userSlots haddr)
    rw [hwalk] at hcopy
    rcases hcopy with ⟨frame, haligned, hframe, hword, hcontents⟩
    exact ⟨frame, haligned, htook.fresh frame hframe, htook.mem_used.mpr (.inl hframe), hword, hcontents⟩
  · intro addr haddr addr' haddr' entry entry' hwalk hwalk' hframe
    apply page_eq_of_samePage haddr haddr'
    exact hshared.samePage htook.nodup (entryIndex_mem_userSlots haddr) (entryIndex_mem_userSlots haddr')
      hwalk hwalk' hframe

/-- `clone_page_directory(dir, false)` refuses and gives back every frame, or returns a snapshot.
For a directory that is not the kernel's this needs that the allocator grants as many requests as
the directory has tables and pages. -/
theorem clonePageDirectory_snapshot (source : FrameSource) (bootstrap memory : Bool) (dir : UInt64)
    (s : PhysState) (hmapped : Mapped s.page s.used 4 dir)
    (hgranted : bootstrap = true ∨ source.grants (demand s.page 4 dir) s.used s.requests = true) :
    match clonePageDirectory source bootstrap memory dir s with
    | (none, s') => s'.used = s.used ∧ ∀ f ∈ s.used, s'.page f = s.page f
    | (some new, s') => Snapshot s dir s' new := by
  unfold clonePageDirectory
  cases memory with
  | false => exact ⟨rfl, fun _ _ => rfl⟩
  | true =>
    cases bootstrap with
    | true =>
      have hout := @copyBootstrap_outcome source 4 dir s hmapped
      generalize copyBootstrap source 4 dir s = run at hout ⊢
      obtain ⟨_ | new, s'⟩ := run
      · refine ⟨?_, hout.kept⟩
        ext f
        rw [hout.mem_used]
        simp
      · exact hout.snapshot
    | false =>
      simp only [Bool.false_eq_true, false_or] at hgranted ⊢
      exact (copyRecursive_outcome (n := 0) hmapped hgranted).1.snapshot

/-- An address space with one page, at the address zero: its tables are in the frames from
`0x1000` and the page is in `0x5000`. -/
def onePageMemory : PhysState where
  page f i :=
    if i = 0 then
      if f = 0x1000 then 0x2007
      else if f = 0x2000 then 0x3007
      else if f = 0x3000 then 0x4007
      else if f = 0x4000 then 0x5007
      else 0
    else 0
  used := {0x1000, 0x2000, 0x3000, 0x4000, 0x5000}
  requests := 0

/-- The frame of a request: one after the other from `0x10000`. -/
def nextFrame (count : Nat) (used : Finset UInt64) (k : Nat) : UInt64 :=
  let frame := 0x10000 + 0x1000 * UInt64.ofNat (k % 16)
  if k < count ∧ frame ∉ used then frame else 0

/-- A source with a number of frames. -/
def fewFrames (count : Nat) : FrameSource where
  frame := nextFrame count
  fresh := by
    intro used k h
    simp only [nextFrame] at h ⊢
    split at h
    · rename_i hfree
      rw [if_pos hfree]
      exact hfree.2
    · exact absurd rfl h
  aligned := by
    intro used k
    have hall : ∀ j < 16, (0x10000 + 0x1000 * UInt64.ofNat j) &&& pteAddrMask =
        0x10000 + 0x1000 * UInt64.ofNat j := by decide
    simp only [nextFrame]
    split
    · exact hall (k % 16) (Nat.mod_lt _ (by decide))
    · decide

theorem recursiveEntries_absent {copy : Bool → UInt64 → PhysState → UInt64 × PhysState}
    {kernelSpace : Bool} {rest : List (Fin 512)}
    (hold : ∀ i ∈ rest, isPresent (s.page old i) = false) (hnew : ∀ i ∈ rest, s.page new i = 0) :
    recursiveEntries copy level kernelSpace old new rest s = s := by
  induction rest with
  | nil => rfl
  | cons i rest ih =>
    rw [recursiveEntries]
    simp only [hold i mem_cons_self]
    rw [PhysState.setEntry_self (hnew i mem_cons_self)]
    exact ih (fun j hj => hold j (mem_cons_of_mem _ hj)) fun j hj => hnew j (mem_cons_of_mem _ hj)

theorem userSlots_eq_cons (level : Nat) : ∃ rest, userSlots level = 0 :: rest ∧ 0 ∉ rest := by
  have hnodup := nodup_userSlots level
  have hcons : userSlots level =
      0 :: ((List.finRange 511).map Fin.succ).filter fun i => decide (level ≠ 4 ∨ i.val < 256) := by
    unfold userSlots
    rw [finRange_succ, filter_cons_of_pos (by simp)]
  rw [hcons] at hnodup
  exact ⟨_, hcons, (nodup_cons.mp hnodup).1⟩

theorem copyRecursive_single (hold : ∀ i ≠ 0, s.page old i = 0)
    (hpresent : isPresent (s.page old 0) = true) (hhuge : isHuge (s.page old 0) = false)
    {s₁ s₂ : PhysState} (halloc : s.allocFrame source = (new, s₁)) (hnew : old ≠ new)
    (hrun : copyRecursive source false level false (s.page old 0 &&& pteAddrMask)
      (s₁.setPage new fun _ => 0) = (child, s₂)) (hkept : s₂.page old = s.page old)
    (hblank : s₂.page new = fun _ => 0) :
    copyRecursive source false (level + 1) false old s = (new,
      if level + 1 = 1 ∧ child = 0 then s₂
      else s₂.setEntry new 0 (copiedEntry (level + 1) child (s.page old 0))) := by
  rcases userSlots_eq_cons (level + 1) with ⟨rest, hslots, hrest⟩
  have hsame : (s₁.setPage new fun _ => 0).page old = s.page old := by
    have hpage : s₁.page = s.page := congrArg (fun r => r.2.page) halloc.symm
    rw [setPage, hpage]
    exact update_of_ne hnew _ _
  have huser : (if level + 1 ≠ 4 then false else decide (256 ≤ (0 : Fin 512).val)) = false := by
    split <;> rfl
  have hne : ∀ {i}, i ∈ rest → i ≠ 0 := fun hi heq => hrest (heq ▸ hi)
  have hzero : isPresent 0 = false := by decide
  rw [copyRecursive, if_neg (by simp), halloc]
  dsimp only
  rw [copySlots, if_neg (by simp), hslots, recursiveEntries]
  simp only [hsame, hpresent, hhuge, huser, hrun, Bool.not_true, Bool.false_eq_true, if_false]
  congr 1
  split
  · apply recursiveEntries_absent
    · intro i hi
      rw [hkept, hold i (hne hi), hzero]
    · intro i _
      rw [hblank]
  · apply recursiveEntries_absent
    · intro i hi
      rw [page_setEntry_other _ hnew, hkept, hold i (hne hi), hzero]
    · intro i hi
      rw [PhysState.page_setEntry_of_ne _ _ (hne hi), hblank]

/-- After a number of new tables, before the first of their entries is written. -/
def newTables (count : Nat) : Nat → PhysState
  | 0 => onePageMemory
  | n + 1 => ((newTables count n).allocFrame (fewFrames count)).2.setPage
      (0x10000 + 0x1000 * UInt64.ofNat n) fun _ => 0

/-- The copy of the page is in the frame `child`, or there is none; the entries are written on
the way back. -/
def copyOfOnePage (child : UInt64) (s : PhysState) : PhysState :=
  (((if child = 0 then s else s.setEntry 0x13000 0 (copiedEntry 1 child 0x5007)).setEntry 0x12000 0
    (copiedEntry 2 0x13000 0x4007)).setEntry 0x11000 0 (copiedEntry 3 0x12000 0x3007)).setEntry 0x10000 0
    (copiedEntry 4 0x11000 0x2007)

theorem onePage_blank {f : UInt64} (h : 0x5000 ≤ f) : onePageMemory.page f = fun _ => 0 := by
  have hne : f ≠ 0x1000 ∧ f ≠ 0x2000 ∧ f ≠ 0x3000 ∧ f ≠ 0x4000 := by
    refine ⟨?_, ?_, ?_, ?_⟩ <;>
      · rintro rfl
        exact absurd h (by decide)
  funext i
  simp [onePageMemory, hne]

theorem page_newTables {count n : Nat} (hn : n ≤ 4) : (newTables count n).page = onePageMemory.page := by
  induction n with
  | zero => rfl
  | succ n ih =>
    have hsmall : ∀ k < 4, (0x5000 : UInt64) ≤ 0x10000 + 0x1000 * UInt64.ofNat k := by decide
    have hblank := onePage_blank (hsmall n (by omega))
    change update (newTables count n).page _ _ = _
    rw [ih (by omega), ← hblank, update_eq_self]

theorem newTables_single {n : Nat} (hn : n ≤ 4) (old new : UInt64)
    (hkind : isPresent (onePageMemory.page old 0) = true ∧ isHuge (onePageMemory.page old 0) = false)
    (halloc : ((newTables count n).allocFrame (fewFrames count)).1 = 0x10000 + 0x1000 * UInt64.ofNat n)
    (hnew : 0x10000 + 0x1000 * UInt64.ofNat n = new) (hne : old ≠ new)
    (hrun : copyRecursive (fewFrames count) false level false (onePageMemory.page old 0 &&& pteAddrMask)
      (newTables count (n + 1)) = (child, s)) (hkept : s.page old = onePageMemory.page old)
    (hblank : s.page new = onePageMemory.page new) (hlarge : 0x5000 ≤ new) :
    copyRecursive (fewFrames count) false (level + 1) false old (newTables count n) = (new,
      if level + 1 = 1 ∧ child = 0 then s
      else s.setEntry new 0 (copiedEntry (level + 1) child (onePageMemory.page old 0))) := by
  have hpage := @page_newTables count n hn
  rw [onePage_blank hlarge] at hblank
  rw [← hpage] at hkind hrun hkept ⊢
  refine copyRecursive_single ?_ hkind.1 hkind.2 (Prod.ext (halloc.trans hnew) rfl) hne ?_ hkept hblank
  · intro i hi
    rw [hpage]
    exact if_neg hi
  · rw [← hnew]
    exact hrun

theorem copyRecursive_onePage (halloc : ∀ n < 4,
      ((newTables count n).allocFrame (fewFrames count)).1 = 0x10000 + 0x1000 * UInt64.ofNat n)
    (hleaf : copyRecursive (fewFrames count) false 0 false 0x5000 (newTables count 4) = (child, s))
    (hpage : ∀ f < 0x14000, s.page f = onePageMemory.page f) :
    copyRecursive (fewFrames count) false 4 false 0x1000 onePageMemory = (0x10000, copyOfOnePage child s) := by
  have hone := newTables_single (n := 3) (by decide) 0x4000 0x13000 (by decide)
    (halloc 3 (by decide)) (by decide) (by decide) hleaf (hpage _ (by decide)) (hpage _ (by decide))
    (by decide)
  have hpage' : ∀ f < 0x13000, (if 0 + 1 = 1 ∧ child = 0 then s
      else s.setEntry 0x13000 0 (copiedEntry (0 + 1) child (onePageMemory.page 0x4000 0))).page f =
      onePageMemory.page f := by
    intro f hf
    have hlt : f < 0x14000 := UInt64.lt_trans hf (by decide)
    split
    · exact hpage f hlt
    · rw [page_setEntry_other _ (UInt64.ne_of_lt hf), hpage f hlt]
  have htwo := newTables_single (n := 2) (by decide) 0x3000 0x12000 (by decide)
    (halloc 2 (by decide)) (by decide) (by decide) hone (hpage' _ (by decide)) (hpage' _ (by decide))
    (by decide)
  have hthree := newTables_single (n := 1) (by decide) 0x2000 0x11000 (by decide)
    (halloc 1 (by decide)) (by decide) (by decide) htwo
    ((page_setEntry_other _ (by decide) _ _).trans (hpage' _ (by decide)))
    ((page_setEntry_other _ (by decide) _ _).trans (hpage' _ (by decide))) (by decide)
  have hfour := newTables_single (n := 0) (by decide) 0x1000 0x10000 (by decide)
    (halloc 0 (by decide)) (by decide) (by decide) hthree
    ((page_setEntry_other _ (by decide) _ _).trans
      ((page_setEntry_other _ (by decide) _ _).trans (hpage' _ (by decide))))
    ((page_setEntry_other _ (by decide) _ _).trans
      ((page_setEntry_other _ (by decide) _ _).trans (hpage' _ (by decide)))) (by decide)
  simp only [true_and] at hfour
  exact hfour

theorem clonePageDirectory_ordinary (h : copyRecursive source false 4 false dir s = (new, s')) :
    clonePageDirectory source false true dir s = (some new, s'.shareKernelHalf dir new) := by
  simp only [clonePageDirectory, h]
  rfl

/-- With four frames the tables are copied and the page is not: the source has a page at
address zero, the copy is returned and has none. -/
theorem clonePageDirectory_leaves_page_out :
    walkTable onePageMemory.page 3 0x1000 0 = .page 0x5007 ∧
      (clonePageDirectory (fewFrames 4) false true 0x1000 onePageMemory).1 = some 0x10000 ∧
      walkTable (clonePageDirectory (fewFrames 4) false true 0x1000 onePageMemory).2.page 3 0x10000 0 =
        .absent := by
  have hleaf : copyRecursive (fewFrames 4) false 0 false 0x5000 (newTables 4 4) =
      (0, ((newTables 4 4).allocFrame (fewFrames 4)).2) := by
    have hframe : ((newTables 4 4).allocFrame (fewFrames 4)).1 = 0 := by decide +kernel
    rw [copyRecursive]
    simp only [hframe, if_true]
  have hcopy := copyRecursive_onePage (by decide +kernel) hleaf
    fun f _ => congrFun (page_newTables (Nat.le_refl 4)) f
  rw [clonePageDirectory_ordinary hcopy]
  refine ⟨by decide +kernel, rfl, by decide +kernel⟩

theorem mapped_onePage : Mapped onePageMemory.page onePageMemory.used 4 0x1000 := by
  have hzero : ∀ {f i}, isPresent (onePageMemory.page f i) = true → i = 0 := by
    intro f i hpresent
    by_contra hne
    simp [onePageMemory, hne, isPresent, hasFlag] at hpresent
  iterate 4
    refine ⟨by decide, fun i _ hi _ => ?_⟩
    rw [hzero hi]
  change _ ∈ onePageMemory.used
  decide

/-- A table with one entry needs one frame more than what the entry leads to. -/
theorem demand_onePage {old : UInt64}
    (hkind : isPresent (onePageMemory.page old 0) = true ∧ isHuge (onePageMemory.page old 0) = false) :
    demand onePageMemory.page (level + 1) old =
      demand onePageMemory.page level (onePageMemory.page old 0 &&& pteAddrMask) + 1 := by
  obtain ⟨rest, hslots, hrest⟩ := userSlots_eq_cons (level + 1)
  have hzero : ∀ i ∈ rest, isPresent (onePageMemory.page old i) = false := by
    intro i hi
    have hne : i ≠ 0 := fun heq => hrest (heq ▸ hi)
    simp [onePageMemory, hne, isPresent, hasFlag]
  rw [demand, hslots, map_cons, sum_cons, sum_eq_zero fun value hvalue => ?_]
  · simp [hkind]
  · obtain ⟨i, hi, rfl⟩ := mem_map.mp hvalue
    simp [hzero i hi]

/-- With five frames the page is copied as well. -/
theorem clonePageDirectory_snapshot_onePage :
    (fewFrames 5).grants (demand onePageMemory.page 4 0x1000) onePageMemory.used 0 = true ∧
      ∃ s', clonePageDirectory (fewFrames 5) false true 0x1000 onePageMemory = (some 0x10000, s') ∧
        Snapshot onePageMemory 0x1000 s' 0x10000 := by
  have hleaf : copyRecursive (fewFrames 5) false 0 false 0x5000 (newTables 5 4) =
      (0x14000, ((newTables 5 4).allocFrame (fewFrames 5)).2.setPage 0x14000
        (((newTables 5 4).allocFrame (fewFrames 5)).2.page 0x5000)) := by
    rfl
  have hcopy := copyRecursive_onePage (by decide +kernel) hleaf fun f hf =>
    (update_of_ne (UInt64.ne_of_lt hf) _ _).trans (congrFun (page_newTables (Nat.le_refl 4)) f)
  have hclone := clonePageDirectory_ordinary hcopy
  have hdemand : demand onePageMemory.page 4 0x1000 = 5 := by
    iterate 4 rw [demand_onePage (by decide)]
    rfl
  have hgranted : (fewFrames 5).grants (demand onePageMemory.page 4 0x1000) onePageMemory.used 0 = true := by
    rw [hdemand]
    decide +kernel
  have hsnapshot := clonePageDirectory_snapshot (fewFrames 5) false true 0x1000 onePageMemory mapped_onePage
    (.inr hgranted)
  rw [hclone] at hsnapshot
  exact ⟨hgranted, _, hclone, hsnapshot⟩

end OpenXJ380.Memory
