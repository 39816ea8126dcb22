/-
# The two copies of a table

Both copies are followed through one loop invariant, `Copying`. The copy of the kernel's
directory is complete or gives everything back, under every pattern of refused frames. The
copy of any other directory is complete where no frame is refused.
-/

import OpenXJ380.Memory.SnapshotCopy

namespace OpenXJ380.Memory

open List Function

/-- The copy of a table after some of its entries. -/
structure Copying (s₀ : PhysState) (level : Nat) (old new : UInt64) (done : List (Fin 512))
    (parts : Fin 512 → List UInt64) (s : PhysState) : Prop where
  took : Took s₀ (new :: done.flatMap parts) s
  copied : ∀ i ∈ done, EntryCopied (Copied s₀.page s.page level) (level + 1) (s₀.page old i)
    (s.page new i) (parts i)
  blank : ∀ i ∉ done, s.page new i = 0 ∧ parts i = []

/-- What a copy returns: nothing, and everything is given back, or a copy in new frames. -/
def CopyOutcome (s₀ : PhysState) (level : Nat) (old : UInt64) : Option UInt64 × PhysState → Prop
  | (none, s) => Took s₀ [] s
  | (some new, s) => new ≠ 0 ∧ new &&& pteAddrMask = new ∧
      ∃ frames, Took s₀ frames s ∧ Copied s₀.page s.page level old new frames

namespace PhysState

theorem setEntry_self {s : PhysState} {table : UInt64} {i : Fin 512} {entry : UInt64}
    (h : s.page table i = entry) : s.setEntry table i entry = s := by
  rw [setEntry, setPage, ← h, update_eq_self, update_eq_self]

variable (s : PhysState)

theorem page_setEntry_self (table : UInt64) (i : Fin 512) (entry : UInt64) :
    (s.setEntry table i entry).page table i = entry := by
  simp [setEntry, setPage]

theorem page_setEntry_of_ne (table : UInt64) {i j : Fin 512} (h : j ≠ i) (entry : UInt64) :
    (s.setEntry table i entry).page table j = s.page table j := by
  simp [setEntry, setPage, h]

theorem page_setEntry_other {table f : UInt64} (h : f ≠ table) (i : Fin 512) (entry : UInt64) :
    (s.setEntry table i entry).page f = s.page f :=
  update_of_ne h _ _

end PhysState

namespace Copying

variable {s₀ s s' : PhysState} {level : Nat} {old new : UInt64} {done : List (Fin 512)}
  {parts : Fin 512 → List UInt64} {i : Fin 512}

theorem start (h : Took s₀ [new] s) :
    Copying s₀ level old new [] (fun _ => []) (s.setPage new fun _ => 0) := by
  refine ⟨h.setPage (mem_singleton_self new) _, by simp, ?_⟩
  intro i _
  simp [PhysState.setPage]

section

variable (h : Copying s₀ level old new done parts s)
include h

theorem new_mem : new ∈ s.used := h.took.mem_used.mpr (.inl mem_cons_self)

theorem mem_parts (hi : i ∈ done) {f : UInt64} (hf : f ∈ parts i) : f ∈ s.used ∧ f ≠ new := by
  have hflat : f ∈ done.flatMap parts := mem_flatMap.mpr ⟨i, hi, hf⟩
  refine ⟨h.took.mem_used.mpr (.inl (mem_cons_of_mem _ hflat)), ?_⟩
  rintro rfl
  exact (nodup_cons.mp h.took.nodup).1 hflat

section

variable (hi : i ∉ done)
include hi

theorem entry {more : List UInt64}
    (htook : Took s more s') {word : UInt64}
    (hentry : EntryCopied (Copied s₀.page s'.page level) (level + 1) (s₀.page old i) word more) :
    Copying s₀ level old new (done ++ [i]) (update parts i more) (s'.setEntry new i word) := by
  have hnew : s'.page new = s.page new := htook.kept new h.new_mem
  have hne : ∀ {j}, j ∈ done → j ≠ i := fun hj heq => hi (heq ▸ hj)
  have hframes : (new :: done.flatMap parts) ++ more =
      new :: (done ++ [i]).flatMap (update parts i more) := by
    have hdone : done.flatMap (update parts i more) = done.flatMap parts :=
      flatMap_congr fun j hj => update_of_ne (hne hj) _ _
    simp [hdone]
  refine ⟨?_, ?_, ?_⟩
  · rw [← hframes]
    exact (h.took.trans htook).setPage mem_cons_self _
  · intro j hj
    rcases mem_append.mp hj with hj | hj
    · rw [update_of_ne (hne hj), PhysState.page_setEntry_of_ne _ _ (hne hj), hnew]
      apply (h.copied j hj).mono
      intro _ _ child hchild
      apply hchild.congr
      intro f hf
      rw [PhysState.page_setEntry_other _ (h.mem_parts hj hf).2, htook.kept f (h.mem_parts hj hf).1]
    · rw [mem_singleton.mp hj, update_self, PhysState.page_setEntry_self]
      apply hentry.mono
      intro _ _ child hchild
      apply hchild.congr
      intro f hf
      apply PhysState.page_setEntry_other
      rintro rfl
      exact htook.fresh f hf h.new_mem
  · intro j hj
    rw [mem_append, not_or, mem_singleton] at hj
    rw [PhysState.page_setEntry_of_ne _ _ hj.2, update_of_ne hj.2, hnew]
    exact h.blank j hj.1

theorem absent (hpresent : isPresent (s₀.page old i) = false) :
    ∃ parts', Copying s₀ level old new (done ++ [i]) parts' s := by
  have hzero : EntryCopied (Copied s₀.page s.page level) (level + 1) (s₀.page old i) 0 [] := by
    simp [EntryCopied, hpresent]
  have hnext := h.entry hi (Took.refl s) hzero
  rw [PhysState.setEntry_self (h.blank i hi).1] at hnext
  exact ⟨_, hnext⟩

variable (hpresent : isPresent (s₀.page old i) = true)
include hpresent

theorem large (hhuge : isHuge (s₀.page old i) = true) :
    ∃ parts', Copying s₀ level old new (done ++ [i]) parts' (s.setEntry new i (s₀.page old i)) :=
  ⟨_, h.entry hi (Took.refl s) (by simp [EntryCopied, hpresent, hhuge])⟩

theorem child (hhuge : isHuge (s₀.page old i) = false)
    (hmapped : Mapped s₀.page s₀.used level (s₀.page old i &&& pteAddrMask)) {below : UInt64}
    (hcopy : CopyOutcome s level (s₀.page old i &&& pteAddrMask) (some below, s')) :
    ∃ parts', Copying s₀ level old new (done ++ [i]) parts'
      (s'.setEntry new i (copiedEntry (level + 1) below (s₀.page old i))) := by
  rcases hcopy with ⟨-, haligned, frames, htook, hcopied⟩
  have hsource : Copied s₀.page s'.page level (s₀.page old i &&& pteAddrMask) below frames :=
    hcopied.congr_source (hmapped.transport (Finset.Subset.refl _) h.took.kept)
      fun f hf => (h.took.kept f hf).symm
  refine ⟨_, h.entry hi htook ?_⟩
  rw [EntryCopied, if_pos ⟨hpresent, hhuge⟩]
  exact ⟨below, haligned, rfl, hsource⟩

end

theorem refused (htook : Took s [] s') : Copying s₀ level old new done parts s' := by
  have hnew : s'.page new = s.page new := htook.kept new h.new_mem
  refine ⟨?_, ?_, ?_⟩
  · simpa using h.took.trans htook
  · intro j hj
    rw [hnew]
    apply (h.copied j hj).mono
    intro _ _ child hchild
    apply hchild.congr
    exact fun f hf => htook.kept f (h.mem_parts hj hf).1
  · rw [hnew]
    exact h.blank

end

/-- Releasing what there is of the copy gives everything back. -/
theorem release {rest : List (Fin 512)} (h : Copying s₀ level old new done parts s)
    (hslots : done ++ rest = userSlots (level + 1)) :
    Took s₀ [] (freePageTable true (level + 1) new s) := by
  have hnodup : (done ++ rest).Nodup := hslots ▸ nodup_userSlots (level + 1)
  have hrest : rest.flatMap parts = [] := by
    rw [flatMap_eq_nil_iff]
    intro j hj
    exact (h.blank j fun hdone => (nodup_append.mp hnodup).2.2 j hdone j hj rfl).2
  have hframes : (userSlots (level + 1)).flatMap parts = done.flatMap parts := by
    rw [← hslots, flatMap_append, hrest, append_nil]
  apply h.took.released
  apply freePageTable_released _ h.took.nodup
  refine ⟨parts, by rw [hframes], ?_⟩
  intro j _
  by_cases hj : j ∈ done
  · exact (h.copied j hj).owned.mono fun _ hchild => hchild.owned
  · have hzero : ownsEntry true (level + 1) 0 = false := by
      have hpresent : isPresent 0 = false := by decide
      simp [ownsEntry, hpresent]
    rw [EntryOwned, (h.blank j hj).1, hzero]
    exact (h.blank j hj).2

theorem outcome (h : Copying s₀ level old new (userSlots (level + 1)) parts s) (hnew : new ≠ 0)
    (haligned : new &&& pteAddrMask = new) : CopyOutcome s₀ (level + 1) old (some new, s) :=
  ⟨hnew, haligned, _, h.took, parts, rfl, h.copied⟩

end Copying

/-- The slot that comes next is one that was not done yet. -/
theorem next_userSlot {level : Nat} {done rest : List (Fin 512)} {i : Fin 512}
    (hslots : done ++ i :: rest = userSlots level) :
    (done ++ [i]) ++ rest = userSlots level ∧ i ∉ done ∧ i ∈ userSlots level := by
  have hnodup : (done ++ i :: rest).Nodup := hslots ▸ nodup_userSlots level
  refine ⟨by simpa using hslots, fun hmem => ?_, hslots ▸ by simp⟩
  exact (nodup_append.mp hnodup).2.2 i hmem i mem_cons_self rfl

section Bootstrap

variable {source : FrameSource} {level : Nat} {old new : UInt64} {s₀ : PhysState}

theorem bootstrapEntries_outcome
    (hcopy : ∀ {old : UInt64} {s : PhysState}, Mapped s.page s.used level old →
      CopyOutcome s level old (copyBootstrap source level old s))
    (hmapped : Mapped s₀.page s₀.used (level + 1) old) (hnew : new ≠ 0)
    (haligned : new &&& pteAddrMask = new) {done rest : List (Fin 512)}
    {parts : Fin 512 → List UInt64} {s : PhysState} (hslots : done ++ rest = userSlots (level + 1))
    (h : Copying s₀ level old new done parts s) :
    CopyOutcome s₀ (level + 1) old
      (bootstrapEntries (copyBootstrap source level) (level + 1) old new rest s) := by
  induction rest generalizing done parts s with
  | nil =>
    rw [append_nil] at hslots
    subst hslots
    exact h.outcome hnew haligned
  | cons i rest ih =>
    obtain ⟨hnext, hi, hslot⟩ := next_userSlot hslots
    rw [bootstrapEntries]
    simp only [h.took.kept old hmapped.1]
    cases hpresent : isPresent (s₀.page old i) with
    | false =>
      rcases h.absent hi hpresent with ⟨parts', h'⟩
      exact ih hnext h'
    | true =>
      cases hhuge : isHuge (s₀.page old i) with
      | true =>
        rcases h.large hi hpresent hhuge with ⟨parts', h'⟩
        exact ih hnext h'
      | false =>
        have hbelow := hmapped.2 i hslot hpresent hhuge
        have hone := hcopy (hbelow.transport (fun f hf => h.took.mem_used.mpr (.inr hf)) h.took.kept)
        rcases hrun : copyBootstrap source level (s₀.page old i &&& pteAddrMask) s with ⟨_ | child, s'⟩
        · rw [hrun] at hone
          exact (h.refused hone).release hslots
        · rw [hrun] at hone
          rcases h.child hi hpresent hhuge hbelow hone with ⟨parts', h'⟩
          exact ih hnext h'

/-- The copy of the kernel's directory is complete or refused. -/
theorem copyBootstrap_outcome {s : PhysState} (hmapped : Mapped s.page s.used level old) :
    CopyOutcome s level old (copyBootstrap source level old s) := by
  induction level generalizing old s with
  | zero =>
    simp only [copyBootstrap]
    split
    · rename_i hframe
      exact Took.allocFrame_refused hframe
    · rename_i hframe
      have htook := Took.allocFrame hframe
      refine ⟨hframe, source.aligned _ _, _, htook.setPage (mem_singleton_self _) _, rfl, ?_⟩
      simp only [PhysState.setPage, update_self]
      exact htook.kept old hmapped
  | succ level ih =>
    simp only [copyBootstrap]
    split
    · rename_i hframe
      exact Took.allocFrame_refused hframe
    · rename_i hframe
      exact bootstrapEntries_outcome (fun h => ih h) hmapped hframe (source.aligned _ _)
        (nil_append _) (Copying.start (Took.allocFrame hframe))

end Bootstrap

section Recursive

variable {source : FrameSource} {level n : Nat} {old new : UInt64} {s₀ s : PhysState}

theorem allocFrame_granted (h : source.grants (n + 1) s.used s.requests = true) :
    (s.allocFrame source).1 ≠ 0 ∧
      source.grants n (s.allocFrame source).2.used (s.allocFrame source).2.requests = true := by
  rw [FrameSource.grants, Bool.and_eq_true, bne_iff_ne] at h
  refine ⟨h.1, ?_⟩
  simp only [PhysState.allocFrame, if_neg h.1]
  exact h.2

/-- What a copy needs depends on the tables that are copied only. -/
theorem Mapped.demand_congr {before after : UInt64 → FrameWords} {used : Finset UInt64}
    (h : Mapped before used level old) (hkept : ∀ f ∈ used, after f = before f) :
    demand after level old = demand before level old := by
  induction level generalizing old with
  | zero => rfl
  | succ level ih =>
    simp only [demand, hkept old h.1]
    congr 2
    apply map_congr_left
    intro i hi
    split
    next hcopy =>
      simp only [Bool.and_eq_true, Bool.not_eq_true'] at hcopy
      exact ih (h.2 i hi hcopy.1 hcopy.2)
    · rfl

theorem recursiveEntries_outcome
    (hcopy : ∀ {old : UInt64} {s : PhysState} {n : Nat}, Mapped s.page s.used level old →
      source.grants (demand s.page level old + n) s.used s.requests = true →
      let run := copyRecursive source false level false old s
      CopyOutcome s level old (some run.1, run.2) ∧ source.grants n run.2.used run.2.requests = true)
    (hmapped : Mapped s₀.page s₀.used (level + 1) old) (hnew : new ≠ 0)
    (haligned : new &&& pteAddrMask = new) {done rest : List (Fin 512)}
    {parts : Fin 512 → List UInt64} (hslots : done ++ rest = userSlots (level + 1))
    (h : Copying s₀ level old new done parts s)
    (hgranted : source.grants ((rest.map fun i =>
      if isPresent (s₀.page old i) && !isHuge (s₀.page old i) then
        demand s₀.page level (s₀.page old i &&& pteAddrMask) else 0).sum + n) s.used s.requests = true) :
    let last := recursiveEntries (copyRecursive source false level) (level + 1) false old new rest s
    CopyOutcome s₀ (level + 1) old (some new, last) ∧ source.grants n last.used last.requests = true := by
  induction rest generalizing done parts s with
  | nil =>
    rw [append_nil] at hslots
    subst hslots
    rw [map_nil, sum_nil, Nat.zero_add] at hgranted
    exact ⟨h.outcome hnew haligned, hgranted⟩
  | cons i rest ih =>
    obtain ⟨hnext, hi, hslot⟩ := next_userSlot hslots
    rw [map_cons, sum_cons, Nat.add_assoc] at hgranted
    rw [recursiveEntries]
    simp only [h.took.kept old hmapped.1]
    cases hpresent : isPresent (s₀.page old i) with
    | false =>
      rcases h.absent hi hpresent with ⟨parts', h'⟩
      simp only [hpresent, Bool.false_and, Bool.false_eq_true, if_false, Nat.zero_add] at hgranted
      rw [PhysState.setEntry_self (h.blank i hi).1]
      exact ih hnext h' hgranted
    | true =>
      cases hhuge : isHuge (s₀.page old i) with
      | true =>
        rcases h.large hi hpresent hhuge with ⟨parts', h'⟩
        simp only [hpresent, hhuge, Bool.not_true, Bool.and_false, Bool.false_eq_true, if_false,
          Nat.zero_add] at hgranted
        exact ih hnext h' hgranted
      | false =>
        have huser : (if level + 1 ≠ 4 then false else decide (256 ≤ i.val)) = false := by
          rcases mem_userSlots.mp hslot with hlevel | hi
          · rw [if_pos hlevel]
          · split
            · rfl
            · exact decide_eq_false (by omega)
        have hbelow := hmapped.2 i hslot hpresent hhuge
        simp only [hpresent, hhuge, Bool.not_false, Bool.and_self, if_true] at hgranted
        rw [← hbelow.demand_congr h.took.kept] at hgranted
        simp only [huser]
        obtain ⟨hout, hgranted⟩ := hcopy
          (hbelow.transport (fun f hf => h.took.mem_used.mpr (.inr hf)) h.took.kept) hgranted
        generalize copyRecursive source false level false (s₀.page old i &&& pteAddrMask) s = run
          at hout hgranted ⊢
        obtain ⟨child, s'⟩ := run
        have hchild : ¬(level + 1 = 1 ∧ child = 0) := fun hzero => hout.1 hzero.2
        simp only [if_neg hchild]
        rcases h.child hi hpresent hhuge hbelow hout with ⟨parts', h'⟩
        exact ih hnext h' hgranted

/-- Where its requests are granted, the copy of any directory is complete, and it makes one for each
table and page. -/
theorem copyRecursive_outcome (hmapped : Mapped s.page s.used level old)
    (hgranted : source.grants (demand s.page level old + n) s.used s.requests = true) :
    let run := copyRecursive source false level false old s
    CopyOutcome s level old (some run.1, run.2) ∧ source.grants n run.2.used run.2.requests = true := by
  induction level generalizing old s n with
  | zero =>
    rw [demand, Nat.add_comm] at hgranted
    obtain ⟨hframe, hrest⟩ := allocFrame_granted hgranted
    have htook := Took.allocFrame hframe
    simp only [copyRecursive, if_neg hframe]
    refine ⟨⟨hframe, source.aligned _ _, _, htook.setPage (mem_singleton_self _) _, rfl, ?_⟩, hrest⟩
    simp only [PhysState.setPage, update_self]
    exact htook.kept old hmapped
  | succ level ih =>
    have hfalse : ¬(level = 0 ∧ false = true) := by simp
    rw [demand, Nat.add_right_comm] at hgranted
    obtain ⟨hframe, hrest⟩ := allocFrame_granted hgranted
    simp only [copyRecursive, if_neg hfalse]
    exact recursiveEntries_outcome (fun h h' => ih h h') hmapped hframe (source.aligned _ _)
      (nil_append _) (Copying.start (Took.allocFrame hframe)) hrest

end Recursive

end OpenXJ380.Memory
