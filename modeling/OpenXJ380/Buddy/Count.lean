/-
# How many frames are free

In a sound system the free frames of all zones are the added frames that are not live, so their
number follows the set of live frames: an allocation takes the whole block for its count, a
frame that is given back adds one.
-/

import OpenXJ380.Buddy.Partition

namespace OpenXJ380.Buddy

open Finset Protocol Data

namespace State

def zoneFree (state : State) (type : ZoneType) : ℕ :=
  match state.zones type with
  | none => 0
  | some zone => zone.freePages

/-- The number of free frames in all zones. -/
def freeTotal (state : State) : ℕ :=
  state.zoneFree .dma + state.zoneFree .dma32 + state.zoneFree .normal

end State

namespace System

variable {platform : Platform} {system : System}

theorem Sound.zoneFree (sound : system.Sound platform) (type : ZoneType) :
    system.state.zoneFree type =
      ((system.added \ system.live).filter fun frame => physToZoneType (frame * pageSize) = type).card := by
  unfold State.zoneFree
  cases found : system.state.zones type with
  | none =>
    -- An added frame lies in a zone that exists.
    symm
    rw [card_eq_zero, filter_eq_empty_iff]
    intro frame member zone
    obtain ⟨-, -, other, zone', found', inside⟩ := sound.placed frame (mem_sdiff.mp member).1
    rw [inside.physToZoneType] at zone
    rw [← zone, found'] at found
    exact absurd found (by simp)
  | some zone =>
    obtain ⟨blocks, free, zoneSound⟩ := sound.zones found
    refine zoneSound.arena.pages.trans (congrArg Finset.card ?_)
    ext frame
    rw [mem_filter, mem_sdiff]
    constructor
    · intro member
      have inside := zoneSound.inZone member
      exact ⟨⟨(zoneSound.added frame inside).mpr (.inl member),
        disjoint_left.mp zoneSound.apart member⟩, inside.physToZoneType⟩
    · rintro ⟨⟨added, dead⟩, here⟩
      obtain ⟨-, -, other, zone', -, inside⟩ := sound.placed frame added
      obtain rfl := inside.physToZoneType.symm.trans here
      exact ((zoneSound.added frame inside).mp added).resolve_right dead

theorem Sound.freeTotal (sound : system.Sound platform) :
    system.state.freeTotal = (system.added \ system.live).card := by
  rw [State.freeTotal, sound.zoneFree, sound.zoneFree, sound.zoneFree, ← card_union_of_disjoint,
    ← card_union_of_disjoint]
  · congr 1
    ext frame
    simp only [mem_union, mem_filter, ← and_or_left, and_iff_left_iff_imp]
    intro _
    cases physToZoneType (frame * pageSize) <;> simp
  all_goals
    rw [disjoint_left]
    intro frame first second
    simp only [mem_filter] at first second
    simp [second.2] at first

variable {count : ℕ}

section

variable (sound : system.Sound platform)
include sound

theorem Sound.allocFrames_block (proper : (system.state.allocFrames platform count).1 ≠ 0) :
    ∃ page, (system.state.allocFrames platform count).1 = page * pageSize ∧
      countToBlockPages count ≤ 2 ^ lastLevel ∧ page + countToBlockPages count ≤ platform.maxPfn := by
  unfold State.allocFrames State.allocIn at proper ⊢
  split_ifs at proper ⊢ with zero
  · exact absurd rfl proper
  obtain ⟨level, pages⟩ := exists_countToBlockPages count
  rcases sound.allocFirst pages [.normal, .dma32, .dma] with none | ⟨type, zone, free, page, granted⟩
  · rw [none] at proper
    exact absurd rfl proper
  · have nonzero : page * pageSize ≠ 0 := granted.addr ▸ granted.proper
    simp only [granted.addr, nonzero, pages]
    exact ⟨page, rfl, Nat.pow_le_pow_right (by decide) granted.fits.level_le, granted.le_maxPfn⟩

theorem Sound.freeTotal_alloc (proper : (system.state.allocFrames platform count).1 ≠ 0) :
    (system.step platform (.alloc count)).state.freeTotal + countToBlockPages count =
      system.state.freeTotal := by
  obtain ⟨-, inside, apart⟩ := sound.allocIn_result _ proper
  have after : (system.step platform (.alloc count)).Sound platform := sound.allocIn _ count
  have block : blockFrames (system.state.allocFrames platform count).1 count ⊆
      system.added \ system.live := fun frame member =>
    mem_sdiff.mpr ⟨inside member, disjoint_left.mp apart member⟩
  rw [after.freeTotal, sound.freeTotal, ← card_sdiff_add_card_eq_card block]
  congr 1
  · simp only [System.step, System.allocated]
    rw [if_neg proper, sdiff_sdiff]
    rfl
  · simp [blockFrames]

theorem Sound.giveBack_page (page : ℕ) :
    (system.step platform (.free (page * pageSize) 1)).Sound platform := by
  apply sound.giveBack
  exact Dvd.intro_left page rfl

theorem Sound.freeTotal_free {page : ℕ} (live : page ∈ system.live) :
    (system.step platform (.free (page * pageSize) 1)).state.freeTotal = system.state.freeTotal + 1 ∧
      (system.step platform (.free (page * pageSize) 1)).live = system.live.erase page := by
  have block : blockFrames (page * pageSize) 1 = {page} := by
    rw [blockFrames, Nat.mul_div_cancel _ (by decide)]
    exact Nat.Ico_succ_singleton page
  have freed : (system.step platform (.free (page * pageSize) 1)).live = system.live.erase page := by
    have valid : orderValid (countToOrder 1) = true := by decide
    simp only [System.step, block, valid, singleton_subset_iff, live]
    simp [sdiff_singleton_eq_erase]
  refine ⟨?_, freed⟩
  rw [(sound.giveBack_page page).freeTotal, sound.freeTotal, freed]
  have added : page ∈ system.added := sound.live_added live
  have fresh : page ∉ system.added \ system.live := fun member => (mem_sdiff.mp member).2 live
  rw [← card_insert_of_notMem fresh]
  congr 1
  ext frame
  simp only [System.step]
  by_cases same : frame = page
  · subst same
    simp [added]
  · simp [same]

theorem Sound.alloc_refused (refused : (system.state.allocFrames platform count).1 = 0) :
    system.step platform (.alloc count) = system := by
  have same : (system.state.allocFrames platform count).2 = system.state := by
    unfold State.allocFrames State.allocIn at refused ⊢
    split_ifs at refused ⊢ with zero
    · rfl
    · obtain ⟨level, pages⟩ := exists_countToBlockPages count
      rcases sound.allocFirst pages [.normal, .dma32, .dma] with none | ⟨type, zone, free, page, granted⟩
      · rw [none]
        rfl
      · simp only [granted.proper, if_false] at refused
  simp only [System.step, System.allocated, refused, same, if_true]

end

theorem Sound.freeTotal_singles (sound : system.Sound platform) (count : ℕ)
    (granted : ∀ done < count,
      ((run (System.step platform) system (List.replicate done (.alloc 1))).state.allocFrames platform 1).1 ≠ 0) :
    let final := run (System.step platform) system (List.replicate count (.alloc 1))
    final.Sound platform ∧ final.state.freeTotal + count = system.state.freeTotal ∧
      system.live ⊆ final.live := by
  induction count with
  | zero => exact ⟨sound, rfl, Finset.Subset.refl _⟩
  | succ count ih =>
    obtain ⟨before, total, kept⟩ := ih fun done less => granted done (Nat.lt_succ_of_lt less)
    have proper := granted count (Nat.lt_succ_self count)
    have one : countToBlockPages 1 = 1 := by decide
    have taken := before.freeTotal_alloc proper
    rw [List.replicate_succ', run_append, run_cons, run_nil]
    refine ⟨before.allocIn _ 1, by omega, kept.trans ?_⟩
    simp only [System.step, System.allocated]
    rw [if_neg proper]
    exact subset_union_left

theorem Sound.freeTotal_frees (sound : system.Sound platform) {pages : List ℕ} (nodup : pages.Nodup)
    (live : ∀ page ∈ pages, page ∈ system.live) :
    (run (System.step platform) system (pages.map fun page => .free (page * pageSize) 1)).state.freeTotal =
      system.state.freeTotal + pages.length := by
  induction pages generalizing system with
  | nil => rfl
  | cons page rest ih =>
    obtain ⟨outside, nodup⟩ := List.nodup_cons.mp nodup
    obtain ⟨total, freed⟩ := sound.freeTotal_free (live page List.mem_cons_self)
    rw [List.map_cons, run_cons, ih (sound.giveBack_page page) nodup, total, List.length_cons]
    · omega
    · intro other member
      rw [freed, mem_erase]
      refine ⟨?_, live other (List.mem_cons_of_mem _ member)⟩
      rintro rfl
      exact outside member

/-- **Every frame is accounted for.** After every admitted run the free frames and the live ones
are as many as were added, a live frame is usable and not frame zero, the bitmap of frames in use
and the reference counts are those of the live frames, and a refused allocation changes nothing. -/
theorem accounting_run (platform : Platform) (memory : ℕ → ℕ) {schedule : List Action}
    (admitted : Along (System.step platform) (Admitted platform) (initial platform memory) schedule) :
    let final := run (System.step platform) (initial platform memory) schedule
    final.state.freeTotal + final.live.card = final.added.card ∧
    (∀ frame ∈ final.live, 0 < frame ∧ platform.usable.get frame = true) ∧
    (∀ frame, final.state.usingRegions.get frame = decide (frame ∈ final.live) ∧
      final.state.refcount frame = if frame ∈ final.live then 1 else 0) ∧
    ∀ count, (final.state.allocFrames platform count).1 = 0 →
      final.step platform (.alloc count) = final := by
  intro final
  have sound : final.Sound platform := sound_run platform memory admitted
  refine ⟨?_, fun frame live => ?_, fun frame => ⟨sound.inUse frame, sound.refs frame⟩,
    fun count => sound.alloc_refused⟩
  · rw [sound.freeTotal]
    exact card_sdiff_add_card_eq_card sound.live_added
  · obtain ⟨positive, usable, -⟩ := sound.placed frame (sound.live_added live)
    exact ⟨positive, usable⟩

theorem accounting_run_small :
    let final := run (System.step smallPlatform) (initial smallPlatform fun _ => 0)
      [.add 0x100000 0x104000 .dma, .alloc 1]
    final.state.freeTotal + final.live.card = final.added.card := by
  have admitted : Along (System.step smallPlatform) (Admitted smallPlatform)
      (initial smallPlatform fun _ => 0) [.add 0x100000 0x104000 .dma, .alloc 1] := by
    refine ⟨⟨by decide, by decide, by decide, ?_, ?_⟩, trivial, trivial⟩ <;> decide +kernel
  exact (accounting_run smallPlatform _ admitted).1

end System

end OpenXJ380.Buddy
