/-
# One zone of the buddy allocator

A zone whose memory is threaded correctly is described by its free blocks: for each level
the pages at which free blocks of `2 ^ level` pages start. The blocks are aligned,
disjoint and inside the zone, and no two of them below the top level are buddies. The
operations of the allocator preserve this and change the set of free frames as they
should; they write to words of the zone only.
-/

import OpenXJ380.Buddy.Model
import OpenXJ380.Data.Linked
import OpenXJ380.Data.Spans

namespace OpenXJ380.Buddy

open Data

/-- The level from which on buddies are not merged. -/
def topLevel : ℕ := maxOrder - 1 - minOrder

/-- The highest level with a free list. -/
def lastLevel : ℕ := maxOrder - minOrder

theorem exists_countToBlockPages (count : ℕ) : ∃ level, countToBlockPages count = 2 ^ level := by
  unfold countToBlockPages nextPowerOfTwo
  split_ifs with small power
  · exact ⟨0, rfl⟩
  · exact (Nat.and_sub_one_eq_zero_iff_isPowerOfTwo (by omega)).mp power
  · exact ⟨_, rfl⟩

variable {level page : ℕ} {zone : Zone}

theorem countToOrder_eq {count : ℕ} (pages : countToBlockPages count = 2 ^ level) :
    countToOrder count = minOrder + level := by
  rw [countToOrder, pages, log2Floor, Nat.log2_two_pow, Nat.add_comm]

section

variable (level : ℕ)

theorem orderToIndex_add : orderToIndex (minOrder + level) = level := Nat.add_sub_cancel_left _ _

theorem orderToPages_add : orderToPages (minOrder + level) = 2 ^ level := by
  rw [orderToPages, Nat.add_sub_cancel_left]

theorem orderToBlockSize_add : orderToBlockSize (minOrder + level) = 2 ^ level * pageSize := by
  rw [orderToBlockSize, pow_add, mul_comm]
  rfl

theorem orderValid_add : orderValid (minOrder + level) = decide (level ≤ lastLevel) := by
  have first : minOrder ≤ minOrder + level := Nat.le_add_right _ _
  have second : minOrder + level ≤ maxOrder ↔ level ≤ lastLevel := by
    simp only [minOrder, maxOrder, lastLevel]
    omega
  simp only [orderValid, first, second, decide_true, Bool.true_and]

end

theorem xor_blockSize (level page : ℕ) :
    page * pageSize ^^^ orderToBlockSize (minOrder + level) = buddy level page * pageSize := by
  have shifted := Nat.shiftLeft_xor_distrib (i := 12) (a := page) (b := 2 ^ level)
  simp only [Nat.shiftLeft_eq] at shifted
  rw [orderToBlockSize_add, buddy]
  exact shifted.symm

theorem and_blockSize (level page : ℕ) :
    page * pageSize &&& (orderToBlockSize (minOrder + level) - 1) = 0 ↔ 2 ^ level ∣ page := by
  rw [orderToBlockSize, Nat.and_two_pow_sub_one_eq_mod, ← Nat.dvd_iff_mod_eq_zero, pow_add,
    mul_comm]
  exact Nat.mul_dvd_mul_iff_right (by decide)

theorem zoneContainsBlock_iff :
    Arena.zoneContainsBlock zone (page * pageSize) (minOrder + level) = true ↔
      level ≤ lastLevel ∧ zone.zoneStartPfn ≤ page ∧ page + 2 ^ level ≤ zone.zoneEndPfn := by
  have positive := Nat.two_pow_pos level
  simp only [Arena.zoneContainsBlock, orderValid_add, orderToBlockSize_add, pageSize]
  generalize 2 ^ level = size at positive ⊢
  split_ifs with invalid before behind large
  · simp only [Bool.not_eq_true', decide_eq_false_iff_not] at invalid
    simp only [false_iff]
    omega
  · simp only [false_iff]
    omega
  · simp only [false_iff]
    omega
  · simp only [false_iff]
    omega
  · simp only [Bool.not_eq_true', decide_eq_false_iff_not] at invalid
    simp only [true_iff]
    omega

/-- A block of the zone. -/
structure Fits (zone : Zone) (level page : ℕ) : Prop where
  level_le : level ≤ lastLevel
  aligned : 2 ^ level ∣ page
  positive : 0 < page
  start_le : zone.zoneStartPfn ≤ page
  le_end : page + 2 ^ level ≤ zone.zoneEndPfn

theorem Fits.contains (fits : Fits zone level page) :
    Arena.zoneContainsBlock zone (page * pageSize) (minOrder + level) = true :=
  zoneContainsBlock_iff.mpr ⟨fits.level_le, fits.start_le, fits.le_end⟩

theorem Fits.merge (fits : Fits zone level page) (other : Fits zone level (buddy level page))
    (below : level < lastLevel) :
    Fits zone (level + 1) (min page (buddy level page)) := by
  refine ⟨below, merge_aligned fits.aligned, lt_min fits.positive other.positive,
    le_min fits.start_le other.start_le, ?_⟩
  have stop := fits.le_end
  have otherStop := other.le_end
  rcases buddy_cases fits.aligned with ⟨-, up⟩ | ⟨-, down⟩ <;> omega

theorem Fits.lower (fits : Fits zone (level + 1) page) : Fits zone level page := by
  have stop := fits.le_end
  rw [pow_succ] at stop
  exact ⟨Nat.le_of_succ_le fits.level_le,
    (pow_dvd_pow 2 (Nat.le_succ level)).trans fits.aligned, fits.positive, fits.start_le, by omega⟩

theorem Fits.upper (fits : Fits zone (level + 1) page) : Fits zone level (page + 2 ^ level) := by
  have stop := fits.le_end
  have start := fits.start_le
  rw [pow_succ] at stop
  exact ⟨Nat.le_of_succ_le fits.level_le, Nat.dvd_add fits.lower.aligned (dvd_refl _),
    Nat.add_pos_left fits.positive _, by omega, by omega⟩

theorem Fits.lowest {more : ℕ} (fits : Fits zone (level + more) page) : Fits zone level page := by
  induction more with
  | zero => exact fits
  | succ more ih => exact ih fits.lower

/-- The frames a region adds to a zone. -/
def regionFrames (zone : Zone) (start stop : ℕ) : Finset ℕ :=
  Finset.Ico (max ((start + pageSize - 1) / pageSize) zone.zoneStartPfn)
    (min (stop / pageSize) zone.zoneEndPfn)

namespace Arena

variable {arena before after last : Arena} {blocks : ℕ → List ℕ} {level page : ℕ}

/-- The free lists hold these blocks. -/
structure Listed (arena : Arena) (blocks : ℕ → List ℕ) : Prop where
  linked : ∀ level, Linked 0 arena.memory (arena.zone.freeArea level)
    ((blocks level).map (· * pageSize))
  tiled : Tiled topLevel blocks
  fits : ∀ {level page}, page ∈ blocks level → Fits arena.zone level page

theorem Listed.congr (listed : before.Listed blocks) (memory : after.memory = before.memory)
    (freeArea : after.zone.freeArea = before.zone.freeArea)
    (zoneStartPfn : after.zone.zoneStartPfn = before.zone.zoneStartPfn)
    (zoneEndPfn : after.zone.zoneEndPfn = before.zone.zoneEndPfn) : after.Listed blocks := by
  refine ⟨fun level => ?_, listed.tiled, fun member => ?_⟩
  · rw [memory, freeArea]
    exact listed.linked level
  · have fits := listed.fits member
    exact ⟨fits.level_le, fits.aligned, fits.positive, zoneStartPfn ▸ fits.start_le,
      zoneEndPfn ▸ fits.le_end⟩

/-- An operation on a zone leaves its limits and all memory outside alone. -/
structure Confined (before after : Arena) : Prop where
  zoneStartPfn : after.zone.zoneStartPfn = before.zone.zoneStartPfn
  zoneEndPfn : after.zone.zoneEndPfn = before.zone.zoneEndPfn
  outside : ∀ address, address / pageSize < before.zone.zoneStartPfn ∨
    before.zone.zoneEndPfn ≤ address / pageSize → after.memory address = before.memory address

/-- An operation on the lists of a zone does not count pages either. -/
structure Keeps (before after : Arena) : Prop extends Confined before after where
  freePages : after.zone.freePages = before.zone.freePages

theorem Confined.trans (first : before.Confined after) (second : after.Confined last) :
    before.Confined last :=
  ⟨second.zoneStartPfn.trans first.zoneStartPfn, second.zoneEndPfn.trans first.zoneEndPfn,
    fun address out => (second.outside address
      (first.zoneStartPfn ▸ first.zoneEndPfn ▸ out)).trans (first.outside address out)⟩

theorem Confined.fits (confined : before.Confined after) (fits : Fits before.zone level page) :
    Fits after.zone level page :=
  ⟨fits.level_le, fits.aligned, fits.positive, confined.zoneStartPfn ▸ fits.start_le,
    confined.zoneEndPfn ▸ fits.le_end⟩

section

variable (arena : Arena)

theorem Keeps.refl : arena.Keeps arena := ⟨⟨rfl, rfl, fun _ _ => rfl⟩, rfl⟩

theorem Keeps.trans (first : before.Keeps after) (second : after.Keeps last) : before.Keeps last :=
  ⟨first.toConfined.trans second.toConfined, second.freePages.trans first.freePages⟩

theorem keeps_setHead (order head : ℕ) : arena.Keeps (arena.setHead order head) :=
  ⟨⟨rfl, rfl, fun _ _ => rfl⟩, rfl⟩

/-- A link inside a block of the zone may change. -/
theorem keeps_setNext (fits : Fits arena.zone level page) (next : ℕ) :
    arena.Keeps (arena.setNext (page * pageSize) next) := by
  refine ⟨⟨rfl, rfl, fun address out => Function.update_of_ne ?_ _ _⟩, rfl⟩
  rintro rfl
  rw [Nat.mul_div_cancel page (by decide)] at out
  have start := fits.start_le
  have stop := fits.le_end
  have positive := Nat.two_pow_pos level
  omega

end

namespace Listed

variable {other base : ℕ} {front back : List ℕ} {memory : ℕ → ℕ}

theorem unique (listed : arena.Listed blocks) (here : page ∈ blocks level)
    (there : page ∈ blocks other) : level = other :=
  (listed.tiled.apart here there (start_mem_span _ _) (start_mem_span _ _)).1

theorem mem_map_iff {pages : List ℕ} : page * pageSize ∈ pages.map (· * pageSize) ↔ page ∈ pages :=
  List.mem_map_of_injective (mul_left_injective₀ (by decide : pageSize ≠ 0))

section

variable (listed : arena.Listed blocks)
include listed

theorem nodup_map (level : ℕ) : ((blocks level).map (· * pageSize)).Nodup :=
  (listed.tiled.nodup level).map (mul_left_injective₀ (by decide : pageSize ≠ 0))

theorem length_le (level : ℕ) : (blocks level).length ≤ arena.zone.zoneEndPfn := by
  have inside : (blocks level).toFinset ⊆ Finset.range arena.zone.zoneEndPfn := by
    intro page member
    have fits := listed.fits (List.mem_toFinset.mp member)
    have positive := Nat.two_pow_pos level
    have stop := fits.le_end
    rw [Finset.mem_range]
    omega
  have bound := Finset.card_le_card inside
  rwa [List.toFinset_card_of_nodup (listed.tiled.nodup level), Finset.card_range] at bound

/-- Frame rule for a link: the lists that do not contain the block stay. -/
theorem linked_setNext (outside : page ∉ blocks other) (next : ℕ) :
    Linked 0 (Function.update arena.memory (page * pageSize) next) (arena.zone.freeArea other)
      ((blocks other).map (· * pageSize)) :=
  (listed.linked other).update (fun member => outside (mem_map_iff.mp member)) next

theorem push (fits : Fits arena.zone level page)
    (fresh : ∀ frame ∈ span level page, ¬Covered blocks frame)
    (alone : level < topLevel → buddy level page ∉ blocks level) :
    (arena.pushBlock (minOrder + level) (page * pageSize)).Listed (insertSpan blocks level page) ∧
      arena.Keeps (arena.pushBlock (minOrder + level) (page * pageSize)) := by
  have new : ∀ other, page ∉ blocks other := fun other member =>
    fresh page (start_mem_span _ _) ⟨other, page, member, start_mem_span _ _⟩
  have keeps : arena.Keeps (arena.pushBlock (minOrder + level) (page * pageSize)) :=
    (keeps_setNext arena fits _).trans (keeps_setHead _ _ _)
  refine ⟨⟨fun other => ?_, listed.tiled.insert fits.aligned fresh alone, fun member => ?_⟩, keeps⟩
  · have proper : page * pageSize ≠ 0 := Nat.mul_ne_zero fits.positive.ne' (by decide)
    simp only [pushBlock, setHead, setNext, orderToIndex_add]
    by_cases same : other = level
    · subst same
      simpa [insertSpan] using
        (listed.linked other).push proper (fun member => new other (mem_map_iff.mp member))
    · simpa [insertSpan, same] using listed.linked_setNext (new other) _
  · rcases mem_insertSpan.mp member with ⟨rfl, rfl⟩ | old
    · exact keeps.fits fits
    · exact keeps.fits (listed.fits old)

theorem unlinkFirst {rest : List ℕ} (first : blocks level = page :: rest) :
    ((arena.setHead (minOrder + level) (arena.memory (page * pageSize))).setNext
        (page * pageSize) 0).Listed (eraseSpan blocks level page) ∧
      arena.Keeps ((arena.setHead (minOrder + level) (arena.memory (page * pageSize))).setNext
        (page * pageSize) 0) := by
  have member : page ∈ blocks level := by simp [first]
  have fits := listed.fits member
  have keeps := (keeps_setHead arena (minOrder + level) (arena.memory (page * pageSize))).trans
    (keeps_setNext _ ((keeps_setHead arena _ _).fits fits) 0)
  refine ⟨⟨fun other => ?_, listed.tiled.erase level page, fun kept =>
    keeps.fits (listed.fits (listed.tiled.mem_eraseSpan.mp kept).1)⟩, keeps⟩
  simp only [setHead, setNext, orderToIndex_add]
  by_cases same : other = level
  · subst same
    have linked := listed.linked other
    have nodup := listed.nodup_map other
    rw [first, List.map_cons] at linked nodup
    simpa [eraseSpan, first] using linked.pop nodup
  · have outside : page ∉ blocks other := fun found => same (listed.unique found member)
    simpa [eraseSpan, same] using listed.linked_setNext outside 0

theorem unlinkLater {prev : ℕ} (split : blocks level = front ++ prev :: page :: back) :
    ((arena.setNext (prev * pageSize) (arena.memory (page * pageSize))).setNext
        (page * pageSize) 0).Listed (eraseSpan blocks level page) ∧
      arena.Keeps ((arena.setNext (prev * pageSize) (arena.memory (page * pageSize))).setNext
        (page * pageSize) 0) := by
  have member : page ∈ blocks level := by simp [split]
  have prevMember : prev ∈ blocks level := by simp [split]
  have fits := listed.fits member
  have keepsPrev := keeps_setNext arena (listed.fits prevMember) (arena.memory (page * pageSize))
  have keeps := keepsPrev.trans (keeps_setNext _ (keepsPrev.fits fits) 0)
  refine ⟨⟨fun other => ?_, listed.tiled.erase level page, fun kept =>
    keeps.fits (listed.fits (listed.tiled.mem_eraseSpan.mp kept).1)⟩, keeps⟩
  by_cases same : other = level
  · subst same
    have linked := listed.linked other
    have nodup := listed.nodup_map other
    have distinct := listed.tiled.nodup other
    rw [split] at linked nodup distinct
    simp only [List.map_append] at linked nodup
    have erased : (blocks other).erase page = front ++ prev :: back := by
      obtain ⟨-, later, apart⟩ := List.nodup_append.mp distinct
      have outside : page ∉ front := fun found => apart page found page (by simp) rfl
      have different : prev ≠ page := fun same =>
        (List.nodup_cons.mp later).1 (same ▸ List.mem_cons_self)
      rw [split, List.erase_append_right _ outside, List.erase_cons_tail (by simpa using different),
        List.erase_cons_head]
    simpa [eraseSpan, erased, setNext] using linked.unlink nodup
  · have outside : page ∉ blocks other := fun found => same (listed.unique found member)
    have prevOutside : prev ∉ blocks other := fun found => same (listed.unique found prevMember)
    have linked := (listed.linked_setNext prevOutside (arena.memory (page * pageSize))).update
      (fun found => outside (mem_map_iff.mp found)) 0
    simpa [eraseSpan, same, setNext] using linked

/-- `pop_block` returns the first block of a list, or zero. -/
theorem pop (level : ℕ) : blocks level = [] ∧ arena.popBlock (minOrder + level) = (0, arena) ∨
      ∃ page rest after, blocks level = page :: rest ∧
        arena.popBlock (minOrder + level) = (page * pageSize, after) ∧
        after.Listed (eraseSpan blocks level page) ∧ arena.Keeps after := by
  have linked := listed.linked level
  simp only [popBlock, orderToIndex_add]
  cases first : blocks level with
  | nil =>
    rw [first] at linked
    have head : arena.zone.freeArea level = 0 := linked
    exact .inl ⟨rfl, by rw [if_pos head]⟩
  | cons page rest =>
    rw [first, List.map_cons] at linked
    obtain ⟨head, proper, -⟩ := linked
    rw [head, if_neg proper]
    exact .inr ⟨page, rest, _, rfl, rfl, listed.unlinkFirst first⟩

end

/-- The walk finds a block of the list together with its neighbours. -/
theorem findBlock_found :
    ∀ (fuel prev : ℕ) {curr : ℕ}, Linked 0 memory curr (front ++ base :: back) → base ∉ front →
      front.length < fuel →
      findBlock memory base fuel prev curr = some (front.getLastD prev, memory base) := by
  induction front with
  | nil =>
    intro fuel prev curr linked _ enough
    obtain ⟨more, rfl⟩ := Nat.exists_eq_succ_of_ne_zero (Nat.ne_of_gt enough)
    obtain ⟨rfl, proper, -⟩ := linked
    simp [findBlock, proper]
  | cons first rest ih =>
    intro fuel prev curr linked outside enough
    obtain ⟨more, rfl⟩ := Nat.exists_eq_succ_of_ne_zero (Nat.ne_of_gt (Nat.zero_lt_of_lt enough))
    obtain ⟨rfl, proper, later⟩ := linked
    have different : curr ≠ base := fun same => outside (same ▸ List.mem_cons_self)
    rw [findBlock, if_neg proper, if_neg different,
      ih _ _ later (fun member => outside (List.mem_cons_of_mem _ member))
        (Nat.lt_of_succ_lt_succ enough), List.getLastD_cons]

theorem findBlock_missing {nodes : List ℕ} :
    ∀ (fuel prev : ℕ) {curr : ℕ}, Linked 0 memory curr nodes → base ∉ nodes →
      findBlock memory base fuel prev curr = none := by
  induction nodes with
  | nil =>
    intro fuel prev curr linked _
    cases fuel with
    | zero => rfl
    | succ more =>
      have stop : curr = 0 := linked
      rw [findBlock, if_pos stop]
  | cons first rest ih =>
    intro fuel prev curr linked outside
    obtain ⟨rfl, proper, later⟩ := linked
    cases fuel with
    | zero => rfl
    | succ more =>
      have different : curr ≠ base := fun same => outside (same ▸ List.mem_cons_self)
      rw [findBlock, if_neg proper, if_neg different]
      exact ih _ _ later fun member => outside (List.mem_cons_of_mem _ member)

/-- `remove_block` takes a free block out of its list. -/
theorem remove (listed : arena.Listed blocks) (member : page ∈ blocks level) :
    ∃ after, arena.removeBlock (minOrder + level) (page * pageSize) = some after ∧
      after.Listed (eraseSpan blocks level page) ∧ arena.Keeps after := by
  obtain ⟨front, back, split, outside⟩ := List.eq_append_cons_of_mem member
  have linked := listed.linked level
  have enough := listed.length_le level
  rw [split] at linked enough
  simp only [List.map_append] at linked
  simp only [List.length_append, List.length_cons] at enough
  have found := findBlock_found arena.zone.zoneEndPfn 0 linked
    (fun found => outside (mem_map_iff.mp found)) (by rw [List.length_map]; omega)
  simp only [removeBlock, orderToIndex_add, found]
  rcases List.eq_nil_or_concat front with rfl | ⟨init, prev, rfl⟩
  · exact ⟨_, rfl, listed.unlinkFirst split⟩
  have later : blocks level = init ++ prev :: page :: back := by simp [split]
  have fits := listed.fits (show prev ∈ blocks level by simp [later])
  have proper : prev * pageSize ≠ 0 := Nat.mul_ne_zero fits.positive.ne' (by decide)
  have last : ((init.concat prev).map (· * pageSize)).getLastD 0 = prev * pageSize := by simp
  rw [last, if_neg proper]
  exact ⟨_, rfl, listed.unlinkLater later⟩

theorem remove_missing (listed : arena.Listed blocks) (outside : page ∉ blocks level) :
    arena.removeBlock (minOrder + level) (page * pageSize) = none := by
  have missing := findBlock_missing arena.zone.zoneEndPfn 0
    (listed.linked level) (fun found => outside (mem_map_iff.mp found))
  simp only [removeBlock, orderToIndex_add, missing]

/-- What the merging loop has reached: a block that is not free and not a buddy of a free
one, which together with the free blocks covers what the given block and they did. -/
structure Merged (before after : Arena) (blocks merged : ℕ → List ℕ)
    (level page newLevel newPage : ℕ) : Prop where
  keeps : before.Keeps after
  listed : after.Listed merged
  fits : Fits after.zone newLevel newPage
  fresh : ∀ frame ∈ span newLevel newPage, ¬Covered merged frame
  alone : newLevel < topLevel → buddy newLevel newPage ∉ merged newLevel
  covers : ∀ frame, frame ∈ span newLevel newPage ∨ Covered merged frame ↔
    frame ∈ span level page ∨ Covered blocks frame

theorem merge (fuel : ℕ) : ∀ {arena : Arena} {blocks : ℕ → List ℕ} {level page : ℕ},
    arena.Listed blocks → Fits arena.zone level page →
    (∀ frame ∈ span level page, ¬Covered blocks frame) → maxOrder ≤ minOrder + level + fuel →
    ∃ after merged newLevel newPage, Arena.merge fuel arena (page * pageSize) (minOrder + level) =
        (after, newPage * pageSize, minOrder + newLevel) ∧
      Merged arena after blocks merged level page newLevel newPage := by
  induction fuel with
  | zero =>
    intro arena blocks level page listed fits fresh enough
    refine ⟨arena, blocks, level, page, rfl, Keeps.refl _, listed, fits, fresh, ?_,
      fun _ => Iff.rfl⟩
    simp only [topLevel]
    omega
  | succ fuel ih =>
    intro arena blocks level page listed fits fresh enough
    -- the loop ends here when the buddy is not on its list
    have stop : (level < topLevel → buddy level page ∉ blocks level) →
        Merged arena arena blocks blocks level page level page :=
      fun alone => ⟨Keeps.refl _, listed, fits, fresh, alone, fun _ => Iff.rfl⟩
    rw [Arena.merge]
    by_cases below : minOrder + level + 1 < maxOrder
    · rw [if_pos below]
      simp only [xor_blockSize]
      by_cases free : buddy level page ∈ blocks level
      · have buddyFits := listed.fits free
        obtain ⟨removed, found, removedListed, keeps⟩ := listed.remove free
        rw [buddyFits.contains, found]
        simp only [Nat.mul_min_mul_right]
        have erased : ∀ {frame}, Covered (eraseSpan blocks level (buddy level page)) frame ↔
            Covered blocks frame ∧ frame ∉ span level (buddy level page) :=
          listed.tiled.covered_eraseSpan free
        have nextFits : Fits removed.zone (level + 1) (min page (buddy level page)) :=
          keeps.fits (fits.merge buddyFits (by simp only [lastLevel]; omega))
        have nextFresh : ∀ frame ∈ span (level + 1) (min page (buddy level page)),
            ¬Covered (eraseSpan blocks level (buddy level page)) frame := by
          intro frame inside covered
          obtain ⟨old, outside⟩ := erased.mp covered
          rcases (mem_span_merge fits.aligned).mp inside with here | there
          · exact fresh frame here old
          · exact outside there
        obtain ⟨after, merged, newLevel, newPage, result, reached⟩ :=
          ih removedListed nextFits nextFresh (by omega)
        refine ⟨after, merged, newLevel, newPage, result, keeps.trans reached.keeps,
          reached.listed, reached.fits, reached.fresh, reached.alone, fun frame => ?_⟩
        rw [reached.covers, mem_span_merge fits.aligned, erased]
        have : frame ∈ span level (buddy level page) → Covered blocks frame :=
          fun inside => ⟨level, _, free, inside⟩
        tauto
      · rw [listed.remove_missing free]
        refine ⟨arena, blocks, level, page, ?_, stop fun _ => free⟩
        simp
    · rw [if_neg below]
      refine ⟨arena, blocks, level, page, rfl, stop fun lower => ?_⟩
      simp only [topLevel] at lower
      omega

/-- The search upwards ends with a free block of an order that is wide enough, or finds
every list empty. -/
theorem popUp (listed : arena.Listed blocks) (fuel : ℕ) : ∀ level,
    (∃ current, arena.popUp fuel (minOrder + level) = (0, current, arena)) ∨
      ∃ found page after, level ≤ found ∧ page ∈ blocks found ∧
        arena.popUp fuel (minOrder + level) = (page * pageSize, minOrder + found, after) ∧
        after.Listed (eraseSpan blocks found page) ∧ arena.Keeps after := by
  induction fuel with
  | zero => exact fun level => .inl ⟨_, rfl⟩
  | succ fuel ih =>
    intro level
    rw [Arena.popUp]
    by_cases below : minOrder + level < maxOrder
    · rw [if_pos below]
      rcases listed.pop level with ⟨-, popped⟩ | ⟨page, rest, after, first, popped, reached⟩
      · rw [popped]
        rcases ih (level + 1) with none | ⟨found, page, after, above, rest⟩
        · exact .inl none
        · exact .inr ⟨found, page, after, Nat.le_of_succ_le above, rest⟩
      · have member : page ∈ blocks level := by simp [first]
        have proper : page * pageSize ≠ 0 :=
          Nat.mul_ne_zero (listed.fits member).positive.ne' (by decide)
        rw [popped]
        simp only [ne_eq, proper]
        exact .inr ⟨level, page, after, le_rfl, member, rfl, reached⟩
    · rw [if_neg below]
      exact .inl ⟨_, rfl⟩

theorem splitDown (level page more : ℕ) : ∀ {arena : Arena} {blocks : ℕ → List ℕ},
    arena.Listed blocks → Fits arena.zone (level + more) page →
    (∀ frame ∈ span (level + more) page, ¬Covered blocks frame) →
    arena.Keeps (Arena.splitDown (page * pageSize) (minOrder + level) more arena) ∧
      ∃ blocksAfter, (Arena.splitDown (page * pageSize) (minOrder + level) more arena).Listed
          blocksAfter ∧
        ∀ frame, Covered blocksAfter frame ↔
          Covered blocks frame ∨ frame ∈ span (level + more) page ∧ frame ∉ span level page := by
  induction more with
  | zero =>
    intro arena blocks listed fits fresh
    refine ⟨Keeps.refl _, blocks, listed, fun frame => ?_⟩
    simp
  | succ more ih =>
    intro arena blocks listed fits fresh
    have upperBase : page * pageSize + orderToBlockSize (minOrder + level + more) =
        (page + 2 ^ (level + more)) * pageSize := by
      rw [Nat.add_assoc, orderToBlockSize_add, Nat.add_mul]
    have halves : ∀ {frame}, frame ∈ span (level + (more + 1)) page ↔
        frame ∈ span (level + more) page ∨
          frame ∈ span (level + more) (page + 2 ^ (level + more)) := mem_span_succ
    have lower : Fits arena.zone (level + more) page := fits.lower
    have upper : Fits arena.zone (level + more) (page + 2 ^ (level + more)) := fits.upper
    have alone : buddy (level + more) (page + 2 ^ (level + more)) ∉ blocks (level + more) := by
      have aligned : 2 ^ (level + more + 1) ∣ page := fits.aligned
      rw [buddy_upper aligned]
      exact fun member => fresh page (start_mem_span _ _) ⟨_, page, member, start_mem_span _ _⟩
    obtain ⟨pushed, keeps⟩ := listed.push upper
      (fun frame inside => fresh frame (halves.mpr (.inr inside))) fun _ => alone
    rw [Arena.splitDown, upperBase, Nat.add_assoc]
    have rest : ∀ frame ∈ span (level + more) page, ¬Covered
        (insertSpan blocks (level + more) (page + 2 ^ (level + more))) frame := by
      intro frame inside covered
      rcases covered_insertSpan.mp covered with above | old
      · have first := mem_span.mp inside
        have second := mem_span.mp above
        omega
      · exact fresh frame (halves.mpr (.inl inside)) old
    obtain ⟨keepsRest, blocksAfter, listedAfter, covers⟩ := ih pushed (keeps.fits lower) rest
    refine ⟨keeps.trans keepsRest, blocksAfter, listedAfter, fun frame => ?_⟩
    have narrow : frame ∈ span level page → frame ∈ span (level + more) page :=
      fun inside => span_mono level more page inside
    have apart : frame ∈ span (level + more) page →
        frame ∉ span (level + more) (page + 2 ^ (level + more)) := by
      rw [mem_span, mem_span]
      omega
    rw [covers, covered_insertSpan, halves]
    tauto

end Listed

/-- A zone with its free blocks and its free frames. -/
structure Sound (arena : Arena) (blocks : ℕ → List ℕ) (free : Finset ℕ) : Prop where
  listed : arena.Listed blocks
  frames : ∀ frame, frame ∈ free ↔ Covered blocks frame
  pages : arena.zone.freePages = free.card

namespace Sound

variable {free : Finset ℕ}

/-- Words that do not link free blocks may change. -/
theorem memory_congr {zone : Zone} {memory changed : ℕ → ℕ}
    (sound : Sound ⟨zone, memory⟩ blocks free)
    (same : ∀ frame ∈ free, changed (frame * pageSize) = memory (frame * pageSize)) :
    Sound ⟨zone, changed⟩ blocks free := by
  refine ⟨⟨fun level => (sound.listed.linked level).congr ?_, sound.listed.tiled,
    sound.listed.fits⟩, sound.frames, sound.pages⟩
  intro address member
  obtain ⟨page, found, rfl⟩ := List.mem_map.mp member
  exact same page ((sound.frames page).mpr ⟨level, page, found, start_mem_span _ _⟩)

/-- `buddy_free_zone` makes the frames of a block free. -/
theorem release (sound : arena.Sound blocks free) (fits : Fits arena.zone level page)
    (taken : Disjoint (span level page) free) :
    arena.Confined (arena.buddyFreeZone (page * pageSize) (minOrder + level)) ∧
      ∃ blocksAfter, (arena.buddyFreeZone (page * pageSize) (minOrder + level)).Sound blocksAfter
        (free ∪ span level page) := by
  have proper : page * pageSize ≠ 0 := Nat.mul_ne_zero fits.positive.ne' (by decide)
  have valid : orderValid (minOrder + level) = true := by
    rw [orderValid_add, decide_eq_true fits.level_le]
  have fresh : ∀ frame ∈ span level page, ¬Covered blocks frame := fun frame inside covered =>
    Finset.disjoint_left.mp taken inside ((sound.frames frame).mpr covered)
  obtain ⟨merged, blocksMerged, newLevel, newPage, result, reached⟩ :=
    Listed.merge (maxOrder - (minOrder + level)) sound.listed fits fresh (by omega)
  obtain ⟨listed, keeps⟩ := reached.listed.push reached.fits reached.fresh reached.alone
  have confined := (reached.keeps.trans keeps).toConfined
  simp only [buddyFreeZone, proper, valid, (and_blockSize level page).mpr fits.aligned,
    fits.contains, result]
  refine ⟨⟨confined.zoneStartPfn, confined.zoneEndPfn, confined.outside⟩, _,
    listed.congr rfl rfl rfl rfl, fun frame => ?_, ?_⟩
  · rw [Finset.mem_union, covered_insertSpan, reached.covers, sound.frames, or_comm]
  · rw [Finset.card_union_of_disjoint taken.symm, card_span, orderToPages_add]
    exact congrArg (· + _) ((reached.keeps.trans keeps).freePages.trans sound.pages)

/-- `buddy_alloc_zone` returns zero or a block of free frames, which are no longer free. -/
theorem alloc (sound : arena.Sound blocks free) {count : ℕ}
    (pages : countToBlockPages count = 2 ^ level) :
    arena.buddyAllocZone count = (0, arena) ∨
      ∃ page, (arena.buddyAllocZone count).1 = page * pageSize ∧
        Fits arena.zone level page ∧ span level page ⊆ free ∧
        arena.Confined (arena.buddyAllocZone count).2 ∧
        ∃ blocksAfter, (arena.buddyAllocZone count).2.Sound blocksAfter
          (free \ span level page) := by
  simp only [buddyAllocZone, countToOrder_eq pages]
  by_cases nothing : count = 0
  · rw [if_pos nothing]
    exact .inl rfl
  rw [if_neg nothing]
  by_cases valid : level ≤ lastLevel
  swap
  · rw [orderValid_add, decide_eq_false valid]
    exact .inl rfl
  rw [orderValid_add, decide_eq_true valid]
  rcases sound.listed.popUp (maxOrder - (minOrder + level)) level with
    ⟨current, none⟩ | ⟨found, page, popped, above, member, result, listed, keeps⟩
  · rw [none]
    exact .inl rfl
  right
  obtain ⟨more, rfl⟩ := Nat.exists_eq_add_of_le above
  have fits := sound.listed.fits member
  have proper : page * pageSize ≠ 0 := Nat.mul_ne_zero fits.positive.ne' (by decide)
  have erased : ∀ {frame}, Covered (eraseSpan blocks (level + more) page) frame ↔
      Covered blocks frame ∧ frame ∉ span (level + more) page :=
    sound.listed.tiled.covered_eraseSpan member
  obtain ⟨keepsRest, blocksAfter, listedAfter, covers⟩ := Listed.splitDown level page more listed
    (keeps.fits fits) fun frame inside covered => (erased.mp covered).2 inside
  have whole : ∀ frame ∈ span (level + more) page, Covered blocks frame :=
    fun frame inside => ⟨_, page, member, inside⟩
  have narrow : span level page ⊆ span (level + more) page := span_mono level more page
  have inside : span level page ⊆ free := fun frame here =>
    (sound.frames frame).mpr (whole frame (narrow here))
  have difference : minOrder + (level + more) - (minOrder + level) = more := by omega
  rw [result]
  simp only [proper, difference]
  have confined := (keeps.trans keepsRest).toConfined
  refine ⟨page, rfl, fits.lowest, inside,
    ⟨confined.zoneStartPfn, confined.zoneEndPfn, confined.outside⟩, blocksAfter,
    listedAfter.congr rfl rfl rfl rfl, fun frame => ?_, ?_⟩
  · rw [Finset.mem_sdiff, covers, erased, sound.frames]
    tauto
  · rw [Finset.card_sdiff_of_subset inside, card_span, orderToPages_add, ← sound.pages]
    exact congrArg (· - _) (keeps.trans keepsRest).freePages

theorem confined_manage (arena : Arena) (pages : ℕ) : arena.Confined (arena.manage pages) :=
  ⟨rfl, rfl, fun _ _ => rfl⟩

theorem manage (sound : arena.Sound blocks free) (pages : ℕ) :
    (arena.manage pages).Sound blocks free :=
  ⟨sound.listed.congr rfl rfl rfl rfl, sound.frames, sound.pages⟩

/-- The order chosen for the next block of a region is aligned and fits. -/
theorem regionOrder_spec {page last : ℕ} (some : page < last) : ∀ more,
    ∃ level ≤ more, regionOrder (page * pageSize) (last * pageSize) more = minOrder + level ∧
      2 ^ level ∣ page ∧ page + 2 ^ level ≤ last
  | 0 => ⟨0, le_rfl, rfl, one_dvd _, some⟩
  | more + 1 => by
      have room : page * pageSize + 2 ^ (more + 1) * pageSize ≤ last * pageSize ↔
          page + 2 ^ (more + 1) ≤ last := by
        rw [← Nat.add_mul]
        exact Nat.mul_le_mul_right_iff (by decide)
      simp only [regionOrder, and_blockSize]
      simp only [orderToBlockSize_add, room]
      split_ifs with good
      · exact ⟨more + 1, le_rfl, rfl, good⟩
      · obtain ⟨level, below, rest⟩ := regionOrder_spec some more
        exact ⟨level, Nat.le_succ_of_le below, rest⟩

/-- The loop over a region frees all of its pages. -/
theorem addBlocks (fuel : ℕ) : ∀ {arena : Arena} {blocks : ℕ → List ℕ} {free : Finset ℕ}
    {page last : ℕ}, arena.Sound blocks free → last ≤ page + fuel → 0 < page →
    arena.zone.zoneStartPfn ≤ page → last ≤ arena.zone.zoneEndPfn →
    Disjoint (Finset.Ico page last) free →
    arena.Confined (Arena.addBlocks fuel arena (page * pageSize) (last * pageSize)) ∧
      ∃ blocksAfter, (Arena.addBlocks fuel arena (page * pageSize) (last * pageSize)).Sound
        blocksAfter (free ∪ Finset.Ico page last) := by
  induction fuel with
  | zero =>
    intro arena blocks free page last sound enough _ _ _ _
    rw [Finset.Ico_eq_empty (by omega), Finset.union_empty]
    exact ⟨(Keeps.refl arena).toConfined, blocks, sound⟩
  | succ fuel ih =>
    intro arena blocks free page last sound enough positive start stop new
    rw [Arena.addBlocks]
    by_cases more : page < last
    swap
    · rw [if_neg (fun less => more (Nat.lt_of_mul_lt_mul_right less)),
        Finset.Ico_eq_empty (by omega), Finset.union_empty]
      exact ⟨(Keeps.refl arena).toConfined, blocks, sound⟩
    obtain ⟨level, below, chosen, aligned, room⟩ := regionOrder_spec more (maxOrder - 1 - minOrder)
    have fits : Fits arena.zone level page :=
      ⟨below.trans (by decide), aligned, positive, start, room.trans stop⟩
    have split : Finset.Ico page last = span level page ∪ Finset.Ico (page + 2 ^ level) last :=
      (Finset.Ico_union_Ico_eq_Ico (Nat.le_add_right _ _) room).symm
    rw [split, Finset.disjoint_union_left] at new
    obtain ⟨confined, blocksFreed, freed⟩ := sound.release fits new.1
    have counted := freed.manage (orderToPages (minOrder + level))
    rw [if_pos (Nat.mul_lt_mul_of_pos_right more (by decide))]
    simp only [chosen]
    rw [orderToBlockSize_add, ← Nat.add_mul, split, ← Finset.union_assoc]
    have rest : Disjoint (Finset.Ico (page + 2 ^ level) last) (free ∪ span level page) := by
      refine Finset.disjoint_union_right.mpr ⟨new.2, Finset.disjoint_left.mpr ?_⟩
      intro frame behind inside
      rw [Finset.mem_Ico] at behind
      rw [mem_span] at inside
      omega
    have limits := confined.trans (confined_manage _ (orderToPages (minOrder + level)))
    obtain ⟨confinedRest, blocksAfter, after⟩ := ih counted (by omega) (by omega)
      (by rw [limits.zoneStartPfn]; omega) (by rw [limits.zoneEndPfn]; exact stop) rest
    exact ⟨limits.trans confinedRest, blocksAfter, after⟩

/-- `add_memory_region` frees the frames of a region that lie in the zone. -/
theorem addMemoryRegion (sound : arena.Sound blocks free) {start stop : ℕ}
    (above : 2 ^ 20 ≤ start) (new : Disjoint (regionFrames arena.zone start stop) free) :
    arena.Confined (arena.addMemoryRegion start stop) ∧
      ∃ blocksAfter, (arena.addMemoryRegion start stop).Sound blocksAfter
        (free ∪ regionFrames arena.zone start stop) := by
  have unchanged : regionFrames arena.zone start stop = ∅ →
      arena.Confined arena ∧ ∃ blocksAfter, arena.Sound blocksAfter
        (free ∪ regionFrames arena.zone start stop) := by
    intro empty
    rw [empty, Finset.union_empty]
    exact ⟨(Keeps.refl arena).toConfined, blocks, sound⟩
  simp only [Arena.addMemoryRegion, paddingUp, paddingDown, Nat.mul_max_mul_right,
    Nat.mul_min_mul_right]
  have scale : ∀ {a b : ℕ}, a * pageSize ≤ b * pageSize ↔ a ≤ b :=
    Nat.mul_le_mul_right_iff (by decide)
  simp only [scale]
  split_ifs with short outside
  · exact unchanged (Finset.Ico_eq_empty (by omega))
  · exact unchanged (Finset.Ico_eq_empty (by omega))
  · rw [← Nat.sub_mul, Nat.mul_div_cancel _ (by decide)]
    exact addBlocks _ sound (by omega) (by simp only [pageSize]; omega) (le_max_right _ _)
      (min_le_right _ _) new

end Sound

end Arena

end OpenXJ380.Buddy
