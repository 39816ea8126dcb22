/-
# The read cache

`ReadCache` of `src/driver/fs/ext4/io_cache.h` keeps clean copies of up to 32 blocks. A read
inside one block is served from its copy, after the whole block was read if there is none;
larger reads go to the store. The slots are ranked by recency, 1 for the last one used and 0
for a free one.

The rank rules are about functions on any finite set of slots. `Ranked` says that the ranks
are 1 to `n`, each given once. That follows from ranks that are different and not too high,
which the two edits of the source keep.

The store is its contents and what can be read of it. A read that fails in one part of a block
fails for the cache wherever it looks in the block, so the cache is transparent only for a
store whose blocks can be read as a whole or not at all.
-/

import OpenXJ380.Protocol.Run

namespace OpenXJ380.Ext4

open Finset Function

section Ranks

variable {ι : Type} [DecidableEq ι]

/-- The positive ranks are 1 to `n`, each given once. -/
structure Ranked (rank : ι → Nat) (n : Nat) : Prop where
  le : ∀ i, rank i ≤ n
  unique : ∀ r, 1 ≤ r → r ≤ n → ∃ i, rank i = r ∧ ∀ j, rank j = r → j = i

section

variable (rank : ι → Nat)

/-- `discard`: the slot is free, and those behind it move up. -/
def discardRank (slot : ι) : ι → Nat :=
  if rank slot = 0 then rank
  else fun i => if i = slot then 0 else if rank i > rank slot then rank i - 1 else rank i

/-- `touch`: the slot is first, and those before it move back. -/
def touchRank (slot : ι) (entries : Nat) : ι → Nat :=
  let old := if rank slot ≠ 0 then rank slot else entries + 1
  fun i => if i = slot then 1 else if rank i ≠ 0 ∧ rank i < old then rank i + 1 else rank i

theorem discardRank_apply (slot i : ι) : discardRank rank slot i =
      if rank slot = 0 then rank i
      else if i = slot then 0 else if rank i > rank slot then rank i - 1 else rank i := by
  rw [discardRank]
  split <;> rfl

end

/-- The slots in use. -/
def occupied [Fintype ι] (rank : ι → Nat) : Finset ι := Finset.univ.filter fun i => rank i ≠ 0

omit [DecidableEq ι] in
@[simp]
theorem mem_occupied [Fintype ι] {rank : ι → Nat} {i : ι} : i ∈ occupied rank ↔ rank i ≠ 0 := by
  simp [occupied]

/-- No rank is given twice or exceeds the number of slots in use. -/
structure Compact [Fintype ι] (rank : ι → Nat) : Prop where
  le : ∀ i, rank i ≤ (occupied rank).card
  injective : ∀ i j, rank j ≠ 0 → rank i = rank j → i = j

variable [Fintype ι] {rank : ι → Nat}

omit [DecidableEq ι] in
/-- Different ranks that fit are all ranks. -/
theorem Compact.ranked (h : Compact rank) : Ranked rank (occupied rank).card where
  le := h.le
  unique := by
    intro r hlow hhigh
    have hmaps : ∀ i ∈ occupied rank, rank i ∈ Finset.Icc 1 (occupied rank).card := by
      intro i hi
      exact mem_Icc.mpr ⟨Nat.pos_of_ne_zero (mem_occupied.mp hi), h.le i⟩
    have hinj : Set.InjOn rank (occupied rank) := fun i _ j hj heq =>
      h.injective i j (mem_occupied.mp hj) heq
    obtain ⟨i, -, hi⟩ := surjOn_of_injOn_of_card_le rank hmaps hinj (by simp)
      (mem_coe.mpr (mem_Icc.mpr ⟨hlow, hhigh⟩))
    exact ⟨i, hi, fun j hj => h.injective j i (by omega) (by omega)⟩

theorem occupied_discardRank (rank : ι → Nat) (slot : ι) :
    occupied (discardRank rank slot) = (occupied rank).erase slot := by
  ext i
  rw [mem_occupied, discardRank_apply, mem_erase, mem_occupied]
  grind

theorem occupied_touchRank (rank : ι → Nat) (slot : ι) (entries : Nat) :
    occupied (touchRank rank slot entries) = insert slot (occupied rank) := by
  ext i
  simp only [mem_occupied, touchRank, mem_insert]
  grind

theorem Compact.discard (h : Compact rank) (slot : ι) : Compact (discardRank rank slot) := by
  by_cases hslot : rank slot = 0
  · rwa [discardRank, if_pos hslot]
  refine ⟨fun i => ?_, fun i j => ?_⟩
  · have hi := h.le i
    have hbound := h.le slot
    have hown := h.injective i slot hslot
    rw [occupied_discardRank, card_erase_of_mem (mem_occupied.mpr hslot), discardRank_apply]
    grind
  · have hi := h.injective i slot hslot
    have hj := h.injective j slot hslot
    have hij := h.injective i j
    rw [discardRank_apply, discardRank_apply]
    grind

theorem Compact.touch (h : Compact rank) (slot : ι) {entries : Nat}
    (hentries : (occupied rank).card ≤ entries) : Compact (touchRank rank slot entries) := by
  refine ⟨fun i => ?_, fun i j => ?_⟩
  · have hi := h.le i
    have hbound := h.le slot
    rw [occupied_touchRank, touchRank]
    by_cases hslot : rank slot = 0
    · rw [card_insert_of_notMem fun hin => mem_occupied.mp hin hslot]
      grind
    · rw [insert_eq_of_mem (mem_occupied.mpr hslot)]
      grind
  · have hi := h.injective i slot
    have hj := h.injective j slot
    have hij := h.injective i j
    have hile := h.le i
    have hjle := h.le j
    rw [touchRank]
    grind

end Ranks

/-- What a reader returns at one moment: the bytes, which ranges can be read, and what a failed
read leaves in its output. -/
structure BackingStore where
  content : Nat → UInt8
  readable : Nat → Nat → Bool
  debris : Nat → UInt8

/-- `reader(context, offset, output, length)`; `none` for `false`. -/
def BackingStore.reader (store : BackingStore) (offset length : Nat) : Option (List UInt8) :=
  if store.readable offset length then
    some ((List.range length).map fun i => store.content (offset + i))
  else none

/-- A read of the store with the bounds of the device and no cache. -/
def BackingStore.directRead (store : BackingStore) (limit offset length : Nat) :
    Option (List UInt8) :=
  if offset > limit ∨ length > limit - offset then none
  else if length = 0 then some []
  else store.reader offset length

abbrev kEntries : Nat := 32

structure ReadCache where
  data : Fin kEntries → Nat → UInt8
  blocks : Fin kEntries → Nat
  rank : Fin kEntries → Nat

namespace ReadCache

section

variable (c : ReadCache)

def reset : ReadCache := { c with rank := fun _ => 0 }

variable (slot : Fin kEntries)

def discard : ReadCache :=
  { c with rank := discardRank c.rank slot }

def touch : ReadCache :=
  { c with rank := touchRank c.rank slot kEntries }

end

/-- One turn of the loop of `invalidate`. -/
def drop (first last : Nat) (c : ReadCache) (i : Fin kEntries) : ReadCache :=
  if c.rank i ≠ 0 ∧ c.blocks i ≥ first ∧ c.blocks i ≤ last then c.discard i else c

def invalidate (c : ReadCache) (offset length size : Nat) : ReadCache :=
  if length = 0 then c
  else if size = 0 ∨ length - 1 > 2 ^ 64 - 1 - offset then c.reset
  else (List.finRange kEntries).foldl (drop (offset / size) ((offset + length - 1) / size)) c

/-- The slot that holds the block. -/
def find (c : ReadCache) (block : Nat) : Option (Fin kEntries) :=
  (List.finRange kEntries).find? fun i => c.rank i ≠ 0 ∧ c.blocks i = block

/-- The slot a new block goes to: the first free one, or the one of the highest rank. -/
def victim (c : ReadCache) : List (Fin kEntries) → Fin kEntries → Fin kEntries
  | [], slot => slot
  | i :: rest, slot =>
    if c.rank i = 0 then i
    else victim c rest (if c.rank i > c.rank slot then i else slot)

section

variable (c : ReadCache)

/-- The end of `read`: the slot becomes the first, and the bytes are copied out. -/
def deliver (slot : Fin kEntries) (size offset length : Nat) : Option (List UInt8) × ReadCache :=
  (some ((List.range length).map fun i => c.data slot (offset % size + i)), c.touch slot)

/-- The slot's data and block number are replaced. -/
def put (slot : Fin kEntries) (bytes : Nat → UInt8) (block : Nat) : ReadCache :=
  { c with data := update c.data slot bytes, blocks := update c.blocks slot block }

variable (store : BackingStore)

/-- The whole block is read into a discarded slot. -/
def fill (slot : Fin kEntries) (block size : Nat) : Bool × ReadCache :=
  let dropped := c.discard slot
  if store.readable (block * size) size then
    (true, dropped.put slot (fun k => store.content (block * size + k)) block)
  else (false, dropped.put slot store.debris (dropped.blocks slot))

def read (limit size offset length : Nat) : Option (List UInt8) × ReadCache :=
  if offset > limit ∨ length > limit - offset then (none, c)
  else if length = 0 then (some [], c)
  else if (size ≠ 1024 ∧ size ≠ 2048 ∧ size ≠ 4096) ∨ length > size - offset % size then
    (store.reader offset length, c)
  else
    let block := offset / size
    match c.find block with
    | some slot => c.deliver slot size offset length
    | none =>
      -- A block that the end of the device cuts is not cached.
      if size > limit - block * size then (store.reader offset length, c)
      else
        let slot := c.victim (List.finRange kEntries) 0
        match c.fill store slot block size with
        | (true, filled) => filled.deliver slot size offset length
        | (false, dropped) => (none, dropped)

end

/-- The slot is in use. -/
def Occupied (c : ReadCache) (i : Fin kEntries) : Prop := c.rank i ≠ 0

/-- The block is inside the device, can be read, and the slot has its bytes. -/
structure Copies (c : ReadCache) (store : BackingStore) (limit size : Nat) (i : Fin kEntries) :
    Prop where
  inside : c.blocks i * size + size ≤ limit
  readable : store.readable (c.blocks i * size) size = true
  bytes : ∀ k < size, c.data i k = store.content (c.blocks i * size + k)

structure Consistent (c : ReadCache) (store : BackingStore) (limit size : Nat) : Prop where
  ranked : Compact c.rank
  distinct : ∀ i j, c.Occupied i → c.Occupied j → c.blocks i = c.blocks j → i = j
  copies : ∀ i, c.Occupied i → c.Copies store limit size i

variable {slot i : Fin kEntries}

theorem occupied_discard {c : ReadCache} :
    (c.discard slot).Occupied i ↔ i ≠ slot ∧ c.Occupied i := by
  rw [Occupied, ← mem_occupied, discard, occupied_discardRank, mem_erase, mem_occupied]
  rfl

theorem occupied_touch {c : ReadCache} : (c.touch slot).Occupied i ↔ i = slot ∨ c.Occupied i := by
  rw [Occupied, ← mem_occupied, touch, occupied_touchRank, mem_insert, mem_occupied]
  rfl

variable {c : ReadCache} {store : BackingStore} {limit size : Nat}

theorem consistent_reset (c : ReadCache) : c.reset.Consistent store limit size where
  ranked := ⟨fun _ => Nat.zero_le _, fun _ _ hj => absurd rfl hj⟩
  distinct := fun _ _ hi => absurd rfl hi
  copies := fun _ hi => absurd rfl hi

section

variable (h : c.Consistent store limit size)
include h

theorem Consistent.discard (slot : Fin kEntries) :
    (c.discard slot).Consistent store limit size where
  ranked := h.ranked.discard slot
  distinct := fun i j hi hj => h.distinct i j (occupied_discard.mp hi).2 (occupied_discard.mp hj).2
  copies := fun i hi =>
    have hcopy := h.copies i (occupied_discard.mp hi).2
    ⟨hcopy.inside, hcopy.readable, hcopy.bytes⟩

theorem Consistent.touch (hcopy : c.Copies store limit size slot)
    (hfresh : ∀ i, c.Occupied i → c.blocks i = c.blocks slot → i = slot) :
    (c.touch slot).Consistent store limit size where
  ranked := h.ranked.touch slot ((card_le_univ _).trans (by simp))
  distinct := by
    intro i j hi hj heq
    rcases occupied_touch.mp hi with hislot | hiold
    · rw [hislot] at heq ⊢
      rcases occupied_touch.mp hj with hjslot | hjold
      · exact hjslot.symm
      · exact (hfresh j hjold heq.symm).symm
    · rcases occupied_touch.mp hj with hjslot | hjold
      · rw [hjslot] at heq ⊢
        exact hfresh i hiold heq
      · exact h.distinct i j hiold hjold heq
  copies := by
    intro i hi
    rcases occupied_touch.mp hi with rfl | hi
    · exact ⟨hcopy.inside, hcopy.readable, hcopy.bytes⟩
    · have hold := h.copies i hi
      exact ⟨hold.inside, hold.readable, hold.bytes⟩

end

theorem put_self (c : ReadCache) (slot : Fin kEntries) (bytes : Nat → UInt8) (block : Nat) :
    (c.put slot bytes block).data slot = bytes ∧ (c.put slot bytes block).blocks slot = block :=
  ⟨update_self .., update_self ..⟩

theorem put_of_ne (c : ReadCache) (hne : i ≠ slot) (bytes : Nat → UInt8) (block : Nat) :
    (c.put slot bytes block).data i = c.data i ∧ (c.put slot bytes block).blocks i = c.blocks i :=
  ⟨update_of_ne hne .., update_of_ne hne ..⟩

/-- Data and block of a free slot are of no account. -/
theorem Consistent.put (h : c.Consistent store limit size) (hfree : ¬ c.Occupied slot)
    (bytes : Nat → UInt8) (block : Nat) :
    (c.put slot bytes block).Consistent store limit size where
  ranked := h.ranked
  distinct := by
    intro i j hi hj heq
    have hine : i ≠ slot := fun he => hfree (he ▸ hi)
    have hjne : j ≠ slot := fun he => hfree (he ▸ hj)
    rw [(c.put_of_ne hine bytes block).2, (c.put_of_ne hjne bytes block).2] at heq
    exact h.distinct i j hi hj heq
  copies := by
    intro i hi
    have hne : i ≠ slot := fun he => hfree (he ▸ hi)
    obtain ⟨hdata, hblock⟩ := c.put_of_ne hne bytes block
    have hold := h.copies i hi
    refine ⟨?_, ?_, fun k hk => ?_⟩
    · rw [hblock]
      exact hold.inside
    · rw [hblock]
      exact hold.readable
    · rw [hdata, hblock]
      exact hold.bytes k hk

end ReadCache

/-- A block is readable as a whole or in no part. A cached read cannot tell its parts apart. -/
def BackingStore.Blockwise (store : BackingStore) (limit size : Nat) : Prop :=
  ∀ offset length, 0 < length → offset % size + length ≤ size →
    offset / size * size + size ≤ limit →
    store.readable offset length = store.readable (offset / size * size) size

namespace ReadCache

variable {c : ReadCache} {store : BackingStore} {limit size offset length : Nat}
  {slot : Fin kEntries} {block : Nat}

/-- The bytes of a slot that has the block of `offset` are those of a direct read. -/
theorem Copies.delivers (hcopy : c.Copies store limit size slot)
    (hblock : c.blocks slot = offset / size) (hwise : store.Blockwise limit size)
    (hpos : 0 < length) (hfit : offset % size + length ≤ size) :
    (c.deliver slot size offset length).1 = store.reader offset length := by
  have hsplit : offset / size * size + offset % size = offset := Nat.div_add_mod' offset size
  have hinside := hcopy.inside
  have hreadable := hcopy.readable
  rw [hblock] at hinside hreadable
  rw [deliver, BackingStore.reader, hwise offset length hpos hfit hinside, if_pos hreadable]
  refine congrArg some (List.map_congr_left fun i hi => ?_)
  have hlt := List.mem_range.mp hi
  rw [hcopy.bytes _ (by omega), hblock]
  exact congrArg store.content (by omega)

theorem find_some (h : c.find block = some slot) : c.Occupied slot ∧ c.blocks slot = block := by
  have hfound := List.find?_some h
  simpa [Occupied] using hfound

theorem find_none (h : c.find block = none) (i : Fin kEntries) :
    c.Occupied i → c.blocks i ≠ block := by
  have hnone := List.find?_eq_none.mp h i (List.mem_finRange i)
  simpa [Occupied] using hnone

/-- A read answers as a direct one and keeps the slots in order. -/
theorem read_spec (offset length : Nat) (h : c.Consistent store limit size)
    (hwise : store.Blockwise limit size) :
    (c.read store limit size offset length).1 = store.directRead limit offset length ∧
      (c.read store limit size offset length).2.Consistent store limit size := by
  rw [read, BackingStore.directRead]
  iterate 3
    split
    · exact ⟨rfl, h⟩
  have hfit : offset % size + length ≤ size := by omega
  dsimp only
  split
  · -- The block has a slot.
    rename_i slot hfind
    obtain ⟨hocc, hblock⟩ := find_some hfind
    have hcopy := h.copies slot hocc
    exact ⟨hcopy.delivers hblock hwise (by omega) hfit,
      h.touch hcopy fun i hi heq => h.distinct i slot hi hocc heq⟩
  · rename_i hfind
    split
    · exact ⟨rfl, h⟩
    have hinside : offset / size * size + size ≤ limit := by omega
    generalize c.victim (List.finRange kEntries) 0 = slot
    have hdropped := h.discard slot
    have hfree : ¬ (c.discard slot).Occupied slot := fun hin => (occupied_discard.mp hin).1 rfl
    rw [fill]
    by_cases hreadable : store.readable (offset / size * size) size = true
    · rw [if_pos hreadable]
      generalize hbytes : (fun k => store.content (offset / size * size + k)) = bytes
      obtain ⟨hdata, hblock⟩ := (c.discard slot).put_self slot bytes (offset / size)
      have hcopy : ((c.discard slot).put slot bytes (offset / size)).Copies store limit size slot :=
        ⟨by rw [hblock]; exact hinside, by rw [hblock]; exact hreadable,
          fun k _ => by rw [hdata, hblock, ← hbytes]⟩
      refine ⟨hcopy.delivers hblock hwise (by omega) hfit,
        (hdropped.put hfree bytes _).touch hcopy fun i hi heq => ?_⟩
      -- No other slot has the block: it was not found.
      by_contra hne
      rw [hblock, ((c.discard slot).put_of_ne hne bytes _).2] at heq
      exact find_none hfind i (occupied_discard.mp hi).2 heq
    · rw [if_neg hreadable, BackingStore.reader, hwise offset length (by omega) hfit hinside,
        if_neg hreadable]
      exact ⟨rfl, hdropped.put hfree store.debris _⟩

/-- After a read the slots in use have the blocks that they had, or the block that was read. -/
theorem read_blocks (c : ReadCache) (store : BackingStore) (limit size offset length : Nat)
    {i : Fin kEntries} : (c.read store limit size offset length).2.Occupied i →
      (c.read store limit size offset length).2.blocks i = offset / size ∨
        c.Occupied i ∧ (c.read store limit size offset length).2.blocks i = c.blocks i := by
  rw [read]
  iterate 3
    split
    · exact fun hi => .inr ⟨hi, rfl⟩
  dsimp only
  split
  · rename_i slot hfind
    intro hi
    rcases occupied_touch.mp hi with rfl | hold
    · exact .inl (find_some hfind).2
    · exact .inr ⟨hold, rfl⟩
  · split
    · exact fun hi => .inr ⟨hi, rfl⟩
    generalize c.victim (List.finRange kEntries) 0 = slot
    rw [fill]
    by_cases hreadable : store.readable (offset / size * size) size = true
    · rw [if_pos hreadable]
      generalize (fun k => store.content (offset / size * size + k)) = bytes
      intro hi
      by_cases hslot : i = slot
      · subst hslot
        exact .inl ((c.discard i).put_self i bytes (offset / size)).2
      · have hold := (occupied_touch.mp hi).resolve_left hslot
        exact .inr ⟨(occupied_discard.mp hold).2, (put_of_ne _ hslot bytes _).2⟩
    · rw [if_neg hreadable]
      intro hi
      obtain ⟨hslot, hold⟩ := occupied_discard.mp hi
      exact .inr ⟨hold, (put_of_ne _ hslot store.debris _).2⟩

/-- No slot has a byte of the range. -/
def Clear (c : ReadCache) (size offset length : Nat) : Prop :=
  ∀ i, c.Occupied i → ∀ p, c.blocks i * size ≤ p → p < c.blocks i * size + size →
    p < offset ∨ offset + length ≤ p

theorem drop_spec (h : c.Consistent store limit size) (first last : Nat) (i : Fin kEntries) :
    (drop first last c i).Consistent store limit size ∧
      (∀ j, (drop first last c i).Occupied j → c.Occupied j) ∧
      (drop first last c i).blocks = c.blocks ∧
      ((drop first last c i).Occupied i → ¬ (c.blocks i ≥ first ∧ c.blocks i ≤ last)) := by
  rw [drop]
  split
  · exact ⟨h.discard i, fun j hj => (occupied_discard.mp hj).2, rfl,
      fun hi => absurd rfl (occupied_discard.mp hi).1⟩
  · rename_i hkeep
    exact ⟨h, fun j hj => hj, rfl, fun hi hin => hkeep ⟨hi, hin⟩⟩

theorem foldl_drop_spec (first last : Nat) (slots : List (Fin kEntries)) (c : ReadCache)
    (h : c.Consistent store limit size) :
    (slots.foldl (drop first last) c).Consistent store limit size ∧
      (∀ j, (slots.foldl (drop first last) c).Occupied j → c.Occupied j) ∧
      (slots.foldl (drop first last) c).blocks = c.blocks ∧
      ∀ i ∈ slots, (slots.foldl (drop first last) c).Occupied i →
        ¬ (c.blocks i ≥ first ∧ c.blocks i ≤ last) := by
  induction slots generalizing c with
  | nil => exact ⟨h, fun j hj => hj, rfl, by simp⟩
  | cons slot rest ih =>
    obtain ⟨hkept, hocc, hblocks, hslot⟩ := drop_spec h first last slot
    obtain ⟨hkept', hocc', hblocks', hrest⟩ := ih _ hkept
    refine ⟨hkept', fun j hj => hocc j (hocc' j hj), hblocks'.trans hblocks, fun i hi hj => ?_⟩
    rcases List.mem_cons.mp hi with rfl | hi
    · exact hslot (hocc' i hj)
    · rw [← hblocks]
      exact hrest i hi hj

/-- `invalidate` drops every slot with a byte of the range, and brings in none. -/
theorem invalidate_spec (h : c.Consistent store limit size) (offset length : Nat) :
    (c.invalidate offset length size).Consistent store limit size ∧
      (c.invalidate offset length size).Clear size offset length ∧
      ∀ o l, c.Clear size o l → (c.invalidate offset length size).Clear size o l := by
  rw [invalidate]
  split
  · exact ⟨h, fun i _ p _ _ => by omega, fun o l hclear => hclear⟩
  split
  · exact ⟨consistent_reset c, fun i hi => absurd rfl hi, fun _ _ _ i hi => absurd rfl hi⟩
  have hsize : 0 < size := by omega
  obtain ⟨hkept, hocc, hblocks, hgone⟩ := foldl_drop_spec (offset / size)
    ((offset + length - 1) / size) (List.finRange kEntries) c h
  refine ⟨hkept, fun i hi p => ?_, fun o l hclear i hi => ?_⟩
  · rw [hblocks]
    have hout := hgone i (List.mem_finRange i) hi
    rcases Nat.lt_or_ge (c.blocks i) (offset / size) with hbefore | hfrom
    · have hmul := (Nat.le_div_iff_mul_le hsize).mp hbefore
      rw [Nat.succ_mul] at hmul
      omega
    · have hafter : (offset + length - 1) / size < c.blocks i := by omega
      have hmul := (Nat.div_lt_iff_lt_mul hsize).mp hafter
      omega
  · rw [hblocks]
    exact hclear i (hocc i hi)

end ReadCache

/-- What the owner of the device does. -/
inductive CacheCall
  | read (offset length : Nat)
  | invalidate (offset length : Nat)
  /-- An attempted write to the range, after which the store is `store`. -/
  | write (offset length : Nat) (store : BackingStore)

/-- The cache, the store, the ranges that were invalidated and not read from since, and for each
read the answer of the cache and of the store. -/
structure CacheRun where
  cache : ReadCache
  store : BackingStore
  cleared : List (Nat × Nat)
  answers : List (Option (List UInt8) × Option (List UInt8))

/-- The range has no byte of the block of a read. -/
def apart (size offset : Nat) (range : Nat × Nat) : Bool :=
  offset / size * size + size ≤ range.1 || range.1 + range.2 ≤ offset / size * size

def CacheRun.step (limit size : Nat) (run : CacheRun) : CacheCall → CacheRun
  | .read offset length =>
    let cached := run.cache.read run.store limit size offset length
    { run with
      cache := cached.2
      cleared := run.cleared.filter (apart size offset)
      answers := run.answers ++ [(cached.1, run.store.directRead limit offset length)] }
  | .invalidate offset length =>
    { run with
      cache := run.cache.invalidate offset length size
      cleared := (offset, length) :: run.cleared }
  | .write _ _ store => { run with store }

/-- The store changes in the range only. -/
structure BackingStore.Writes (old new : BackingStore) (offset length : Nat) : Prop where
  content : ∀ p, p < offset ∨ offset + length ≤ p → new.content p = old.content p
  readable : ∀ o l, (∀ p, o ≤ p → p < o + l → p < offset ∨ offset + length ≤ p) →
    new.readable o l = old.readable o l

/-- A write goes to a range that was invalidated, with no read of a block of it since, and leaves a
store whose blocks can be read as a whole or not at all. -/
def CacheRun.Covered (limit size : Nat) (run : CacheRun) : CacheCall → Prop
  | .write offset length store =>
    run.store.Writes store offset length ∧ store.Blockwise limit size ∧
      ∃ range ∈ run.cleared, range.1 ≤ offset ∧ offset + length ≤ range.1 + range.2
  | _ => True

structure CacheRun.Sound (limit size : Nat) (run : CacheRun) : Prop where
  consistent : run.cache.Consistent run.store limit size
  blockwise : run.store.Blockwise limit size
  clear : ∀ range ∈ run.cleared, run.cache.Clear size range.1 range.2
  answers : ∀ answer ∈ run.answers, answer.1 = answer.2

variable {limit size : Nat}

/-- A write to a range that no slot has a byte of leaves every copy right. -/
theorem ReadCache.Consistent.write {c : ReadCache} {old new : BackingStore} {offset length : Nat}
    (h : c.Consistent old limit size) (hwrites : old.Writes new offset length)
    (hclear : c.Clear size offset length) :
    c.Consistent new limit size where
  ranked := h.ranked
  distinct := h.distinct
  copies := by
    intro i hi
    have hcopy := h.copies i hi
    have hapart := hclear i hi
    refine ⟨hcopy.inside, ?_, fun k hk => ?_⟩
    · rw [hwrites.readable _ _ hapart]
      exact hcopy.readable
    · rw [hcopy.bytes k hk, hwrites.content _ (hapart _ (by omega) (by omega))]

theorem CacheRun.sound_step (run : CacheRun) (call : CacheCall)
    (hcovered : run.Covered limit size call) (h : run.Sound limit size) :
    (run.step limit size call).Sound limit size := by
  cases call with
  | read offset length =>
    obtain ⟨hanswer, hcache⟩ := ReadCache.read_spec offset length h.consistent h.blockwise
    refine ⟨hcache, h.blockwise, fun range hmem i hi p hfrom hto => ?_, fun answer hmem => ?_⟩
    · obtain ⟨hold, hapart⟩ := List.mem_filter.mp hmem
      simp only [apart, Bool.or_eq_true, decide_eq_true_eq] at hapart
      rcases ReadCache.read_blocks run.cache run.store limit size offset length hi with
        hblock | ⟨hocc, hsame⟩
      · have hfrom : offset / size * size ≤ p := hblock ▸ hfrom
        have hto : p < offset / size * size + size := hblock ▸ hto
        omega
      · exact h.clear range hold i hocc p (hsame ▸ hfrom) (hsame ▸ hto)
    rcases List.mem_append.mp hmem with hold | hnew
    · exact h.answers answer hold
    · rw [List.mem_singleton.mp hnew]
      exact hanswer
  | invalidate offset length =>
    obtain ⟨hcache, hrange, hkept⟩ := ReadCache.invalidate_spec h.consistent offset length
    refine ⟨hcache, h.blockwise, fun range hmem => ?_, h.answers⟩
    rcases List.mem_cons.mp hmem with rfl | hold
    · exact hrange
    · exact hkept _ _ (h.clear range hold)
  | write offset length store =>
    obtain ⟨hwrites, hwise, range, hmem, hlow, hhigh⟩ := hcovered
    have hclear : run.cache.Clear size offset length := by
      intro i hi p hfrom hto
      have hapart := h.clear range hmem i hi p hfrom hto
      omega
    exact ⟨h.consistent.write hwrites hclear, hwise, h.clear, h.answers⟩

/-- Over a store whose blocks can be read as a whole or not at all, with each write in a range
that was invalidated after the last read of a block of it: every read answers as the store does,
the slots in use have different blocks, and their ranks are 1 to their number. -/
theorem readCache_transparent (cache : ReadCache) (store : BackingStore) (limit size : Nat)
    (calls : List CacheCall) (hwise : store.Blockwise limit size)
    (hcovered : Protocol.Along (CacheRun.step limit size) (CacheRun.Covered limit size)
      ⟨cache.reset, store, [], []⟩ calls) :
    let run := Protocol.run (CacheRun.step limit size) ⟨cache.reset, store, [], []⟩ calls
    (∀ answer ∈ run.answers, answer.1 = answer.2) ∧
      (∀ i j, run.cache.Occupied i → run.cache.Occupied j →
        run.cache.blocks i = run.cache.blocks j → i = j) ∧
      Ranked run.cache.rank (occupied run.cache.rank).card := by
  have hsound := Protocol.invariant_run (CacheRun.step limit size) (CacheRun.Sound limit size)
    CacheRun.sound_step hcovered
    ⟨ReadCache.consistent_reset cache, hwise, by simp, by simp⟩
  exact ⟨hsound.answers, hsound.consistent.distinct, hsound.consistent.ranked.ranked⟩

/-- A store of zeros that can be read everywhere. -/
def zeroStore : BackingStore := ⟨fun _ => 0, fun _ _ => true, fun _ => 0⟩

/-- The store after a write of a one to byte 5. -/
def oneStore : BackingStore := ⟨fun p => if p = 5 then 1 else 0, fun _ _ => true, fun _ => 0⟩

/-- Byte 0 cannot be read. -/
def damagedStore : BackingStore := ⟨fun _ => 0, fun offset _ => offset != 0, fun _ => 0⟩

def emptyCache : ReadCache := ⟨fun _ _ => 0, fun _ => 0, fun _ => 0⟩

theorem readCache_transparent_write :
    (Protocol.run (CacheRun.step 4096 1024) ⟨emptyCache.reset, zeroStore, [], []⟩
      [.read 4 2, .invalidate 5 1, .read 2048 1, .write 5 1 oneStore, .read 4 2]).answers =
        [(some [0, 0], some [0, 0]), (some [0], some [0]), (some [0, 1], some [0, 1])] ∧
    ∀ answer ∈ (Protocol.run (CacheRun.step 4096 1024) ⟨emptyCache.reset, zeroStore, [], []⟩
      [.read 4 2, .invalidate 5 1, .read 2048 1, .write 5 1 oneStore, .read 4 2]).answers,
        answer.1 = answer.2 := by
  have hwrites : zeroStore.Writes oneStore 5 1 :=
    ⟨fun p hp => if_neg (by omega), fun _ _ _ => rfl⟩
  have hcleared : (5, 1) ∈ [(5, 1)].filter (apart 1024 2048) := by decide
  exact ⟨by decide +kernel, (readCache_transparent emptyCache zeroStore 4096 1024
    [.read 4 2, .invalidate 5 1, .read 2048 1, .write 5 1 oneStore, .read 4 2] (fun _ _ _ _ _ => rfl)
    ⟨trivial, trivial, trivial, ⟨hwrites, fun _ _ _ _ _ => rfl, (5, 1), hcleared,
      Nat.le_refl 5, Nat.le_refl 6⟩, trivial, trivial⟩).1⟩

/-- A cached read fails where a direct one does not, and a read between the invalidation and the
write brings the old byte back. -/
theorem readCache_differs : (emptyCache.read damagedStore 4096 1024 1 1).1 = none ∧
    damagedStore.directRead 4096 1 1 = some [0] ∧
    (Protocol.run (CacheRun.step 4096 1024) ⟨emptyCache.reset, zeroStore, [], []⟩
      [.invalidate 5 1, .read 5 1, .write 5 1 oneStore, .read 5 1]).answers =
        [(some [0], some [0]), (some [0], some [1])] := by
  decide +kernel

end OpenXJ380.Ext4
