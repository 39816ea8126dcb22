/-
# Free and live frames

The frames that were added to the allocator are at every moment divided into the free
ones, which the free lists of the zones cover, and the live ones, which were allocated
and not given back. The history of a run records both sets. Between the calls the
owners of live frames write to them.
-/

import OpenXJ380.Buddy.Zone
import OpenXJ380.Protocol.Run

namespace OpenXJ380.Buddy

open Finset Function Data Protocol

namespace Platform

section

variable (platform : Platform)

def maxPfn : ℕ := platform.memorySize / pageSize

/-- The first frame of a zone and the one after its last. -/
def zoneStart : ZoneType → ℕ
  | .dma => 0
  | .dma32 => min platform.maxPfn (zoneDmaEnd / pageSize)
  | .normal => min platform.maxPfn (zoneDma32End / pageSize)

def zoneEnd : ZoneType → ℕ
  | .dma => min platform.maxPfn (zoneDmaEnd / pageSize)
  | .dma32 => min platform.maxPfn (zoneDma32End / pageSize)
  | .normal => platform.maxPfn

/-- A frame in the limits of a zone. -/
def InZone (type : ZoneType) (frame : ℕ) : Prop :=
  platform.zoneStart type ≤ frame ∧ frame < platform.zoneEnd type

end

variable {platform : Platform} {type : ZoneType} {frame : ℕ}

theorem zoneEnd_le (platform : Platform) (type : ZoneType) :
    platform.zoneEnd type ≤ platform.maxPfn := by
  cases type <;> simp only [zoneEnd] <;> omega

theorem InZone.physToZoneType (inside : platform.InZone type frame) :
    physToZoneType (frame * pageSize) = type := by
  have first : frame * pageSize < zoneDmaEnd ↔ frame < 4096 := by
    simp only [zoneDmaEnd, pageSize]
    omega
  have second : frame * pageSize < zoneDma32End ↔ frame < 1048576 := by
    simp only [zoneDma32End, pageSize]
    omega
  have dmaPfn : zoneDmaEnd / pageSize = 4096 := by decide
  have dma32Pfn : zoneDma32End / pageSize = 1048576 := by decide
  obtain ⟨above, below⟩ := inside
  simp only [Buddy.physToZoneType, first]
  cases type <;> simp only [zoneStart, zoneEnd] at above below <;> split_ifs <;>
    first | rfl | omega

theorem InZone.unique {other : ZoneType} (here : platform.InZone type frame)
    (there : platform.InZone other frame) : type = other :=
  here.physToZoneType.symm.trans there.physToZoneType

end Platform

/-- The frames of the block for a count at an address. -/
def blockFrames (addr count : ℕ) : Finset ℕ :=
  Finset.Ico (addr / pageSize) (addr / pageSize + countToBlockPages count)

/-- The allocator with the history of the frames. -/
structure System where
  state : State
  added : Finset ℕ
  live : Finset ℕ

/-- A call of the allocator, or a word written by the owner of a frame. -/
inductive Action
  | add (start stop : ℕ) (type : ZoneType)
  | alloc (count : ℕ)
  | allocDma32 (count : ℕ)
  | free (addr count : ℕ)
  | store (address value : ℕ)

namespace System

/-- The frames a region adds: those of its zone, if there is one. -/
def newFrames (system : System) (start stop : ℕ) (type : ZoneType) : Finset ℕ :=
  match system.state.zones type with
  | none => ∅
  | some zone => regionFrames zone start stop

/-- An allocation makes the frames of the returned block live. -/
def allocated (system : System) (count : ℕ) (result : ℕ × State) : System :=
  { system with
    state := result.2
    live := if result.1 = 0 then system.live else system.live ∪ blockFrames result.1 count }

variable (platform : Platform)

def step (system : System) : Action → System
  | .add start stop type =>
    { system with
      state := system.state.addMemoryRegion start stop type
      added := system.added ∪ system.newFrames start stop type }
  | .alloc count => system.allocated count (system.state.allocFrames platform count)
  | .allocDma32 count => system.allocated count (system.state.allocFramesDma32 platform count)
  | .free addr count =>
    { system with
      state := system.state.freeFrames platform addr count
      live :=
        if count ≠ 0 ∧ orderValid (countToOrder count) ∧ blockFrames addr count ⊆ system.live then
          system.live \ blockFrames addr count
        else system.live }
  | .store address value =>
    { system with
      state := { system.state with
        memory := update system.state.memory address value } }

/-- A region is a range of physical addresses from 1 MiB on, its frames are usable and
not yet added; a block that is given back is aligned to its size; only live frames are
written to. -/
def Admitted (system : System) : Action → Prop
  | .add start stop type =>
    2 ^ 20 ≤ start ∧ start ≤ 2 ^ 52 ∧ stop ≤ 2 ^ 52 ∧
      (∀ frame ∈ system.newFrames start stop type, platform.usable.get frame = true) ∧
      Disjoint (system.newFrames start stop type) system.added
  | .alloc _ | .allocDma32 _ => True
  | .free addr count => countToBlockPages count * pageSize ∣ addr
  | .store address _ => address / pageSize ∈ system.live

/-- After `buddy_init` nothing has been added. -/
def initial (memory : ℕ → ℕ) : System where
  state := buddyInit platform memory
  added := ∅
  live := ∅

/-- What holds of one zone: its free lists describe free frames, and together with the
live ones these are the added frames within its limits. -/
structure ZoneSound (system : System) (type : ZoneType) (zone : Zone) (blocks : ℕ → List ℕ)
    (free : Finset ℕ) : Prop where
  arena : Arena.Sound ⟨zone, system.state.memory⟩ blocks free
  start : zone.zoneStartPfn = platform.zoneStart type
  stop : zone.zoneEndPfn = platform.zoneEnd type
  added : ∀ frame, platform.InZone type frame →
    (frame ∈ system.added ↔ frame ∈ free ∨ frame ∈ system.live)
  apart : Disjoint free system.live

structure Sound (system : System) : Prop where
  zones : ∀ {type zone}, system.state.zones type = some zone →
    ∃ blocks free, system.ZoneSound platform type zone blocks free
  placed : ∀ frame ∈ system.added, 0 < frame ∧ platform.usable.get frame = true ∧
    ∃ type zone, system.state.zones type = some zone ∧ platform.InZone type frame
  live_added : system.live ⊆ system.added
  length : platform.maxPfn ≤ system.state.usingRegions.length
  inUse : ∀ frame, system.state.usingRegions.get frame = decide (frame ∈ system.live)
  refs : ∀ frame, system.state.refcount frame = if frame ∈ system.live then 1 else 0

variable {platform : Platform} {system : System} {type : ZoneType} {zone : Zone}
  {blocks : ℕ → List ℕ} {free : Finset ℕ} {frame level page count : ℕ} {result : ℕ × State}

theorem ZoneSound.inZone (sound : system.ZoneSound platform type zone blocks free)
    (member : frame ∈ free) : platform.InZone type frame := by
  obtain ⟨level, page, found, inside⟩ := (sound.arena.frames frame).mp member
  have fits := sound.arena.listed.fits found
  have start := fits.start_le
  have stop := fits.le_end
  rw [mem_span] at inside
  rw [Platform.InZone, ← sound.start, ← sound.stop]
  constructor
  · exact start.trans inside.1
  · exact inside.2.trans_le stop

theorem sound_initial (platform : Platform) (memory : ℕ → ℕ) :
    (initial platform memory).Sound platform := by
  have empty : ∀ {type start stop}, start = platform.zoneStart type →
      stop = platform.zoneEnd type → ∃ blocks free,
      (initial platform memory).ZoneSound platform type (initZone start stop) blocks free := by
    intro type start stop first last
    refine ⟨fun _ => [], ∅, ⟨⟨fun _ => rfl, Tiled.empty _, by simp⟩, ?_, rfl⟩, first, last, ?_, ?_⟩
    · simp [Covered]
    · simp [initial]
    · simp
  refine ⟨fun {type zone} found => ?_, by simp [initial], by simp [initial], ?_, ?_, ?_⟩
  · cases type with
    | dma =>
      obtain rfl := Option.some.inj found
      exact empty rfl rfl
    | dma32 =>
      simp only [initial, buddyInit] at found
      split_ifs at found
      obtain rfl := Option.some.inj found
      exact empty rfl rfl
    | normal =>
      simp only [initial, buddyInit] at found
      split_ifs at found
      obtain rfl := Option.some.inj found
      exact empty rfl rfl
  · simp only [initial, buddyInit, Platform.maxPfn]
    omega
  · simp [initial, buddyInit, Bitmap.get]
  · simp [initial, buddyInit]

/-- An operation on one zone that settles the frames of that zone keeps the others. -/
theorem Sound.onZone (sound : system.Sound platform) (found : system.state.zones type = some zone)
    (change : Arena → Arena)
    (confined : Arena.Confined ⟨zone, system.state.memory⟩ (change ⟨zone, system.state.memory⟩))
    {after : System}
    (zones : after.state.zones = (system.state.onZone type zone change).zones)
    (memory : after.state.memory = (system.state.onZone type zone change).memory)
    (others : ∀ frame, ¬platform.InZone type frame →
      (frame ∈ after.added ↔ frame ∈ system.added) ∧ (frame ∈ after.live ↔ frame ∈ system.live))
    (settled : ∃ blocks free, after.ZoneSound platform type
      (change ⟨zone, system.state.memory⟩).zone blocks free) :
    ∀ {other zone}, after.state.zones other = some zone →
      ∃ blocks free, after.ZoneSound platform other zone blocks free := by
  intro other otherZone present
  rw [zones] at present
  by_cases same : other = type
  · subst same
    simp only [State.onZone, update_self] at present
    exact Option.some.inj present ▸ settled
  · simp only [State.onZone, update_of_ne same] at present
    obtain ⟨blocks, free, old⟩ := sound.zones present
    have limits := (sound.zones found).choose_spec.choose_spec
    have elsewhere : ∀ {frame}, platform.InZone other frame → ¬platform.InZone type frame :=
      fun here there => same (here.unique there)
    refine ⟨blocks, free, ?_, old.start, old.stop, fun frame inside => ?_, ?_⟩
    · rw [memory]
      refine old.arena.memory_congr fun frame member => confined.outside _ ?_
      rw [Nat.mul_div_cancel _ (by decide), limits.start, limits.stop]
      have apart := elsewhere (old.inZone member)
      rw [Platform.InZone] at apart
      omega
    · obtain ⟨addedSame, liveSame⟩ := others frame (elsewhere inside)
      rw [addedSame, liveSame]
      exact old.added frame inside
    · refine disjoint_left.mpr fun frame member live => ?_
      have liveSame := (others frame (elsewhere (old.inZone member))).2
      exact disjoint_left.mp old.apart member (liveSame.mp live)

theorem placed_onZone (found : system.state.zones type = some zone) (change : Arena → Arena) :
    (∃ other zone, system.state.zones other = some zone ∧ platform.InZone other frame) →
      ∃ other otherZone, (system.state.onZone type zone change).zones other = some otherZone ∧
        platform.InZone other frame := by
  rintro ⟨other, otherZone, present, inside⟩
  by_cases same : other = type
  · subst same
    exact ⟨other, _, update_self _ _ _, inside⟩
  · exact ⟨other, otherZone, (update_of_ne same _ _).trans present, inside⟩

variable {start stop : ℕ}

theorem mem_regionFrames : frame ∈ regionFrames zone start stop ↔
      (start + pageSize - 1) / pageSize ≤ frame ∧ frame < stop / pageSize ∧
        zone.zoneStartPfn ≤ frame ∧ frame < zone.zoneEndPfn := by
  rw [regionFrames, mem_Ico]
  omega

theorem Sound.add (sound : system.Sound platform)
    (admitted : system.Admitted platform (.add start stop type)) :
    (system.step platform (.add start stop type)).Sound platform := by
  obtain ⟨above, -, -, usable, new⟩ := admitted
  simp only [step, newFrames, State.addMemoryRegion] at usable new ⊢
  cases found : system.state.zones type with
  | none =>
    simp only [union_empty]
    exact sound
  | some zone =>
    simp only [found] at usable new ⊢
    obtain ⟨blocks, free, zoneSound⟩ := sound.zones found
    have inside : ∀ {frame}, frame ∈ regionFrames zone start stop → platform.InZone type frame := by
      intro frame member
      rw [Platform.InZone, ← zoneSound.start, ← zoneSound.stop]
      exact (mem_regionFrames.mp member).2.2
    have fresh : Disjoint (regionFrames zone start stop) free := by
      refine disjoint_left.mpr fun frame member isFree => ?_
      exact disjoint_left.mp new member ((zoneSound.added frame (inside member)).mpr (.inl isFree))
    obtain ⟨confined, blocksAfter, after⟩ := zoneSound.arena.addMemoryRegion above fresh
    refine ⟨sound.onZone found (·.addMemoryRegion start stop) confined rfl rfl ?_
      ⟨blocksAfter, _, after, ?_, ?_, ?_, ?_⟩, ?_, ?_, sound.length, sound.inUse, sound.refs⟩
    · intro frame outside
      refine ⟨?_, Iff.rfl⟩
      rw [mem_union, or_iff_left fun member => outside (inside member)]
    · exact confined.zoneStartPfn.trans zoneSound.start
    · exact confined.zoneEndPfn.trans zoneSound.stop
    · intro frame here
      rw [mem_union, mem_union, zoneSound.added frame here]
      tauto
    · refine disjoint_union_left.mpr ⟨zoneSound.apart, ?_⟩
      exact new.mono_right sound.live_added
    · intro frame member
      rcases mem_union.mp member with old | added
      · obtain ⟨positive, good, placed⟩ := sound.placed frame old
        exact ⟨positive, good, placed_onZone found (·.addMemoryRegion start stop) placed⟩
      · refine ⟨?_, usable frame added, placed_onZone found (·.addMemoryRegion start stop)
          ⟨type, zone, found, inside added⟩⟩
        have bound := (mem_regionFrames.mp added).1
        simp only [pageSize] at bound
        omega
    · exact sound.live_added.trans subset_union_left

theorem Sound.store (sound : system.Sound platform) {address value : ℕ}
    (live : address / pageSize ∈ system.live) :
    (system.step platform (.store address value)).Sound platform := by
  refine ⟨fun {type zone} found => ?_, sound.placed, sound.live_added, sound.length, sound.inUse,
    sound.refs⟩
  obtain ⟨blocks, free, zoneSound⟩ := sound.zones found
  refine ⟨blocks, free, ?_, zoneSound.start, zoneSound.stop, zoneSound.added, zoneSound.apart⟩
  refine zoneSound.arena.memory_congr fun frame member => update_of_ne ?_ _ _
  rintro rfl
  rw [Nat.mul_div_cancel _ (by decide)] at live
  exact disjoint_left.mp zoneSound.apart member live

theorem setRange_get {bitmap : Bitmap} (bound : page + 2 ^ level ≤ bitmap.length) (value : Bool)
    (frame : ℕ) :
    (bitmap.setRange page (page + 2 ^ level) value).get frame =
      if frame ∈ span level page then value else bitmap.get frame := by
  have size := Nat.two_pow_pos level
  have proper : ¬(page + 2 ^ level ≤ page ∨ bitmap.length ≤ page) := by omega
  simp only [Bitmap.setRange, if_neg proper, Bitmap.get, mem_span]
  by_cases inside : page ≤ frame ∧ frame < page + 2 ^ level
  · rw [if_neg (by omega), if_pos inside, if_pos inside]
  · simp only [if_neg inside]

theorem setRange_length (bitmap : Bitmap) (start stop : ℕ) (value : Bool) :
    (bitmap.setRange start stop value).length = bitmap.length := by
  unfold Bitmap.setRange
  split_ifs <;> rfl

theorem getPage_eq {off : ℕ} (bound : page + off < platform.maxPfn) :
    State.getPage platform (page * pageSize + off * pageSize) = some (page + off) := by
  have inside : ¬platform.memorySize ≤ (page + off) * pageSize := by
    simp only [Platform.maxPfn, pageSize] at bound ⊢
    omega
  rw [State.getPage, ← Nat.add_mul, if_neg inside, Nat.mul_div_cancel _ (by decide)]

theorem refBlock_refcount (state : State) (change : ℤ) :
    ∀ {pages : ℕ}, page + pages ≤ platform.maxPfn → ∀ frame,
      (state.refBlock platform (page * pageSize) pages change).refcount frame =
        if page ≤ frame ∧ frame < page + pages then state.refcount frame + change
        else state.refcount frame := by
  intro pages
  induction pages with
  | zero =>
    intro _ frame
    rw [if_neg (by omega)]
    rfl
  | succ pages ih =>
    intro bound frame
    have before := ih (by omega)
    simp only [State.refBlock] at before ⊢
    rw [List.range_succ, List.foldl_append, List.foldl_cons, List.foldl_nil,
      getPage_eq (by omega), State.refPage]
    by_cases last : frame = page + pages
    · subst last
      rw [update_self, before, if_neg (by omega), if_pos (by omega)]
    · rw [update_of_ne last, before]
      by_cases inside : page ≤ frame ∧ frame < page + pages
      · rw [if_pos inside, if_pos (by omega)]
      · rw [if_neg inside, if_neg (by omega)]

theorem refBlock_span (state : State) (change : ℤ) (bound : page + 2 ^ level ≤ platform.maxPfn)
    (frame : ℕ) :
    (state.refBlock platform (page * pageSize) (2 ^ level) change).refcount frame =
      if frame ∈ span level page then state.refcount frame + change else state.refcount frame := by
  rw [refBlock_refcount state change bound]
  simp only [mem_span]

theorem blockFrames_eq (pages : countToBlockPages count = 2 ^ level) :
    blockFrames (page * pageSize) count = span level page := by
  rw [blockFrames, Nat.mul_div_cancel _ (by decide), pages, span]

/-- A block was found in a zone. -/
structure Granted (platform : Platform) (system : System) (count level : ℕ) (result : ℕ × State)
    (type : ZoneType) (zone : Zone) (free : Finset ℕ) (page : ℕ) : Prop where
  found : system.state.zones type = some zone
  sound : ∃ blocks, system.ZoneSound platform type zone blocks free
  addr : result.1 = page * pageSize
  state : result.2 = system.state.onZone type zone fun arena => (arena.buddyAllocZone count).2
  fits : Fits zone level page
  inside : span level page ⊆ free
  confined : Arena.Confined ⟨zone, system.state.memory⟩
    (Arena.buddyAllocZone ⟨zone, system.state.memory⟩ count).2
  after : ∃ blocks, (Arena.buddyAllocZone ⟨zone, system.state.memory⟩ count).2.Sound blocks
    (free \ span level page)

theorem onZone_self (found : system.state.zones type = some zone) {change : Arena → Arena}
    (same : change ⟨zone, system.state.memory⟩ = ⟨zone, system.state.memory⟩) :
    system.state.onZone type zone change = system.state := by
  simp only [State.onZone, same, ← found, update_eq_self]

/-- An allocation from one zone is refused without a change, or takes a free block. -/
theorem Sound.allocFrom (sound : system.Sound platform)
    (pages : countToBlockPages count = 2 ^ level) (type : ZoneType) :
    system.state.allocFrom type count = (0, system.state) ∨
      ∃ zone free page, system.Granted platform count level (system.state.allocFrom type count)
        type zone free page := by
  unfold State.allocFrom
  cases found : system.state.zones type with
  | none => exact .inl rfl
  | some zone =>
    simp only
    split_ifs
    · obtain ⟨blocks, free, zoneSound⟩ := sound.zones found
      rcases zoneSound.arena.alloc pages with
        none | ⟨page, addr, fits, inside, confined, blocksAfter, after⟩
      · left
        rw [none, onZone_self found (by rw [none])]
      · exact .inr ⟨zone, free, page, found, ⟨blocks, zoneSound⟩, addr, rfl, fits, inside,
          confined, blocksAfter, after⟩
    · exact .inl rfl

theorem Granted.proper (granted : system.Granted platform count level result type zone free page) :
    result.1 ≠ 0 := by
  rw [granted.addr]
  exact Nat.mul_ne_zero granted.fits.positive.ne' (by decide)

theorem Sound.allocFirst (sound : system.Sound platform)
    (pages : countToBlockPages count = 2 ^ level) (types : List ZoneType) :
    system.state.allocFirst count types = (0, system.state) ∨
      ∃ type zone free page, system.Granted platform count level
        (system.state.allocFirst count types) type zone free page := by
  induction types with
  | nil => exact .inl rfl
  | cons type rest ih =>
    rw [State.allocFirst]
    rcases sound.allocFrom pages type with none | ⟨zone, free, page, granted⟩
    · rw [none]
      exact ih
    · simp only [granted.proper, ne_eq]
      exact .inr ⟨type, zone, free, page, granted⟩

section

variable (granted : system.Granted platform count level result type zone free page)
include granted

theorem Granted.inZone (member : frame ∈ span level page) : platform.InZone type frame := by
  obtain ⟨blocks, sound⟩ := granted.sound
  exact sound.inZone (granted.inside member)

theorem Granted.le_maxPfn : page + 2 ^ level ≤ platform.maxPfn := by
  obtain ⟨blocks, sound⟩ := granted.sound
  have stop := granted.fits.le_end
  rw [sound.stop] at stop
  exact stop.trans (Platform.zoneEnd_le platform type)

theorem Granted.not_live : Disjoint (span level page) system.live := by
  obtain ⟨blocks, sound⟩ := granted.sound
  exact sound.apart.mono_left granted.inside

end

/-- A block that is handed out is marked in use and counted. -/
theorem Sound.claim (sound : system.Sound platform) (pages : countToBlockPages count = 2 ^ level)
    (granted : system.Granted platform count level result type zone free page) :
    (system.allocated count
      (result.1, result.2.claimBlock platform result.1 (countToBlockPages count))).Sound
      platform := by
  obtain ⟨blocks, zoneSound⟩ := granted.sound
  obtain ⟨blocksAfter, after⟩ := granted.after
  have apart := disjoint_left.mp granted.not_live
  have room := granted.le_maxPfn
  rw [allocated, if_neg granted.proper, granted.addr, blockFrames_eq pages, granted.state, pages]
  refine ⟨sound.onZone granted.found (fun arena => (arena.buddyAllocZone count).2)
    granted.confined rfl rfl ?_ ⟨blocksAfter, _, after, ?_, ?_, ?_, ?_⟩, ?_, ?_, ?_, ?_, ?_⟩
  · intro frame outside
    refine ⟨Iff.rfl, ?_⟩
    rw [mem_union, or_iff_left fun member => outside (granted.inZone member)]
  · exact granted.confined.zoneStartPfn.trans zoneSound.start
  · exact granted.confined.zoneEndPfn.trans zoneSound.stop
  · intro frame inside
    rw [zoneSound.added frame inside, mem_sdiff, mem_union]
    have free := @granted.inside frame
    tauto
  · refine disjoint_union_right.mpr ⟨?_, sdiff_disjoint⟩
    exact zoneSound.apart.mono_left sdiff_subset
  · intro frame member
    obtain ⟨positive, good, placed⟩ := sound.placed frame member
    exact ⟨positive, good, placed_onZone granted.found
      (fun arena => (arena.buddyAllocZone count).2) placed⟩
  · refine union_subset sound.live_added fun frame member => ?_
    exact (zoneSound.added frame (granted.inZone member)).mpr (.inl (granted.inside member))
  · simp only [State.claimBlock, State.refBlock, setRange_length]
    exact sound.length
  · intro frame
    simp only [State.claimBlock, State.refBlock, Nat.mul_div_cancel _ (show 0 < pageSize by decide)]
    have bound : page + 2 ^ level ≤ (system.state.onZone type zone
        fun arena => (arena.buddyAllocZone count).2).usingRegions.length := room.trans sound.length
    rw [setRange_get bound]
    by_cases inside : frame ∈ span level page
    · simp [inside]
    · simpa [inside, State.onZone] using sound.inUse frame
  · intro frame
    refine (refBlock_span _ 1 room frame).trans ?_
    simp only [State.onZone, sound.refs frame]
    by_cases inside : frame ∈ span level page
    · simp [apart inside]
    · simp [inside]

theorem Sound.allocIn (sound : system.Sound platform) (types : List ZoneType) (count : ℕ) :
    (system.allocated count (system.state.allocIn platform types count)).Sound platform := by
  unfold State.allocIn
  split_ifs
  · exact sound
  obtain ⟨level, pages⟩ := exists_countToBlockPages count
  rcases sound.allocFirst pages types with none | ⟨type, zone, free, page, granted⟩
  · rw [none]
    exact sound
  · simp only [granted.proper]
    exact sound.claim pages granted

/-- All frames of a block are marked and usable exactly when they are live. -/
theorem Sound.allInUse_iff (sound : system.Sound platform) :
    system.state.allInUse platform page (2 ^ level) = true ↔ span level page ⊆ system.live := by
  have one : ∀ frame, (system.state.usingRegions.get frame && platform.usable.get frame) = true ↔
      frame ∈ system.live := by
    intro frame
    rw [sound.inUse, Bool.and_eq_true, decide_eq_true_eq]
    exact ⟨And.left, fun live => ⟨live, (sound.placed frame (sound.live_added live)).2.1⟩⟩
  simp only [State.allInUse, List.all_eq_true, List.mem_range, one]
  constructor
  · intro all frame member
    rw [mem_span] at member
    have index := all (frame - page) (by omega)
    rwa [Nat.add_sub_cancel' member.1] at index
  · intro all off below
    exact all (mem_span.mpr ⟨Nat.le_add_right _ _, Nat.add_lt_add_left below _⟩)

/-- An aligned block that does not start at zero lies on one side of each limit. -/
theorem physToZoneType_span (aligned : 2 ^ level ∣ page) (positive : 0 < page)
    (member : frame ∈ span level page) :
    physToZoneType (frame * pageSize) = physToZoneType (page * pageSize) := by
  have first : ∀ number, number * pageSize < zoneDmaEnd ↔ number < 2 ^ 12 := by
    intro number
    simp only [zoneDmaEnd, pageSize]
    omega
  have second : ∀ number, number * pageSize < zoneDma32End ↔ number < 2 ^ 20 := by
    intro number
    simp only [zoneDma32End, pageSize]
    omega
  have low := span_end_le 12 aligned positive
  have high := span_end_le 20 aligned positive
  rw [mem_span] at member
  have same : frame < 2 ^ 12 ↔ page < 2 ^ 12 := by omega
  have sameHigh : frame < 2 ^ 20 ↔ page < 2 ^ 20 := by omega
  simp only [physToZoneType, first, second, same, sameHigh]

section

variable (sound : system.Sound platform)
include sound

/-- A live aligned block lies in one zone. -/
theorem Sound.fits (valid : level ≤ lastLevel)
    (aligned : 2 ^ level ∣ page) (live : span level page ⊆ system.live) :
    ∃ zone, system.state.zones (physToZoneType (page * pageSize)) = some zone ∧
      Fits zone level page ∧
      ∀ frame ∈ span level page, platform.InZone (physToZoneType (page * pageSize)) frame := by
  obtain ⟨positive, -, type, zone, found, inside⟩ :=
    sound.placed page (sound.live_added (live (start_mem_span _ _)))
  have all : ∀ frame ∈ span level page,
      platform.InZone (physToZoneType (page * pageSize)) frame := by
    intro frame member
    obtain ⟨-, -, other, -, -, there⟩ := sound.placed frame (sound.live_added (live member))
    rw [← physToZoneType_span aligned positive member, there.physToZoneType]
    exact there
  obtain ⟨blocks, free, zoneSound⟩ := sound.zones found
  rw [inside.physToZoneType] at all ⊢
  refine ⟨zone, found, ⟨valid, aligned, positive, zoneSound.start ▸ inside.1, ?_⟩, all⟩
  have last := (all (page + 2 ^ level - 1) (mem_span.mpr (by omega))).2
  rw [zoneSound.stop]
  omega

theorem Sound.canFree (live : span level page ⊆ system.live)
    (bound : page + 2 ^ level ≤ platform.maxPfn) :
    (system.state.refBlock platform (page * pageSize) (2 ^ level) (-1)).canFree platform
      (page * pageSize) (2 ^ level) = true := by
  simp only [State.canFree, List.all_eq_true, List.mem_range]
  intro off below
  have member : page + off ∈ span level page :=
    mem_span.mpr ⟨Nat.le_add_right _ _, Nat.add_lt_add_left below _⟩
  rw [getPage_eq (by omega)]
  simp only [refBlock_span _ _ bound, member, sound.refs, live member]
  decide

section

variable (pages : countToBlockPages count = 2 ^ level)
include pages

/-- A block that is not live as a whole is not given back. -/
theorem Sound.freeFrames_refused
    (refused : ¬(count ≠ 0 ∧ level ≤ lastLevel ∧ span level page ⊆ system.live)) :
    system.state.freeFrames platform (page * pageSize) count = system.state := by
  simp only [State.freeFrames, pages, countToOrder_eq pages, orderValid_add,
    Nat.mul_div_cancel _ (show 0 < pageSize by decide)]
  by_cases none : page * pageSize = 0 ∨ count = 0
  · rw [if_pos none]
  rw [if_neg none]
  by_cases valid : level ≤ lastLevel
  swap
  · rw [decide_eq_false valid]
    rfl
  have unused : ¬system.state.allInUse platform page (2 ^ level) = true := fun all =>
    refused ⟨fun zero => none (.inr zero), valid, sound.allInUse_iff.mp all⟩
  simp only [valid, decide_true, Bool.not_true, Bool.false_eq_true, if_false, unused, Bool.not_false,
    if_true]

/-- A live block goes back to the zone it came from. -/
theorem Sound.freeFrames_live (some : count ≠ 0) (fits : Fits zone level page)
    (found : system.state.zones (physToZoneType (page * pageSize)) = .some zone)
    (live : span level page ⊆ system.live) (bound : page + 2 ^ level ≤ platform.maxPfn) :
    system.state.freeFrames platform (page * pageSize) count =
      { (system.state.refBlock platform (page * pageSize) (2 ^ level) (-1)).onZone
          (physToZoneType (page * pageSize)) zone
          (·.buddyFreeZone (page * pageSize) (minOrder + level)) with
        usingRegions := system.state.usingRegions.setRange page (page + 2 ^ level) false } := by
  have proper : page * pageSize ≠ 0 := Nat.mul_ne_zero fits.positive.ne' (by decide)
  simp only [State.freeFrames, pages, countToOrder_eq pages, orderValid_add, proper, some,
    fits.level_le, Nat.mul_div_cancel _ (show 0 < pageSize by decide), sound.allInUse_iff.mpr live, found,
    sound.canFree live bound]
  rfl

end

theorem Sound.giveBack {addr : ℕ} (aligned : countToBlockPages count * pageSize ∣ addr) :
    (system.step platform (.free addr count)).Sound platform := by
  obtain ⟨level, pages⟩ := exists_countToBlockPages count
  obtain ⟨index, rfl⟩ := aligned
  obtain ⟨page, base, divides⟩ : ∃ page, countToBlockPages count * pageSize * index =
      page * pageSize ∧ 2 ^ level ∣ page :=
    ⟨2 ^ level * index, by rw [pages]; ring, Dvd.intro _ rfl⟩
  simp only [base, step, blockFrames_eq pages, countToOrder_eq pages, orderValid_add,
    decide_eq_true_eq]
  by_cases freed : count ≠ 0 ∧ level ≤ lastLevel ∧ span level page ⊆ system.live
  swap
  · rw [if_neg freed, sound.freeFrames_refused pages freed]
    exact sound
  rw [if_pos freed]
  obtain ⟨some, valid, live⟩ := freed
  obtain ⟨zone, found, fits, inside⟩ := sound.fits valid divides live
  obtain ⟨blocks, free, zoneSound⟩ := sound.zones found
  have bound : page + 2 ^ level ≤ platform.maxPfn :=
    fits.le_end.trans (zoneSound.stop ▸ platform.zoneEnd_le _)
  have taken : Disjoint (span level page) free := zoneSound.apart.symm.mono_left live
  obtain ⟨confined, blocksAfter, after⟩ := zoneSound.arena.release fits taken
  rw [sound.freeFrames_live pages some fits found live bound]
  refine ⟨sound.onZone found (·.buddyFreeZone (page * pageSize) (minOrder + level)) confined
    rfl rfl ?_ ⟨blocksAfter, _, after, ?_, ?_, ?_, ?_⟩, ?_, ?_, ?_, ?_, ?_⟩
  · intro frame outside
    refine ⟨Iff.rfl, ?_⟩
    rw [mem_sdiff, and_iff_left fun member => outside (inside frame member)]
  · exact confined.zoneStartPfn.trans zoneSound.start
  · exact confined.zoneEndPfn.trans zoneSound.stop
  · intro frame here
    rw [zoneSound.added frame here, mem_union, mem_sdiff]
    tauto
  · refine disjoint_union_left.mpr ⟨?_, disjoint_sdiff⟩
    exact zoneSound.apart.mono_right sdiff_subset
  · intro frame member
    obtain ⟨positive, good, placed⟩ := sound.placed frame member
    exact ⟨positive, good, placed_onZone found
      (·.buddyFreeZone (page * pageSize) (minOrder + level)) placed⟩
  · exact sdiff_subset.trans sound.live_added
  · simp only [setRange_length]
    exact sound.length
  · intro frame
    simp only [setRange_get (bound.trans sound.length), sound.inUse]
    by_cases here : frame ∈ span level page <;> simp [here]
  · intro frame
    refine (refBlock_span _ (-1) bound frame).trans ?_
    simp only [sound.refs frame]
    by_cases here : frame ∈ span level page
    · simp [live here]
    · simp [here]

end

theorem Sound.step (sound : system.Sound platform) {action : Action}
    (admitted : system.Admitted platform action) :
    (system.step platform action).Sound platform := by
  cases action with
  | add start stop type => exact sound.add admitted
  | alloc count => exact sound.allocIn _ count
  | allocDma32 count => exact sound.allocIn _ count
  | free addr count => exact sound.giveBack admitted
  | store address value => exact sound.store admitted

theorem sound_run (platform : Platform) (memory : ℕ → ℕ) {schedule : List Action}
    (admitted : Along (System.step platform) (Admitted platform) (initial platform memory)
      schedule) :
    (run (System.step platform) (initial platform memory) schedule).Sound platform :=
  invariant_run (System.step platform) (Sound platform)
    (fun _ _ allowed sound => sound.step allowed) admitted (sound_initial platform memory)

/-- An allocation returns zero or an aligned block of which no frame was live. -/
theorem Sound.allocIn_result (sound : system.Sound platform) (types : List ZoneType)
    (proper : (system.state.allocIn platform types count).1 ≠ 0) :
    countToBlockPages count * pageSize ∣ (system.state.allocIn platform types count).1 ∧
      blockFrames (system.state.allocIn platform types count).1 count ⊆ system.added ∧
      Disjoint (blockFrames (system.state.allocIn platform types count).1 count) system.live := by
  unfold State.allocIn at proper ⊢
  split_ifs at proper ⊢ with zero
  · exact absurd rfl proper
  obtain ⟨level, pages⟩ := exists_countToBlockPages count
  rcases sound.allocFirst pages types with none | ⟨type, zone, free, page, granted⟩
  · rw [none] at proper
    exact absurd rfl proper
  obtain ⟨blocks, zoneSound⟩ := granted.sound
  have nonzero : page * pageSize ≠ 0 := granted.addr ▸ granted.proper
  simp only [granted.addr, nonzero, if_false, blockFrames_eq pages, pages]
  refine ⟨Nat.mul_dvd_mul_right granted.fits.aligned _, fun frame member => ?_, granted.not_live⟩
  exact (zoneSound.added frame (granted.inZone member)).mpr (.inl (granted.inside member))

/-- **Free and live frames partition the added ones.** After every admitted run, each
zone has free blocks, those on its lists, which are aligned, inside the zone and disjoint,
and no two of them below order `maxOrder - 1` are buddies. The added frames of the zone
are either in a free block or live, never both, and `freePages` counts the former. Every
added frame is in a zone. An allocation then returns zero or the address of an aligned
block of added frames of which none is live. -/
theorem partition_run (platform : Platform) (memory : ℕ → ℕ) {schedule : List Action}
    (admitted : Along (System.step platform) (Admitted platform) (initial platform memory)
      schedule) :
    let final := run (System.step platform) (initial platform memory) schedule
    (∀ type zone, final.state.zones type = some zone → ∃ blocks : ℕ → List ℕ, ∃ free : Finset ℕ,
      (∀ level, Linked 0 final.state.memory (zone.freeArea level)
        ((blocks level).map (· * pageSize))) ∧
      (∀ level page, page ∈ blocks level → minOrder + level ≤ maxOrder ∧ 2 ^ level ∣ page ∧
        zone.zoneStartPfn ≤ page ∧ page + 2 ^ level ≤ zone.zoneEndPfn) ∧
      (∀ level, (blocks level).Nodup) ∧
      (∀ level page other second, page ∈ blocks level → second ∈ blocks other →
        (level, page) ≠ (other, second) → Disjoint (span level page) (span other second)) ∧
      (∀ level page, minOrder + level < maxOrder - 1 → page ∈ blocks level →
        buddy level page ∉ blocks level) ∧
      (∀ frame, frame ∈ free ↔ ∃ level page, page ∈ blocks level ∧ frame ∈ span level page) ∧
      zone.freePages = free.card ∧
      (∀ frame, zone.zoneStartPfn ≤ frame → frame < zone.zoneEndPfn →
        (frame ∈ final.added ↔ frame ∈ free ∨ frame ∈ final.live)) ∧
      Disjoint free final.live) ∧
    (∀ frame ∈ final.added, ∃ type zone, final.state.zones type = some zone ∧
      zone.zoneStartPfn ≤ frame ∧ frame < zone.zoneEndPfn) ∧
    final.live ⊆ final.added ∧
    ∀ count, ∀ addr ∈ [(final.state.allocFrames platform count).1,
        (final.state.allocFramesDma32 platform count).1],
      addr ≠ 0 → countToBlockPages count * pageSize ∣ addr ∧
        blockFrames addr count ⊆ final.added ∧ Disjoint (blockFrames addr count) final.live := by
  intro final
  have sound : final.Sound platform := sound_run platform memory admitted
  refine ⟨fun type zone found => ?_, fun frame member => ?_, sound.live_added,
    fun count addr member proper => ?_⟩
  · obtain ⟨blocks, free, zoneSound⟩ := sound.zones found
    have tiled := zoneSound.arena.listed.tiled
    refine ⟨blocks, free, zoneSound.arena.listed.linked, fun level page member => ?_, tiled.nodup,
      fun level page other second first last different => ?_,
      fun level page below => tiled.merged ?_, zoneSound.arena.frames, zoneSound.arena.pages,
      fun frame above below => zoneSound.added frame ?_, zoneSound.apart⟩
    · have fits := zoneSound.arena.listed.fits member
      have level_le := fits.level_le
      simp only [lastLevel, minOrder, maxOrder] at level_le ⊢
      exact ⟨by omega, fits.aligned, fits.start_le, fits.le_end⟩
    · refine disjoint_left.mpr fun frame here there => different ?_
      obtain ⟨rfl, rfl⟩ := tiled.apart first last here there
      rfl
    · simp only [topLevel]
      omega
    · exact ⟨zoneSound.start ▸ above, zoneSound.stop ▸ below⟩
  · obtain ⟨-, -, type, zone, found, inside⟩ := sound.placed frame member
    obtain ⟨blocks, free, zoneSound⟩ := sound.zones found
    exact ⟨type, zone, found, zoneSound.start ▸ inside.1, zoneSound.stop ▸ inside.2⟩
  · rcases List.mem_cons.mp member with rfl | second
    · exact sound.allocIn_result _ proper
    · obtain rfl := List.mem_singleton.mp second
      exact sound.allocIn_result _ proper

/-- Four pages from 1 MiB on. -/
def smallPlatform : Platform := ⟨0x104000, ⟨512, fun _ => true⟩, by decide⟩

/-- A region is added, a page is taken and given back, two pages are taken. -/
def smallSchedule : List Action :=
  [.add 0x100000 0x104000 .dma, .alloc 1, .store 0x100000 7, .free 0x100000 1, .allocDma32 2]

/-- What is live are frames of the region. -/
theorem partition_run_small : Along (System.step smallPlatform) (Admitted smallPlatform)
        (initial smallPlatform fun _ => 0) smallSchedule ∧
      (run (System.step smallPlatform) (initial smallPlatform fun _ => 0) smallSchedule).live ⊆
        (run (System.step smallPlatform) (initial smallPlatform fun _ => 0) smallSchedule).added := by
  have admitted : Along (System.step smallPlatform) (Admitted smallPlatform)
      (initial smallPlatform fun _ => 0) smallSchedule := by
    refine ⟨⟨by decide, by decide, by decide, by decide +kernel, by decide +kernel⟩, trivial, ?_, ?_,
      trivial, trivial⟩
    all_goals
      unfold Admitted
      decide +kernel
  exact ⟨admitted, (partition_run smallPlatform (fun _ => 0) admitted).2.2.1⟩

end System

end OpenXJ380.Buddy
