/-
# The buddy allocator of physical frames

The allocator keeps a free list for each power of two from `2 ^ 12` to `2 ^ 31` bytes in
each of up to three zones. The lists are threaded through the free blocks: the first
word of a free block holds the address of the next one, and zero ends a list. The word
at an address is `memory address`. A physical address has at most 52 bits, the ones
`PTE_ADDR_MASK` keeps, so no sum below reaches `2 ^ 64` and addresses are natural numbers.

A loop over the orders runs for as many turns as there are orders, the walk along a free
list for as many as the zone has frames, and the loop over a region for as many as it has
pages.
-/

import Mathlib

namespace OpenXJ380.Buddy

open Function

def pageSize : ℕ := 4096
def minOrder : ℕ := 12
def maxOrder : ℕ := 31

section

variable (order : ℕ)

def orderValid : Bool := minOrder ≤ order && order ≤ maxOrder

def log2Floor (x : ℕ) : ℕ := Nat.log2 x

/-- `1ULL << shift`: the processor takes the shift modulo 64. -/
def shiftedOne (shift : ℕ) : ℕ := 2 ^ (shift % 64)

def nextPowerOfTwo (x : ℕ) : ℕ :=
  if x ≤ 1 then 1
  else if x &&& (x - 1) = 0 then x
  else shiftedOne (log2Floor x + 1)

def orderToBlockSize : ℕ := 2 ^ order

def orderToPages : ℕ := 2 ^ (order - minOrder)

def countToBlockPages (count : ℕ) : ℕ := nextPowerOfTwo count

def countToOrder (count : ℕ) : ℕ := log2Floor (countToBlockPages count) + minOrder

def orderToIndex : ℕ := order - minOrder

end

/-- `zone_t` with the heads of the free lists. Its name and its lock are left out: every
operation on the lists runs with the lock held. -/
structure Zone where
  freeArea : ℕ → ℕ
  zoneStartPfn : ℕ
  zoneEndPfn : ℕ
  managedPages : ℕ
  freePages : ℕ

/-- A zone with the words its free lists are threaded through. -/
structure Arena where
  zone : Zone
  memory : ℕ → ℕ

namespace Arena

def zoneContainsBlock (zone : Zone) (base order : ℕ) : Bool :=
  let zoneStart := zone.zoneStartPfn * pageSize
  let zoneEnd := zone.zoneEndPfn * pageSize
  if !orderValid order then false
  else if base < zoneStart then false
  else if zoneEnd < base then false
  else if zoneEnd - base < orderToBlockSize order then false
  else true

section

variable (arena : Arena)

/-- Change the head of a free list. -/
def setHead (order head : ℕ) : Arena :=
  { arena with
    zone := { arena.zone with
      freeArea := update arena.zone.freeArea (orderToIndex order) head } }

/-- `block_list_set_next`. -/
def setNext (base next : ℕ) : Arena :=
  { arena with memory := update arena.memory base next }

def pushBlock (order base : ℕ) : Arena :=
  (arena.setNext base (arena.zone.freeArea (orderToIndex order))).setHead order base

def popBlock (order : ℕ) : ℕ × Arena :=
  let head := arena.zone.freeArea (orderToIndex order)
  if head = 0 then (0, arena)
  else (head, (arena.setHead order (arena.memory head)).setNext head 0)

/-- The loop of `remove_block`: the node before the block, zero if it is the first, and
the one after it. -/
def findBlock (memory : ℕ → ℕ) (base : ℕ) : ℕ → ℕ → ℕ → Option (ℕ × ℕ)
  | 0, _, _ => none
  | fuel + 1, prev, curr =>
    if curr = 0 then none
    else if curr = base then some (prev, memory curr)
    else findBlock memory base fuel curr (memory curr)

def removeBlock (order base : ℕ) : Option Arena :=
  let head := arena.zone.freeArea (orderToIndex order)
  match findBlock arena.memory base arena.zone.zoneEndPfn 0 head with
  | none => none
  | some (prev, next) =>
    if prev = 0 then some ((arena.setHead order next).setNext base 0)
    else some ((arena.setNext prev next).setNext base 0)

end

/-- The first loop of `buddy_alloc_zone`: the first order with a free block. -/
def popUp (arena : Arena) : ℕ → ℕ → ℕ × ℕ × Arena
  | 0, current => (0, current, arena)
  | fuel + 1, current =>
    if current < maxOrder then
      let (addr, after) := arena.popBlock current
      if addr ≠ 0 then (addr, current, after) else popUp after fuel (current + 1)
    else (0, current, arena)

/-- The second loop: the upper halves go back, from the order below the found one down to
the wanted one. -/
def splitDown (addr order : ℕ) : ℕ → Arena → Arena
  | 0, arena => arena
  | more + 1, arena =>
    splitDown addr order more
      (arena.pushBlock (order + more) (addr + orderToBlockSize (order + more)))

def buddyAllocZone (arena : Arena) (count : ℕ) : ℕ × Arena :=
  if count = 0 then (0, arena)
  else
    let order := countToOrder count
    if !orderValid order then (0, arena)
    else
      let (addr, current, found) := arena.popUp (maxOrder - order) order
      if addr = 0 then (0, found)
      else
        let split := splitDown addr order (current - order) found
        (addr, { split with
          zone := { split.zone with freePages := split.zone.freePages - orderToPages order } })

/-- The loop of `buddy_free_zone`: merge with the buddy while that is free. -/
def merge : ℕ → Arena → ℕ → ℕ → Arena × ℕ × ℕ
  | 0, arena, base, order => (arena, base, order)
  | fuel + 1, arena, base, order =>
    if order + 1 < maxOrder then
      let buddy := base ^^^ orderToBlockSize order
      if !zoneContainsBlock arena.zone buddy order then (arena, base, order)
      else
        match arena.removeBlock order buddy with
        | none => (arena, base, order)
        | some removed => merge fuel removed (min base buddy) (order + 1)
    else (arena, base, order)

def buddyFreeZone (arena : Arena) (base order : ℕ) : Arena :=
  if base = 0 ∨ !orderValid order then arena
  else if base &&& (orderToBlockSize order - 1) ≠ 0 then arena
  else if !zoneContainsBlock arena.zone base order then arena
  else
    let (merged, start, level) := merge (maxOrder - order) arena base order
    let pushed := merged.pushBlock level start
    { pushed with
      zone := { pushed.zone with freePages := pushed.zone.freePages + orderToPages order } }

/-- The inner loop of `add_memory_region`, from the order `minOrder + more` down. -/
def regionOrder (start stop : ℕ) : ℕ → ℕ
  | 0 => minOrder
  | more + 1 =>
    let blockSize := orderToBlockSize (minOrder + (more + 1))
    if start &&& (blockSize - 1) = 0 ∧ start + blockSize ≤ stop then minOrder + (more + 1)
    else regionOrder start stop more

/-- Count pages the zone has been given. -/
def manage (arena : Arena) (pages : ℕ) : Arena :=
  { arena with
    zone := { arena.zone with managedPages := arena.zone.managedPages + pages } }

/-- Its outer loop. -/
def addBlocks : ℕ → Arena → ℕ → ℕ → Arena
  | 0, arena, _, _ => arena
  | fuel + 1, arena, start, stop =>
    if start < stop then
      let order := regionOrder start stop (maxOrder - 1 - minOrder)
      addBlocks fuel ((arena.buddyFreeZone start order).manage (orderToPages order))
        (start + orderToBlockSize order) stop
    else arena

def paddingDown (size unit : ℕ) : ℕ := size / unit * unit

def paddingUp (size unit : ℕ) : ℕ := paddingDown (size + unit - 1) unit

def addMemoryRegion (arena : Arena) (start stop : ℕ) : Arena :=
  let start := paddingUp start pageSize
  let stop := paddingDown stop pageSize
  if stop ≤ start then arena
  else
    let start := max start (arena.zone.zoneStartPfn * pageSize)
    let stop := min stop (arena.zone.zoneEndPfn * pageSize)
    if stop ≤ start then arena
    else addBlocks ((stop - start) / pageSize) arena start stop

end Arena

inductive ZoneType
  | dma
  | dma32
  | normal
  deriving DecidableEq, Repr

def zoneDmaEnd : ℕ := 16 <<< 20
def zoneDma32End : ℕ := 4 <<< 30

def physToZoneType (phys : ℕ) : ZoneType :=
  if phys < zoneDmaEnd then .dma
  else if phys < zoneDma32End then .dma32
  else .normal

/-- A bitmap answers false beyond its length. -/
structure Bitmap where
  length : ℕ
  bit : ℕ → Bool

namespace Bitmap

variable (bitmap : Bitmap)

def get (index : ℕ) : Bool :=
  if bitmap.length ≤ index then false else bitmap.bit index

def setRange (start stop : ℕ) (value : Bool) : Bitmap :=
  if stop ≤ start ∨ bitmap.length ≤ start then bitmap
  else { bitmap with
    bit := fun index => if start ≤ index ∧ index < stop then value else bitmap.bit index }

end Bitmap

/-- What the boot code found out: the end of the usable memory and the frames that are
usable, which is `frame_allocator.bitmap`. -/
structure Platform where
  memorySize : ℕ
  usable : Bitmap
  bounded : memorySize ≤ 2 ^ 52

/-- The state of the allocator, with the reference counts of the frames. -/
structure State where
  zones : ZoneType → Option Zone
  memory : ℕ → ℕ
  usingRegions : Bitmap
  refcount : ℕ → ℤ

def initZone (startPfn endPfn : ℕ) : Zone where
  freeArea := fun _ => 0
  zoneStartPfn := startPfn
  zoneEndPfn := endPfn
  managedPages := 0
  freePages := 0

/-- `buddy_init`, over memory with any contents. -/
def buddyInit (platform : Platform) (memory : ℕ → ℕ) : State :=
  let maxPfn := platform.memorySize / pageSize
  let dmaEndPfn := min maxPfn (zoneDmaEnd / pageSize)
  let dma32EndPfn := min maxPfn (zoneDma32End / pageSize)
  { zones := fun
      | .dma => some (initZone 0 dmaEndPfn)
      | .dma32 => if dmaEndPfn < dma32EndPfn then some (initZone dmaEndPfn dma32EndPfn) else none
      | .normal => if dma32EndPfn < maxPfn then some (initZone dma32EndPfn maxPfn) else none
    memory := memory
    usingRegions := ⟨(maxPfn + 7) / 8 * 8, fun _ => false⟩
    refcount := fun _ => 0 }

namespace State

/-- Run an operation on a zone. -/
def onZone (state : State) (type : ZoneType) (zone : Zone) (change : Arena → Arena) : State :=
  let after := change ⟨zone, state.memory⟩
  { state with
    zones := update state.zones type (some after.zone)
    memory := after.memory }

def addMemoryRegion (state : State) (start stop : ℕ) (type : ZoneType) : State :=
  match state.zones type with
  | none => state
  | some zone => state.onZone type zone (·.addMemoryRegion start stop)

/-- Take a block from a zone that has memory. -/
def allocFrom (state : State) (type : ZoneType) (count : ℕ) : ℕ × State :=
  match state.zones type with
  | none => (0, state)
  | some zone =>
    if 0 < zone.managedPages then
      ((Arena.buddyAllocZone ⟨zone, state.memory⟩ count).1,
        state.onZone type zone fun arena => (arena.buddyAllocZone count).2)
    else (0, state)

/-- The zones are tried in turn. -/
def allocFirst (state : State) (count : ℕ) : List ZoneType → ℕ × State
  | [] => (0, state)
  | type :: rest =>
    let (addr, after) := state.allocFrom type count
    if addr ≠ 0 then (addr, after) else after.allocFirst count rest

variable (platform : Platform)

/-- `get_page`: an address beyond the memory has no page. -/
def getPage (addr : ℕ) : Option ℕ :=
  if platform.memorySize ≤ addr then none else some (addr / pageSize)

/-- `page_ref` and `page_unref`. -/
def refPage (change : ℤ) (refcount : ℕ → ℤ) : Option ℕ → ℕ → ℤ
  | none => refcount
  | some frame => update refcount frame (refcount frame + change)

variable (state : State)

/-- The loop that changes the reference counts of the pages of a block. -/
def refBlock (addr pages : ℕ) (change : ℤ) : State :=
  { state with
    refcount := (List.range pages).foldl
      (fun refcount off => refPage change refcount (getPage platform (addr + off * pageSize)))
      state.refcount }

/-- What both allocation functions do with the block they found. -/
def claimBlock (addr pages : ℕ) : State :=
  let marked := { state with
    usingRegions := state.usingRegions.setRange (addr / pageSize) (addr / pageSize + pages) true }
  marked.refBlock platform addr pages 1

def allocIn (types : List ZoneType) (count : ℕ) : ℕ × State :=
  if count = 0 then (0, state)
  else
    let (addr, after) := state.allocFirst count types
    if addr = 0 then (0, after)
    else (addr, after.claimBlock platform addr (countToBlockPages count))

def allocFrames (count : ℕ) : ℕ × State := state.allocIn platform [.normal, .dma32, .dma] count

def allocFramesDma32 (count : ℕ) : ℕ × State := state.allocIn platform [.dma32, .dma] count

/-- All frames of a block are in use and usable. -/
def allInUse (index pages : ℕ) : Bool := (List.range pages).all fun off =>
    state.usingRegions.get (index + off) && platform.usable.get (index + off)

/-- No frame of a block has a reference left. -/
def canFree (addr pages : ℕ) : Bool := (List.range pages).all fun off =>
    match getPage platform (addr + off * pageSize) with
    | none => true
    | some frame => state.refcount frame ≤ 0

def freeFrames (addr count : ℕ) : State :=
  if addr = 0 ∨ count = 0 then state
  else
    let pages := countToBlockPages count
    let order := countToOrder count
    let index := addr / pageSize
    if !orderValid order then state
    else if !state.allInUse platform index pages then state
    else
      let type := physToZoneType addr
      match state.zones type with
      | none => state
      | some zone =>
        let released := state.refBlock platform addr pages (-1)
        if !released.canFree platform addr pages then released
        else
          let freed := released.onZone type zone (·.buddyFreeZone addr order)
          { freed with
            usingRegions := freed.usingRegions.setRange index (index + pages) false }

end State

end OpenXJ380.Buddy
