/-
# Bytes of a block device

`blk_device_read` and `blk_device_write` of `src/driver/device.cpp` serve byte ranges over a
driver that moves whole sectors. A range is cut into a part of its first sector, whole sectors
that the driver moves straight from or to the caller's memory where that is contiguous, whole
sectors through a bounce buffer, and a part of its last sector.

Both functions cut the range in the same way and differ in how a piece is moved. So the cut is
one definition over the moves of a piece, and one rule: what each move keeps up to the bytes
done is kept for the whole range.

The driver sees physical memory. A layout gives each page of the caller's buffer a frame of
its own, and says whether the kernel finds it.
-/

import OpenXJ380.Block.Invariant
import OpenXJ380.Data.Checks

namespace OpenXJ380.Device.Blk

open Function

def pageSize : Nat := 4096
def blkBounceMaxBytes : Nat := 0x400000
def blkDirectMinBytes : Nat := 0x10000

/-- `(size_t)-1`, the status of a failed call. -/
def sizeMax : Nat := 2 ^ 64 - 1

def blkWindowBytes (maxSize sectorSize : Nat) : Nat :=
  let window :=
    if maxSize ≠ 0 ∧ maxSize ≠ 2 ^ 64 - 1 then min blkBounceMaxBytes maxSize else blkBounceMaxBytes
  if window < sectorSize then sectorSize else window

section Pieces

variable {σ : Type}

/-- How a piece is moved: a part of one sector, sectors in place, and sectors through the bounce
buffer. The arguments are the bytes done, the sector, and the place and size of the piece. -/
structure Moves (σ : Type) where
  part : σ → (done sector place bytes : Nat) → Bool × σ
  direct : σ → (done sector count : Nat) → Bool × σ
  bounced : σ → (done sector count : Nat) → Bool × σ

structure Progress (σ : Type) where
  state : σ
  done : Nat
  sector : Nat

variable (moves : Moves σ) (span : Nat → Nat → Nat) (sectorSize window offset length : Nat)

def headMove (s : σ) : Except σ (Progress σ) :=
  let inBlock := offset % sectorSize
  if inBlock ≠ 0 then
    let head := min (sectorSize - inBlock) length
    match moves.part s 0 (offset / sectorSize) inBlock head with
    | (false, s') => .error s'
    | (true, s') => .ok ⟨s', head, offset / sectorSize + 1⟩
  else .ok ⟨s, 0, offset / sectorSize⟩

/-- The loop of direct moves; a round moves at least one sector, so there are fewer rounds than
bytes. -/
def directLoop : (fuel : Nat) → Progress σ → Except σ (Progress σ)
  | 0, p => .ok p
  | fuel + 1, p =>
    let remaining := length - p.done
    if remaining ≥ sectorSize then
      let limit := min remaining window
      let found := span p.done limit
      let bytes := found - found % sectorSize
      if bytes < sectorSize then .ok p
      else if bytes < blkDirectMinBytes ∧ bytes ≠ limit then .ok p
      else
        match moves.direct p.state p.done p.sector (bytes / sectorSize) with
        | (false, s) => .error s
        | (true, s) => directLoop fuel ⟨s, p.done + bytes, p.sector + bytes / sectorSize⟩
    else .ok p

def midLoop (bn : Nat) : (fuel secs : Nat) → Progress σ → Except σ (Progress σ)
  | 0, _, p => .ok p
  | fuel + 1, secs, p =>
    if secs > 0 then
      let n := min secs bn
      match moves.bounced p.state p.done p.sector n with
      | (false, s) => .error s
      | (true, s) => midLoop bn fuel (secs - n) ⟨s, p.done + n * sectorSize, p.sector + n⟩
    else .ok p

def midMove (p : Progress σ) : Except σ (Progress σ) :=
  let secs := (length - p.done) / sectorSize
  midLoop moves sectorSize (min secs (max (window / sectorSize) 1)) secs secs p

def tailMove (p : Progress σ) : Except σ (Progress σ) :=
  if length - p.done > 0 then
    match moves.part p.state p.done p.sector 0 (length - p.done) with
    | (false, s) => .error s
    | (true, s) => .ok ⟨s, p.done + (length - p.done), p.sector⟩
  else .ok p

/-- The status and the state when the range is through or a move has failed. -/
def transfer (s : σ) : Nat × σ :=
  let result := do
    let p ← headMove moves sectorSize offset length s
    let p ← directLoop moves span sectorSize window length length p
    let p ← midMove moves sectorSize window length p
    tailMove moves length p
  match result with
  | .error s' => (sizeMax, s')
  | .ok p => (p.done, p.state)

/-- What a move that succeeds does to a property of the bytes done. -/
structure Moves.Advance (P : Nat → σ → Prop) : Prop where
  part : ∀ {s s' done sector place bytes}, P done s → sector * sectorSize + place = offset + done →
    place + bytes ≤ sectorSize → done + bytes ≤ length →
    moves.part s done sector place bytes = (true, s') → P (done + bytes) s'
  direct : ∀ {s s' done sector count limit}, P done s → sector * sectorSize = offset + done →
    done + count * sectorSize ≤ length → count * sectorSize ≤ span done limit →
    moves.direct s done sector count = (true, s') → P (done + count * sectorSize) s'
  bounced : ∀ {s s' done sector count}, P done s → sector * sectorSize = offset + done →
    done + count * sectorSize ≤ length →
    moves.bounced s done sector count = (true, s') → P (done + count * sectorSize) s'

variable {moves span sectorSize window offset length} {P : Nat → σ → Prop}

/-- Between two pieces: the next sector starts behind the bytes done, unless all are done. -/
structure At (sectorSize offset length : Nat) (P : Nat → σ → Prop) (p : Progress σ) : Prop where
  le : p.done ≤ length
  aligned : p.done = length ∨ p.sector * sectorSize = offset + p.done
  holds : P p.done p.state

variable {p q : Progress σ}

section

variable (h : moves.Advance span sectorSize offset length P)
include h

theorem headMove_at (hsize : 0 < sectorSize)
    {s : σ} (hP : P 0 s) (hp : headMove moves sectorSize offset length s = .ok p) :
    At sectorSize offset length P p := by
  have hmod := Nat.mod_lt offset hsize
  have hsplit := Nat.div_add_mod' offset sectorSize
  rw [headMove] at hp
  dsimp only at hp
  split at hp
  · split at hp
    · cases hp
    rename_i s' hpart
    cases hp
    have hnext := h.part hP (by omega) (by omega) (by omega) hpart
    rw [Nat.zero_add] at hnext
    refine ⟨Nat.min_le_right .., ?_, hnext⟩
    dsimp only
    rw [Nat.succ_mul]
    omega
  · cases hp
    exact ⟨Nat.zero_le _, Or.inr (by dsimp only; omega), hP⟩

theorem directLoop_at (hsize : 0 < sectorSize)
    (hspan : ∀ done limit, span done limit ≤ limit) (fuel : Nat)
    (hp : At sectorSize offset length P p)
    (hq : directLoop moves span sectorSize window length fuel p = .ok q) :
    At sectorSize offset length P q := by
  induction fuel generalizing p with
  | zero =>
    cases hq
    exact hp
  | succ fuel ih =>
    rw [directLoop] at hq
    dsimp only at hq
    split at hq
    case isFalse =>
      cases hq
      exact hp
    have hfound := hspan p.done (min (length - p.done) window)
    generalize hfind : span p.done (min (length - p.done) window) = found at hq hfound
    split at hq
    · cases hq
      exact hp
    split at hq
    · cases hq
      exact hp
    split at hq
    · cases hq
    rename_i s hdirect
    have hbytes : found - found % sectorSize = found / sectorSize * sectorSize := by
      have hsplit := Nat.div_add_mod' found sectorSize
      omega
    rw [hbytes, Nat.mul_div_cancel _ hsize] at hq hdirect
    have hle := Nat.div_mul_le_self found sectorSize
    have haligned := hp.aligned.resolve_left (by omega)
    have hle' : p.done + found / sectorSize * sectorSize ≤ length := by omega
    have hholds := h.direct hp.holds haligned hle' (by rw [hfind]; exact hle) hdirect
    refine ih ⟨hle', Or.inr ?_, hholds⟩ hq
    dsimp only
    rw [Nat.add_mul]
    omega

end

/-- The rounds of the direct loop are enough: another one changes nothing. -/
theorem directLoop_enough (hsize : 0 < sectorSize) (fuel : Nat) (hfuel : length - p.done ≤ fuel) :
    directLoop moves span sectorSize window length (fuel + 1) p =
      directLoop moves span sectorSize window length fuel p := by
  induction fuel generalizing p with
  | zero => rw [directLoop, directLoop, if_neg (by omega)]
  | succ fuel ih =>
    rw [directLoop, directLoop]
    dsimp only
    split
    · split
      · rfl
      split
      · rfl
      split
      · rfl
      · exact ih (by dsimp only; omega)
    · rfl

variable (h : moves.Advance span sectorSize offset length P)
include h

theorem midLoop_at {bn : Nat} (hbn : 0 < bn)
    (fuel : Nat) {secs : Nat} (hp : At sectorSize offset length P p) (hfuel : secs ≤ fuel)
    (hsecs : p.done + secs * sectorSize ≤ length) (hsize : 0 < sectorSize)
    (hq : midLoop moves sectorSize bn fuel secs p = .ok q) :
    At sectorSize offset length P q ∧ q.done = p.done + secs * sectorSize := by
  induction fuel generalizing p secs with
  | zero =>
    cases hq
    obtain rfl := Nat.le_zero.mp hfuel
    exact ⟨hp, by omega⟩
  | succ fuel ih =>
    rw [midLoop] at hq
    dsimp only at hq
    split at hq
    · rename_i hpos
      split at hq
      · cases hq
      rename_i s hbounced
      generalize hn : min secs bn = n at hq hbounced
      have hsum : n * sectorSize + (secs - n) * sectorSize = secs * sectorSize := by
        rw [← Nat.add_mul, Nat.add_sub_cancel' (by omega)]
      have hfirst : 0 < secs * sectorSize := Nat.mul_pos hpos hsize
      have haligned := hp.aligned.resolve_left (by omega)
      have hle : p.done + n * sectorSize ≤ length := by omega
      obtain ⟨hat, hdone⟩ := ih ⟨hle, Or.inr (by dsimp only; rw [Nat.add_mul]; omega),
        h.bounced hp.holds haligned hle hbounced⟩ (by omega) (by dsimp only; omega) hq
      exact ⟨hat, by dsimp only at hdone; omega⟩
    · cases hq
      obtain rfl : secs = 0 := by omega
      exact ⟨hp, by omega⟩

theorem midMove_at (hsize : 0 < sectorSize)
    (hp : At sectorSize offset length P p) (hq : midMove moves sectorSize window length p = .ok q) :
    At sectorSize offset length P q ∧ length - q.done < sectorSize := by
  have hle := hp.le
  have hsplit := Nat.div_add_mod' (length - p.done) sectorSize
  have hmod := Nat.mod_lt (length - p.done) hsize
  rw [midMove] at hq
  rcases Nat.eq_zero_or_pos ((length - p.done) / sectorSize) with hzero | hpos
  · rw [hzero] at hq hsplit
    cases hq
    exact ⟨hp, by omega⟩
  · obtain ⟨hat, hdone⟩ := midLoop_at h (by omega) _ hp le_rfl (by omega) hsize hq
    exact ⟨hat, by omega⟩

theorem tailMove_at (hp : At sectorSize offset length P p) (hrest : length - p.done < sectorSize)
    (hq : tailMove moves length p = .ok q) : P length q.state := by
  have hle := hp.le
  rw [tailMove] at hq
  split at hq
  · split at hq
    · cases hq
    rename_i hmore s hpart
    cases hq
    have hall : p.done + (length - p.done) = length := by omega
    have haligned := hp.aligned.resolve_left (by omega)
    have hlast := h.part hp.holds (by omega) (by omega) (by omega) hpart
    rwa [hall] at hlast
  · injection hq with hq
    have hall : p.done = length := by omega
    exact hq ▸ hall ▸ hp.holds

/-- A range that is reported moved has the property of all its bytes. -/
theorem transfer_advances
    (hsize : 0 < sectorSize) (hspan : ∀ done limit, span done limit ≤ limit) {s : σ} (hP : P 0 s)
    (hstatus : (transfer moves span sectorSize window offset length s).1 ≠ sizeMax) :
    P length (transfer moves span sectorSize window offset length s).2 := by
  rw [transfer] at hstatus ⊢
  split at hstatus
  · exact absurd rfl hstatus
  rename_i last hlast
  obtain ⟨head, hhead, hlast⟩ := Data.bind_eq_ok.mp hlast
  obtain ⟨direct, hdirect, hlast⟩ := Data.bind_eq_ok.mp hlast
  obtain ⟨mid, hmid, hlast⟩ := Data.bind_eq_ok.mp hlast
  have hat := directLoop_at h hsize hspan length (headMove_at h hsize hP hhead) hdirect
  obtain ⟨hmidAt, hrest⟩ := midMove_at h hsize hat hmid
  exact tailMove_at h hmidAt hrest hlast

end Pieces

/-- Where the pages of the caller's buffer are, each in a frame of its own, and which of them
`page_virt_to_phys` finds. -/
structure Layout where
  frame : Nat → Nat
  present : Nat → Bool
  injective : Injective frame

namespace Layout

variable (layout : Layout)

/-- The physical address of a byte. -/
def address (virt : Nat) : Nat := layout.frame (virt / pageSize) * pageSize + virt % pageSize

def pageVirtToPhys (virt : Nat) : Nat :=
  if layout.present (virt / pageSize) then layout.address virt else 0

theorem address_injective : Injective layout.address := by
  intro v w h
  simp only [address, pageSize] at h
  have hpage := layout.injective (show layout.frame (v / 4096) = layout.frame (w / 4096) by omega)
  omega

/-- The loop of `blk_direct_span_bytes`; a round adds at least one byte. -/
def spanLoop (buffer base maxBytes : Nat) : (fuel total : Nat) → Nat
  | 0, total => total
  | fuel + 1, total =>
    if total < maxBytes then
      let phys := layout.pageVirtToPhys (buffer + total)
      if phys = 0 ∨ phys ≠ base + total then total
      else spanLoop buffer base maxBytes fuel
        (total + min (pageSize - (buffer + total) % pageSize) (maxBytes - total))
    else total

def blkDirectSpanBytes (buffer maxBytes : Nat) : Nat :=
  if buffer = 0 ∨ maxBytes = 0 then 0
  else
    let base := layout.pageVirtToPhys buffer
    if base = 0 ∨ base % pageSize ≠ 0 then 0
    else layout.spanLoop buffer base maxBytes maxBytes 0

/-- The first bytes of the buffer lie one behind the other from `base` on. -/
def Contiguous (buffer base total : Nat) : Prop :=
  ∀ i < total, layout.address (buffer + i) = base + i

theorem spanLoop_spec (buffer base maxBytes fuel total : Nat) (hle : total ≤ maxBytes)
    (h : layout.Contiguous buffer base total) :
    layout.spanLoop buffer base maxBytes fuel total ≤ maxBytes ∧
      layout.Contiguous buffer base (layout.spanLoop buffer base maxBytes fuel total) := by
  induction fuel generalizing total with
  | zero => exact ⟨hle, h⟩
  | succ fuel ih =>
    rw [spanLoop]
    split
    · dsimp only
      split
      · exact ⟨hle, h⟩
      rename_i hphys
      simp only [pageVirtToPhys] at hphys
      split at hphys
      · refine ih _ (by omega) fun i hi => ?_
        by_cases hold : i < total
        · exact h i hold
        -- The byte is on the page of the one that was looked up.
        have hbase : layout.address (buffer + total) = base + total := by omega
        have hpage : (buffer + i) / pageSize = (buffer + total) / pageSize := by
          simp only [pageSize] at hi ⊢
          omega
        simp only [address] at hbase ⊢
        rw [hpage]
        simp only [pageSize] at hi hpage hbase ⊢
        omega
      · exact absurd (Or.inl rfl) hphys
    · exact ⟨hle, h⟩

theorem blkDirectSpanBytes_spec (buffer maxBytes : Nat) :
    layout.blkDirectSpanBytes buffer maxBytes ≤ maxBytes ∧
      layout.Contiguous buffer (layout.pageVirtToPhys buffer)
        (layout.blkDirectSpanBytes buffer maxBytes) := by
  have hnone : ∀ base, layout.Contiguous buffer base 0 := fun _ i hi => absurd hi (by omega)
  rw [blkDirectSpanBytes]
  split
  · exact ⟨Nat.zero_le _, hnone _⟩
  dsimp only
  split
  · exact ⟨Nat.zero_le _, hnone _⟩
  · exact layout.spanLoop_spec buffer _ maxBytes maxBytes 0 (Nat.zero_le _) (hnone _)

/-- `memcpy` of `count` bytes to the virtual address `dest`. -/
def memcpy (memory : Nat → UInt8) (dest : Nat) (data : Nat → UInt8) : (count : Nat) → Nat → UInt8
  | 0 => memory
  | count + 1 => update (memcpy memory dest data count) (layout.address (dest + count)) (data count)

theorem memcpy_address (memory : Nat → UInt8) (dest : Nat) (data : Nat → UInt8) (count virt : Nat) :
    layout.memcpy memory dest data count (layout.address virt) =
      if dest ≤ virt ∧ virt < dest + count then data (virt - dest)
      else memory (layout.address virt) := by
  induction count with
  | zero => rw [memcpy, if_neg (by omega)]
  | succ count ih =>
    rw [memcpy]
    by_cases hlast : virt = dest + count
    · rw [hlast, update_self, if_pos (by omega), Nat.add_sub_cancel_left]
    · rw [update_of_ne fun heq => hlast (layout.address_injective heq), ih]
      by_cases hin : dest ≤ virt ∧ virt < dest + count
      · rw [if_pos hin, if_pos (by omega)]
      · rw [if_neg hin, if_neg (by omega)]

end Layout

/-- The device, physical memory, and the number of requests the driver was given. -/
structure Bus where
  disk : Nat → UInt8
  memory : Nat → UInt8
  calls : Nat

section

variable (answers : Nat → Nat) (sectorSize : Nat) (s : Bus)

/-- The driver takes sectors to the device; `answers` are the sectors it reports, those first
ones it has moved. -/
def writeSectors (data : Nat → UInt8) (count sector : Nat) : Bool × Bus :=
  let moved := min (answers s.calls) count
  (answers s.calls = count,
    { s with
      disk := fun q =>
        if sector * sectorSize ≤ q ∧ q < sector * sectorSize + moved * sectorSize then
          data (q - sector * sectorSize)
        else s.disk q
      calls := s.calls + 1 })

/-- The driver puts sectors at a physical address. -/
def readSectors (base count sector : Nat) : Bool × Bus :=
  let moved := min (answers s.calls) count
  (answers s.calls = count,
    { s with
      memory := fun p =>
        if base ≤ p ∧ p < base + moved * sectorSize then s.disk (sector * sectorSize + (p - base))
        else s.memory p
      calls := s.calls + 1 })

/-- The driver fills the bounce buffer, which is in frames of its own. -/
def fillBounce (count sector : Nat) : Bool × (Nat → UInt8) × Bus :=
  (answers s.calls = count, fun i => s.disk (sector * sectorSize + i),
    { s with calls := s.calls + 1 })

end

section

variable (layout : Layout)

def readMoves (answers : Nat → Nat) (sectorSize buffer : Nat) : Moves Bus where
  part s done sector place bytes :=
    match fillBounce answers sectorSize s 1 sector with
    | (false, _, s') => (false, s')
    | (true, bounce, s') =>
      (true, { s' with
        memory := layout.memcpy s'.memory (buffer + done) (fun i => bounce (place + i)) bytes })
  direct s done sector count :=
    readSectors answers sectorSize s (layout.pageVirtToPhys (buffer + done)) count sector
  bounced s done sector count :=
    match fillBounce answers sectorSize s count sector with
    | (false, _, s') => (false, s')
    | (true, bounce, s') =>
      (true, { s' with
        memory := layout.memcpy s'.memory (buffer + done) bounce (count * sectorSize) })

/-- `canRead` says that the device has a read function, which the parts of sectors need. -/
def writeMoves (answers : Nat → Nat) (sectorSize buffer : Nat) (canRead : Bool) : Moves Bus where
  part s done sector place bytes :=
    if !canRead then (false, s)
    else
      match fillBounce answers sectorSize s 1 sector with
      | (false, _, s') => (false, s')
      | (true, bounce, s') =>
        writeSectors answers sectorSize s' (fun i =>
          if place ≤ i ∧ i < place + bytes then
            s'.memory (layout.address (buffer + done + (i - place)))
          else bounce i) 1 sector
  direct s done sector count := writeSectors answers sectorSize s
      (fun i => s.memory (layout.pageVirtToPhys (buffer + done) + i)) count sector
  bounced s done sector count := writeSectors answers sectorSize s
      (fun i => s.memory (layout.address (buffer + done + i))) count sector

variable (start : Bus) (buffer offset done : Nat)

/-- The bytes read so far are in the buffer, and the device is as it was. -/
def ReadTo (s : Bus) : Prop := s.disk = start.disk ∧
    ∀ k < done, s.memory (layout.address (buffer + k)) = start.disk (offset + k)

/-- The device has the buffer's bytes in the range written so far and its own elsewhere. -/
def WrittenTo (s : Bus) : Prop := s.memory = start.memory ∧ ∀ q, s.disk q =
      if offset ≤ q ∧ q < offset + done then
        start.memory (layout.address (buffer + (q - offset)))
      else start.disk q

end

variable {layout : Layout} {answers : Nat → Nat} {sectorSize buffer offset length : Nat}
  {start : Bus} {s : Bus} {c : Call} {device : BlkDevice}
  {done count : Nat} {data : Nat → UInt8} {extent : Block.BlockExtent}

/-- A copy of the next bytes to the buffer. -/
theorem ReadTo.memcpy {calls : Nat} (h : ReadTo layout start buffer offset done s)
    (hdata : ∀ i < count, data i = start.disk (offset + done + i)) :
    ReadTo layout start buffer offset (done + count)
      ⟨s.disk, layout.memcpy s.memory (buffer + done) data count, calls⟩ := by
  refine ⟨h.1, fun k hk => ?_⟩
  dsimp only
  rw [layout.memcpy_address]
  by_cases hold : k < done
  · rw [if_neg (by omega)]
    exact h.2 k hold
  · rw [if_pos (by omega), hdata _ (by omega)]
    exact congrArg start.disk (by omega)

theorem readMoves_advance : (readMoves layout answers sectorSize buffer).Advance
      (fun done => layout.blkDirectSpanBytes (buffer + done)) sectorSize offset length
      (ReadTo layout start buffer offset) where
  part := by
    intro s s' done sector place bytes h haligned hplace hlength hmove
    simp only [readMoves] at hmove
    split at hmove
    · cases hmove
    rename_i bounce filled hfill
    simp only [fillBounce, Prod.mk.injEq] at hfill
    obtain ⟨-, rfl, rfl⟩ := hfill
    cases hmove
    refine h.memcpy fun i hi => ?_
    rw [h.1]
    exact congrArg start.disk (by omega)
  direct := by
    intro s s' done sector count limit h haligned hlength hspan hmove
    obtain ⟨-, hcontiguous⟩ := layout.blkDirectSpanBytes_spec (buffer + done) limit
    simp only [readMoves, readSectors, Prod.mk.injEq, decide_eq_true_eq] at hmove
    obtain ⟨hanswer, rfl⟩ := hmove
    refine ⟨h.1, fun k hk => ?_⟩
    dsimp only
    rw [hanswer, Nat.min_self]
    by_cases hold : k < done
    · -- A byte read before is not in the frames of the new ones.
      rw [if_neg]
      · exact h.2 k hold
      rintro ⟨hfrom, hto⟩
      generalize hj : layout.address (buffer + k) - layout.pageVirtToPhys (buffer + done) = j
      have hsame := hcontiguous j (by omega)
      have hvirt := layout.address_injective
        (show layout.address (buffer + done + j) = layout.address (buffer + k) by omega)
      omega
    · have hplace := hcontiguous (k - done) (by omega)
      rw [show buffer + done + (k - done) = buffer + k by omega] at hplace
      rw [if_pos (by omega), h.1]
      exact congrArg start.disk (by omega)
  bounced := by
    intro s s' done sector count h haligned hlength hmove
    simp only [readMoves] at hmove
    split at hmove
    · cases hmove
    rename_i bounce filled hfill
    simp only [fillBounce, Prod.mk.injEq] at hfill
    obtain ⟨-, rfl, rfl⟩ := hfill
    cases hmove
    refine h.memcpy fun i hi => ?_
    rw [h.1]
    exact congrArg start.disk (by omega)

/-- A write of sectors that has the buffer's next bytes and, outside of them, the device's. -/
theorem WrittenTo.writeSectors {s' : Bus} {sector bytes : Nat}
    (h : WrittenTo layout start buffer offset done s)
    (hinside : sector * sectorSize ≤ offset + done ∧
      offset + done + bytes ≤ sector * sectorSize + count * sectorSize)
    (hdata : ∀ i < count * sectorSize, data i =
      if offset + done ≤ sector * sectorSize + i ∧ sector * sectorSize + i < offset + done + bytes
      then start.memory (layout.address (buffer + (sector * sectorSize + i - offset)))
      else s.disk (sector * sectorSize + i))
    (hmove : Blk.writeSectors answers sectorSize s data count sector = (true, s')) :
    WrittenTo layout start buffer offset (done + bytes) s' := by
  simp only [Blk.writeSectors, Prod.mk.injEq, decide_eq_true_eq] at hmove
  obtain ⟨hanswer, rfl⟩ := hmove
  refine ⟨h.1, fun q => ?_⟩
  dsimp only
  rw [hanswer, Nat.min_self]
  by_cases hmoved : sector * sectorSize ≤ q ∧ q < sector * sectorSize + count * sectorSize
  · rw [if_pos hmoved, hdata _ (by omega), Nat.add_sub_cancel' hmoved.1]
    by_cases hnew : offset + done ≤ q ∧ q < offset + done + bytes
    · rw [if_pos hnew, if_pos (by omega)]
    · rw [if_neg hnew, h.2 q]
      by_cases hold : offset ≤ q ∧ q < offset + done
      · rw [if_pos hold, if_pos (by omega)]
      · rw [if_neg hold, if_neg (by omega)]
  · rw [if_neg hmoved, h.2 q]
    by_cases hold : offset ≤ q ∧ q < offset + done
    · rw [if_pos hold, if_pos (by omega)]
    · rw [if_neg hold, if_neg (by omega)]

theorem writeMoves_advance {canRead : Bool} :
    (writeMoves layout answers sectorSize buffer canRead).Advance
      (fun done => layout.blkDirectSpanBytes (buffer + done)) sectorSize offset length
      (WrittenTo layout start buffer offset) where
  part := by
    intro s s' done sector place bytes h haligned hplace hlength hmove
    simp only [writeMoves] at hmove
    split at hmove
    · cases hmove
    split at hmove
    · cases hmove
    rename_i bounce filled hfill
    simp only [fillBounce, Prod.mk.injEq] at hfill
    obtain ⟨-, rfl, rfl⟩ := hfill
    have hread : WrittenTo layout start buffer offset done { s with calls := s.calls + 1 } := h
    refine hread.writeSectors ⟨by omega, by omega⟩ (fun i hi => ?_) hmove
    rw [h.1]
    by_cases hin : place ≤ i ∧ i < place + bytes
    · rw [if_pos hin, if_pos (by omega)]
      exact congrArg (fun v => start.memory (layout.address v)) (by omega)
    · rw [if_neg hin, if_neg (by omega)]
  direct := by
    intro s s' done sector count limit h haligned hlength hspan hmove
    obtain ⟨-, hcontiguous⟩ := layout.blkDirectSpanBytes_spec (buffer + done) limit
    simp only [writeMoves] at hmove
    refine h.writeSectors ⟨by omega, by omega⟩ (fun i hi => ?_) hmove
    rw [if_pos (by omega), h.1, ← hcontiguous i (by omega)]
    exact congrArg (fun v => start.memory (layout.address v)) (by omega)
  bounced := by
    intro s s' done sector count h haligned hlength hmove
    simp only [writeMoves] at hmove
    refine h.writeSectors ⟨by omega, by omega⟩ (fun i hi => ?_) hmove
    rw [if_pos (by omega), h.1]
    exact congrArg (fun v => start.memory (layout.address v)) (by omega)

structure BlkDevice where
  vdiskid : UInt32
  stream : Bool
  sectorSize : Nat
  maxSize : Nat
  canRead : Bool
  canWrite : Bool

/-- A call and what it finds: the access registry, the task, whether the drive exists, the
bounce buffer is had and the buffer is mapped, the driver's answers, and what a stream device
does. -/
structure Call where
  registry : Block.Registry
  task : Option Block.Task
  haveVdisk : Bool
  acquired : Bool
  bufferValid : Bool
  answers : Nat → Nat
  streamed : Nat × Bus
  layout : Layout
  buffer : Nat
  offset : UInt64
  length : UInt64

/-- The access registry admits the range; a stream device is not asked about. -/
def Call.ready (c : Call) (device : BlkDevice) : Bool :=
  if device.stream then true
  else
    match c.registry.resolve device.vdiskid 0 with
    | none => false
    | some extent =>
      match c.registry.ioBegin c.task device.vdiskid extent.generation c.offset c.length with
      | .ok _ => true
      | .error _ => false

def Call.transfer (c : Call) (device : BlkDevice) (moves : Moves Bus) (s : Bus) : Nat × Bus :=
  Blk.transfer moves (fun done => c.layout.blkDirectSpanBytes (c.buffer + done)) device.sectorSize
    (blkWindowBytes device.maxSize device.sectorSize) c.offset.toNat c.length.toNat s

def blkDeviceRead (c : Call) (device : BlkDevice) (s : Bus) : Nat × Bus :=
  if !c.haveVdisk ∨ c.length = 0 then (0, s)
  else if !c.ready device then (sizeMax, s)
  else if device.stream then c.streamed
  else if device.sectorSize = 0 ∨ !device.canRead then (sizeMax, s)
  else if !c.acquired then (sizeMax, s)
  else c.transfer device (readMoves c.layout c.answers device.sectorSize c.buffer) s

def blkDeviceWrite (c : Call) (device : BlkDevice) (s : Bus) : Nat × Bus :=
  if c.length = 0 then (0, s)
  else if !c.ready device then (sizeMax, s)
  else if !c.bufferValid then (sizeMax, s)
  else if device.stream then c.streamed
  else if device.sectorSize = 0 ∨ !device.canWrite then (sizeMax, s)
  else if !c.acquired then (sizeMax, s)
  else c.transfer device (writeMoves c.layout c.answers device.sectorSize c.buffer device.canRead) s

/-- The call reports that all bytes were moved. -/
def Call.Succeeds (c : Call) (status : Nat) : Prop := status = c.length.toNat ∧ status ≠ sizeMax

theorem Call.ready_inside (hblock : device.stream = false)
    (hresolve : c.registry.resolve device.vdiskid 0 = some extent) (h : c.ready device = true) :
    c.offset.toNat + c.length.toNat ≤ extent.bytes.toNat := by
  rw [ready, if_neg (by simp [hblock]), hresolve] at h
  dsimp only at h
  split at h
  case h_2 => cases h
  rename_i granted hbegin
  obtain ⟨base, hbase, hroom, -⟩ := Block.Registry.ioBegin_ok hbegin
  rw [(Block.Registry.resolve_some hresolve).2.1.symm, (Block.Registry.resolve_some hbase).2.1]
  exact hroom

/-- A call that succeeds has moved all bytes; a failed check has the other status. -/
theorem Call.transfer_exact {moves : Moves Bus} {P : Nat → Bus → Prop}
    (hsize : 0 < device.sectorSize)
    (h : moves.Advance (fun done => c.layout.blkDirectSpanBytes (c.buffer + done))
      device.sectorSize c.offset.toNat c.length.toNat P) (hP : P 0 s)
    (hstatus : c.Succeeds (c.transfer device moves s).1) :
    P c.length.toNat (c.transfer device moves s).2 :=
  transfer_advances h hsize
    (fun done limit => (c.layout.blkDirectSpanBytes_spec (c.buffer + done) limit).1) hP hstatus.2

theorem Call.not_succeeds (c : Call) : ¬ c.Succeeds sizeMax := fun h => h.2 rfl

section

variable (hblock : device.stream = false)
include hblock

theorem blkDeviceRead_exact (hstatus : c.Succeeds (blkDeviceRead c device s).1) :
    ReadTo c.layout s c.buffer c.offset.toNat c.length.toNat (blkDeviceRead c device s).2 := by
  have hnothing : ReadTo c.layout s c.buffer c.offset.toNat 0 s :=
    ⟨rfl, fun k hk => absurd hk (by omega)⟩
  rw [blkDeviceRead] at hstatus ⊢
  split_ifs at hstatus ⊢
  case pos => exact hstatus.1 ▸ hnothing
  case neg => exact c.transfer_exact (by omega) readMoves_advance hnothing hstatus
  all_goals first | exact absurd hstatus c.not_succeeds | simp_all

theorem blkDeviceWrite_exact (hstatus : c.Succeeds (blkDeviceWrite c device s).1) :
    WrittenTo c.layout s c.buffer c.offset.toNat c.length.toNat (blkDeviceWrite c device s).2 := by
  have hnothing : WrittenTo c.layout s c.buffer c.offset.toNat 0 s :=
    ⟨rfl, fun q => by rw [if_neg (by omega)]⟩
  rw [blkDeviceWrite] at hstatus ⊢
  split_ifs at hstatus ⊢
  case pos => exact hstatus.1 ▸ hnothing
  case neg => exact c.transfer_exact (by omega) writeMoves_advance hnothing hstatus
  all_goals first | exact absurd hstatus c.not_succeeds | simp_all

/-- A range with a byte behind the end of the device is not admitted. -/
theorem blk_outside
    (hresolve : c.registry.resolve device.vdiskid 0 = some extent) {p : Nat}
    (hfrom : c.offset.toNat ≤ p) (hto : p < c.offset.toNat + c.length.toNat)
    (hout : extent.bytes.toNat ≤ p) (s : Bus) :
    ((blkDeviceRead c device s).2 = s ∧ ¬ c.Succeeds (blkDeviceRead c device s).1) ∧
      (blkDeviceWrite c device s).2 = s ∧ ¬ c.Succeeds (blkDeviceWrite c device s).1 := by
  have hready : c.ready device = false := by
    by_contra hready
    have hinside := Call.ready_inside hblock hresolve (by simpa using hready)
    omega
  have hlength : c.length ≠ 0 := by
    intro hzero
    rw [hzero, UInt64.toNat_zero] at hto
    omega
  constructor
  · rw [blkDeviceRead]
    split
    · refine ⟨rfl, fun h => hlength (UInt64.toNat_inj.mp ?_)⟩
      rw [← h.1, UInt64.toNat_zero]
    · rw [if_pos (by simp [hready])]
      exact ⟨rfl, c.not_succeeds⟩
  · rw [blkDeviceWrite, if_neg hlength, if_pos (by simp [hready])]
    exact ⟨rfl, c.not_succeeds⟩

end

/-- A read that reports success has brought the device's bytes of the range, a write has put the
buffer's bytes there and changed no other, and a range that is not on the device moves nothing. -/
theorem blk_bytes_exact (c : Call) (device : BlkDevice) (s : Bus) (hblock : device.stream = false) :
    (c.Succeeds (blkDeviceRead c device s).1 →
      ReadTo c.layout s c.buffer c.offset.toNat c.length.toNat (blkDeviceRead c device s).2) ∧
    (c.Succeeds (blkDeviceWrite c device s).1 →
      WrittenTo c.layout s c.buffer c.offset.toNat c.length.toNat (blkDeviceWrite c device s).2) ∧
    ∀ extent p, c.registry.resolve device.vdiskid 0 = some extent → c.offset.toNat ≤ p →
      p < c.offset.toNat + c.length.toNat → extent.bytes.toNat ≤ p →
      ((blkDeviceRead c device s).2 = s ∧ ¬ c.Succeeds (blkDeviceRead c device s).1) ∧
        (blkDeviceWrite c device s).2 = s ∧ ¬ c.Succeeds (blkDeviceWrite c device s).1 :=
  ⟨blkDeviceRead_exact hblock, blkDeviceWrite_exact hblock,
    fun _ _ hresolve hfrom hto hout => blk_outside hblock hresolve hfrom hto hout s⟩

/-- A published disk of 4096 bytes as device 0. -/
def oneDisk : Block.Registry :=
  { Block.Registry.initial with
    devices := fun _ => ⟨⟨0, 0, 1, 1, 0, 4096⟩, true, true, false⟩ }

/-- The bytes from 508 to 1035, which are parts of two sectors and all of the one between them, over
a driver that moves every sector, one at a time. -/
def acrossSectors : Call where
  registry := oneDisk
  task := none
  haveVdisk := true
  acquired := true
  bufferValid := true
  answers := fun _ => 1
  streamed := (0, ⟨fun _ => 0, fun _ => 0, 0⟩)
  layout := ⟨id, fun _ => true, Function.injective_id⟩
  buffer := 0x1000
  offset := 508
  length := 528

def smallDisk : BlkDevice := ⟨0, false, 512, 0, true, true⟩

/-- The device's bytes are their own numbers, the buffer's are 7. -/
def numbered : Bus := ⟨fun q => UInt8.ofNat q, fun _ => 7, 0⟩

theorem blk_bytes_exact_across :
    acrossSectors.Succeeds (blkDeviceRead acrossSectors smallDisk numbered).1 ∧
    (blkDeviceRead acrossSectors smallDisk numbered).2.memory 0x1003 = 255 ∧
    (blkDeviceRead acrossSectors smallDisk numbered).2.memory 0x1104 = 0 ∧
    acrossSectors.Succeeds (blkDeviceWrite acrossSectors smallDisk numbered).1 ∧
    (blkDeviceWrite acrossSectors smallDisk numbered).2.disk 507 = 251 ∧
    (blkDeviceWrite acrossSectors smallDisk numbered).2.disk 508 = 7 ∧
    (blkDeviceWrite acrossSectors smallDisk numbered).2.disk 1000 = 7 := by
  have hread : acrossSectors.Succeeds (blkDeviceRead acrossSectors smallDisk numbered).1 :=
    ⟨by decide +kernel, by decide +kernel⟩
  have hwrite : acrossSectors.Succeeds (blkDeviceWrite acrossSectors smallDisk numbered).1 :=
    ⟨by decide +kernel, by decide +kernel⟩
  obtain ⟨hreads, hwrites, -⟩ := blk_bytes_exact acrossSectors smallDisk numbered rfl
  exact ⟨hread, (hreads hread).2 3 (by decide), (hreads hread).2 260 (by decide), hwrite,
    (hwrites hwrite).2 507, (hwrites hwrite).2 508, (hwrites hwrite).2 1000⟩

end OpenXJ380.Device.Blk
