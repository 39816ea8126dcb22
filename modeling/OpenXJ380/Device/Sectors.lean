/-
# Sector transfers in chunks

`device_read` and `device_write` of `src/driver/device.cpp` cut a request into chunks of
`SECTORS_ONCE` sectors and add up what the driver reports for each. Every chunk goes through
`rw_device`, which borrows frames for it and copies all of them, whatever the driver moved.

`device_write` stops at the first short chunk, so its result counts a prefix of the request.
`device_read` goes on: what it returns is a prefix exactly if no chunk behind a short one moves a
sector.

What the driver and the frame allocator answer comes in with each chunk; the sectors that
were moved are recorded in order, with their places in the buffer.
-/

import Mathlib

namespace OpenXJ380.Device

variable {β : Type}

def sectorsOnce : Nat := 8

def maxSize : Nat := 2 ^ 64 - 1

/-- What a chunk meets: whether frames are granted, how many sectors the driver moves, and what
was in the frames before. -/
structure Answer (β : Type) where
  frames : Bool
  moved : Nat
  stale : Nat → β

/-- The device, the caller's buffer in sectors, the sectors moved so far and, for each chunk, how
many sectors were asked for and how many were reported. -/
structure Medium (β : Type) where
  disk : Nat → β
  buffer : Nat → β
  moved : List (Nat × Nat)
  chunks : List (Nat × Nat)

/-- The entries of `device_ctl` that the transfers read. -/
structure DeviceInfo where
  present : Bool
  stream : Bool
  sectorSize : Nat

/-- The sectors of a transfer, each with its place in the buffer. -/
def pairs (lba place count : Nat) : List (Nat × Nat) :=
  (List.range count).map fun j => (lba + j, place + j)

namespace Medium

section

variable (m : Medium β)

/-- The driver moves the first sectors of a request into a buffer, which is then copied. -/
def fetch (stale : Nat → β) (lba place number count : Nat) : Medium β :=
  { m with
    buffer := fun j =>
      if place ≤ j ∧ j < place + number then
        if j < place + count then m.disk (lba + (j - place)) else stale (j - place)
      else m.buffer j
    moved := m.moved ++ pairs lba place count }

/-- The driver moves the first sectors of a request to the device. -/
def store (lba place count : Nat) : Medium β :=
  { m with
    disk := fun s =>
      if lba ≤ s ∧ s < lba + count then m.buffer (place + (s - lba)) else m.disk s
    moved := m.moved ++ pairs lba place count }

/-- `rw_device`; nothing is moved where the sizes overflow or no frames are granted. -/
def rwDevice (sectorSize : Nat) (answer : Answer β) (lba place number : Nat)
    (read : Bool) : Nat × Medium β :=
  if sectorSize = 0 ∨ (number ≠ 0 ∧ sectorSize > maxSize / number) then (0, m)
  else if number * sectorSize > maxSize - 4095 then (0, m)
  else if answer.frames = false then (0, m)
  else if read then
    (min answer.moved number, m.fetch answer.stale lba place number (min answer.moved number))
  else (min answer.moved number, m.store lba place (min answer.moved number))

end

/-- The loop of `device_read`, from a chunk on. -/
def readLoop (sectorSize : Nat) (answers : Nat → Answer β) (lba number : Nat) :
    (fuel chunk : Nat) → Medium β → Nat × Medium β
  | 0, _, m => (0, m)
  | fuel + 1, chunk, m =>
    let i := chunk * sectorsOnce
    if i < number then
      let sectors := if number - i ≥ sectorsOnce then sectorsOnce else number - i
      let (got, next) := m.rwDevice sectorSize (answers chunk) (lba + i) i sectors true
      let (rest, last) := readLoop sectorSize answers lba number fuel (chunk + 1)
        { next with chunks := next.chunks ++ [(sectors, got)] }
      (got + rest, last)
    else (0, m)

/-- The loop of `device_write`; it ends at a short chunk. -/
def writeLoop (sectorSize : Nat) (answers : Nat → Answer β) (lba number : Nat) :
    (fuel chunk : Nat) → Medium β → Nat × Medium β
  | 0, _, m => (0, m)
  | fuel + 1, chunk, m =>
    let i := chunk * sectorsOnce
    if i < number then
      let sectors := if number - i ≥ sectorsOnce then sectorsOnce else number - i
      let (got, next) := m.rwDevice sectorSize (answers chunk) (lba + i) i sectors false
      let logged := { next with chunks := next.chunks ++ [(sectors, got)] }
      if got ≠ sectors then (got, logged)
      else
        let (rest, last) := writeLoop sectorSize answers lba number fuel (chunk + 1) logged
        (got + rest, last)
    else (0, m)

/-- The sizes that both functions refuse. -/
def refuses (info : DeviceInfo) (lba number : Nat) : Bool :=
  decide (info.sectorSize = 0) || decide (lba > maxSize / info.sectorSize) ||
    (decide (number ≠ 0) && decide (info.sectorSize > maxSize / number))

/-- The conditions under which a request is cut into chunks. -/
def admits (info : DeviceInfo) (resolved ready : Bool) (lba number : Nat) : Bool :=
  info.present && resolved && !refuses info lba number && ready

variable (m : Medium β) (info : DeviceInfo) (resolved ready : Bool) (answers : Nat → Answer β)
  (lba number : Nat)

/-- `device_read`; `resolved` and `ready` are the answers of the access registry. -/
def deviceRead : Nat × Medium β :=
  if info.present = false then (0, m)
  else if info.stream then
    (min (answers 0).moved number,
      m.fetch m.buffer lba 0 (min (answers 0).moved number) (min (answers 0).moved number))
  else if resolved = false then (0, m)
  else if refuses info lba number then (0, m)
  else if ready = false then (0, m)
  else m.readLoop info.sectorSize answers lba number number 0

def deviceWrite : Nat × Medium β :=
  if info.present = false then (0, m)
  else if resolved = false then (0, m)
  else if refuses info lba number then (0, m)
  else if ready = false then (0, m)
  else m.writeLoop info.sectorSize answers lba number number 0

end Medium

theorem pairs_append (lba place first second : Nat) :
    pairs lba place first ++ pairs (lba + first) (place + first) second =
      pairs lba place (first + second) := by
  rw [pairs, pairs, pairs, List.range_add, List.map_append, List.map_map]
  congr 1
  apply List.map_congr_left
  intro j _
  simp [Nat.add_assoc]

/-- The sectors from `lba` on hold what the buffer has from `place` on. -/
structure Stored (m m' : Medium β) (lba place count : Nat) : Prop where
  disk : m'.disk = fun s =>
    if lba ≤ s ∧ s < lba + count then m.buffer (place + (s - lba)) else m.disk s
  buffer : m'.buffer = m.buffer
  moved : m'.moved = m.moved ++ pairs lba place count

/-- The buffer from `place` on holds the sectors from `lba` on, and what is before is kept. -/
structure Fetched (m m' : Medium β) (lba place count : Nat) : Prop where
  disk : m'.disk = m.disk
  filled : ∀ j, place ≤ j → j < place + count → m'.buffer j = m.disk (lba + (j - place))
  kept : ∀ j < place, m'.buffer j = m.buffer j
  moved : m'.moved = m.moved ++ pairs lba place count

section Chunk

variable {m m' : Medium β} {sectorSize lba place number count : Nat} {answer : Answer β}

theorem Stored.none (m : Medium β) (lba place : Nat) : Stored m m lba place 0 := by
  refine ⟨?_, rfl, by simp [pairs]⟩
  funext s
  rw [if_neg (by omega)]

theorem Fetched.none (m : Medium β) (lba place : Nat) : Fetched m m lba place 0 :=
  ⟨rfl, fun j hlow hhigh => by omega, fun j _ => rfl, by simp [pairs]⟩

variable {m₁ m₂ m₃ : Medium β} {first second : Nat} {read : Bool}

theorem Stored.trans (h : Stored m₁ m₂ lba place first)
    (h' : Stored m₂ m₃ (lba + first) (place + first) second) :
    Stored m₁ m₃ lba place (first + second) := by
  refine ⟨?_, h'.buffer.trans h.buffer, ?_⟩
  · rw [h'.disk, h.disk, h.buffer]
    funext s
    by_cases hsecond : lba + first ≤ s ∧ s < lba + first + second
    · rw [if_pos hsecond, if_pos (by omega)]
      congr 1
      omega
    · rw [if_neg hsecond]
      dsimp only
      by_cases hfirst : lba ≤ s ∧ s < lba + first
      · rw [if_pos hfirst, if_pos (by omega)]
      · rw [if_neg hfirst, if_neg (by omega)]
  · rw [h'.moved, h.moved, List.append_assoc, pairs_append]

theorem Fetched.trans (h : Fetched m₁ m₂ lba place first)
    (h' : Fetched m₂ m₃ (lba + first) (place + first) second) :
    Fetched m₁ m₃ lba place (first + second) := by
  refine ⟨h'.disk.trans h.disk, fun j hlow hhigh => ?_, fun j hlow => ?_, ?_⟩
  · by_cases hfirst : j < place + first
    · rw [h'.kept j hfirst, h.filled j hlow hfirst]
    · rw [h'.filled j (by omega) (by omega), h.disk]
      congr 1
      omega
  · rw [h'.kept j (by omega), h.kept j hlow]
  · rw [h'.moved, h.moved, List.append_assoc, pairs_append]

/-- What a transfer of `count` sectors does, in its direction. -/
def Moved (read : Bool) (m m' : Medium β) (lba place count : Nat) : Prop :=
  match read with
  | true => Fetched m m' lba place count
  | false => Stored m m' lba place count

theorem Moved.none (read : Bool) (m : Medium β) (lba place : Nat) : Moved read m m lba place 0 := by
  cases read with
  | true => exact Fetched.none m lba place
  | false => exact Stored.none m lba place

theorem Moved.trans (h : Moved read m₁ m₂ lba place first)
    (h' : Moved read m₂ m₃ (lba + first) (place + first) second) :
    Moved read m₁ m₃ lba place (first + second) := by
  cases read with
  | true => exact Fetched.trans h h'
  | false => exact Stored.trans h h'

theorem Moved.pairs (h : Moved read m m' lba place count) :
    m'.moved = m.moved ++ Device.pairs lba place count := by
  cases read with
  | true => exact Fetched.moved h
  | false => exact Stored.moved h

theorem Moved.logged (h : Moved read m m' lba place count) (chunks : List (Nat × Nat)) :
    Moved read m { m' with chunks := chunks } lba place count := by
  cases read with
  | true => exact ⟨h.disk, h.filled, h.kept, h.moved⟩
  | false => exact ⟨h.disk, h.buffer, h.moved⟩

theorem rwDevice_moved (h : m.rwDevice sectorSize answer lba place number read = (count, m')) :
    Moved read m m' lba place count ∧ m'.chunks = m.chunks ∧ count ≤ number := by
  rw [Medium.rwDevice] at h
  split_ifs at h with _ _ _ hread <;> cases h
  · exact ⟨.none read m lba place, rfl, Nat.zero_le _⟩
  · exact ⟨.none read m lba place, rfl, Nat.zero_le _⟩
  · exact ⟨.none read m lba place, rfl, Nat.zero_le _⟩
  · subst hread
    refine ⟨⟨rfl, fun j hlow hhigh => ?_, fun j hlow => ?_, rfl⟩, rfl, Nat.min_le_right _ _⟩
    · simp only [Medium.fetch]
      rw [if_pos (by omega), if_pos hhigh]
    · simp only [Medium.fetch]
      rw [if_neg (by omega)]
  · obtain rfl := Bool.not_eq_true _ ▸ hread
    exact ⟨⟨rfl, rfl, rfl⟩, rfl, Nat.min_le_right _ _⟩

theorem Moved.zero {lba' place' : Nat} (h : Moved read m m' lba place 0) (hplace : place' ≤ place) :
    Moved read m m' lba' place' 0 := by
  cases read with
  | true => exact ⟨h.disk, fun j hlow hhigh => by omega, fun j hj => h.kept j (by omega), by
      simpa [Device.pairs] using h.moved⟩
  | false =>
    refine ⟨?_, h.buffer, by simpa [Device.pairs] using h.moved⟩
    rw [h.disk]
    funext s
    rw [if_neg (by omega), if_neg (by omega)]

/-- The sectors that a chunk moves by the answer it meets. -/
def Answer.moves (answer : Answer β) (sectorSize sectors : Nat) : Nat :=
  if answer.frames && decide (sectors * sectorSize ≤ maxSize - 4095) then min answer.moved sectors else 0

theorem rwDevice_fst (hsize : sectorSize ≠ 0) :
    (m.rwDevice sectorSize answer lba place number read).1 = answer.moves sectorSize number := by
  have hover : sectorSize = 0 ∨ number ≠ 0 ∧ sectorSize > maxSize / number →
      ¬ number * sectorSize ≤ maxSize - 4095 := by
    rintro (hzero | ⟨hnumber, hlarge⟩) hle
    · exact hsize hzero
    · have := (Nat.div_lt_iff_lt_mul (Nat.pos_of_ne_zero hnumber)).mp hlarge
      rw [Nat.mul_comm] at this
      omega
  rw [Medium.rwDevice, Answer.moves]
  by_cases hfits : number * sectorSize ≤ maxSize - 4095
  · rw [if_neg fun h => hover h hfits, if_neg (by omega)]
    cases answer.frames <;> cases read <;> simp [hfits]
  · simp only [hfits, decide_false, Bool.and_false, Bool.false_eq_true, if_false]
    split_ifs <;> first | rfl | omega

end Chunk

theorem chunk_sectors {number i : Nat} :
    (if number - i ≥ sectorsOnce then sectorsOnce else number - i) = min sectorsOnce (number - i) := by
  split <;> omega

/-- Every chunk but the last was complete. -/
def CompleteButLast (chunks : List (Nat × Nat)) : Prop := ∀ chunk ∈ chunks.dropLast, chunk.2 = chunk.1

theorem completeButLast_single (chunk : Nat × Nat) : CompleteButLast [chunk] := by
  simp [CompleteButLast]

theorem completeButLast_cons {chunk second : Nat × Nat} {tail : List (Nat × Nat)} :
    CompleteButLast (chunk :: second :: tail) ↔
      chunk.2 = chunk.1 ∧ CompleteButLast (second :: tail) := by
  simp [CompleteButLast]

/-- No chunk behind a short one moves a sector. -/
def Quiet : List (Nat × Nat) → Prop
  | [] => True
  | chunk :: rest => if chunk.2 = chunk.1 then Quiet rest else ∀ later ∈ rest, later.2 = 0

theorem CompleteButLast.quiet {chunks : List (Nat × Nat)} (h : CompleteButLast chunks) : Quiet chunks := by
  induction chunks with
  | nil => trivial
  | cons chunk rest ih =>
    cases rest with
    | nil => simp [Quiet]
    | cons second tail =>
      obtain ⟨hchunk, hrest⟩ := completeButLast_cons.mp h
      rw [Quiet, if_pos hchunk]
      exact ih hrest

theorem quiet_of_zero {chunks : List (Nat × Nat)} (h : ∀ chunk ∈ chunks, chunk.2 = 0) : Quiet chunks := by
  induction chunks with
  | nil => trivial
  | cons chunk rest ih =>
    obtain ⟨-, hrest⟩ := List.forall_mem_cons.mp h
    rw [Quiet]
    split
    · exact ih hrest
    · exact hrest

/-- What each chunk of a request is asked for, and what it moves by the answer it meets. -/
def chunkAnswers (sectorSize : Nat) (answers : Nat → Answer β) (number : Nat) : List (Nat × Nat) :=
  (List.range ((number + 7) / sectorsOnce)).map fun chunk =>
    let sectors := min sectorsOnce (number - chunk * sectorsOnce)
    (sectors, (answers chunk).moves sectorSize sectors)

/-- Some chunks of a request one after the other, with what each was asked for and moved. -/
inductive Run (read : Bool) (sectorSize : Nat) (answers : Nat → Answer β) (lba number : Nat) :
    Nat → Medium β → Nat × Medium β → List (Nat × Nat) → Prop
  | done (chunk : Nat) (m : Medium β) : Run read sectorSize answers lba number chunk m (0, m) []
  | more {chunk sectors got rest : Nat} {m next last : Medium β} {tail : List (Nat × Nat)}
      (hmore : chunk * sectorsOnce < number)
      (hsectors : min sectorsOnce (number - chunk * sectorsOnce) = sectors)
      (hgot : m.rwDevice sectorSize (answers chunk) (lba + chunk * sectorsOnce)
        (chunk * sectorsOnce) sectors read = (got, next))
      (hrest : Run read sectorSize answers lba number (chunk + 1)
        { next with chunks := next.chunks ++ [(sectors, got)] } (rest, last) tail) :
      Run read sectorSize answers lba number chunk m (got + rest, last) ((sectors, got) :: tail)

section Loops

variable {read : Bool} {sectorSize lba number fuel chunk : Nat} {answers : Nat → Answer β}
  {m : Medium β} {result : Nat × Medium β} {tail : List (Nat × Nat)}

section

variable (h : Run read sectorSize answers lba number chunk m result tail)
include h

theorem Run.chunks :
    result.2.chunks = m.chunks ++ tail := by
  induction h with
  | done => simp
  | more hmore hsectors hgot hrest ih =>
    rw [ih]
    simp [(rwDevice_moved hgot).2.1]

theorem Run.count : result.1 = (tail.map Prod.snd).sum := by
  induction h with
  | done => rfl
  | more hmore hsectors hgot hrest ih =>
    rw [List.map_cons, List.sum_cons, ← ih]

/-- What the chunks have moved lies behind the place where they begin. -/
theorem Run.log : ∃ log, result.2.moved = m.moved ++ log ∧ log.length = result.1 ∧
    ∀ entry ∈ log, chunk * sectorsOnce ≤ entry.2 := by
  induction h with
  | done => exact ⟨[], by simp, rfl, by simp⟩
  | @more chunk sectors got rest m next last tail hmore hsectors hgot hrest ih =>
    obtain ⟨log, hlog, hlength, hplace⟩ := ih
    refine ⟨_, by rw [hlog, (rwDevice_moved hgot).1.pairs, List.append_assoc], by simp [pairs, hlength], ?_⟩
    intro entry hentry
    rcases List.mem_append.mp hentry with hentry | hentry
    · simp only [pairs, List.mem_map] at hentry
      obtain ⟨j, -, rfl⟩ := hentry
      exact Nat.le_add_right _ _
    · exact (Nat.mul_le_mul_right _ (Nat.le_succ _)).trans (hplace entry hentry)

/-- Chunks move a prefix where none behind a short one moves anything. The last chunk may have
fewer sectors than the others; nothing follows it. -/
theorem Run.moved (hquiet : Quiet tail) :
    Moved read m result.2 (lba + chunk * sectorsOnce) (chunk * sectorsOnce) result.1 := by
  induction h with
  | done chunk m => exact .none read m _ _
  | @more chunk sectors got rest m next last tail hmore hsectors hgot hrest ih =>
    have hlogged := (rwDevice_moved hgot).1.logged (next.chunks ++ [(sectors, got)])
    obtain ⟨-, -, hgotle⟩ := rwDevice_moved hgot
    rw [Quiet] at hquiet
    split at hquiet
    next hfull =>
      have hnext := ih hquiet
      cases hrest with
      | done => exact hlogged
      | more hlater _ _ _ =>
        have hplace : (chunk + 1) * sectorsOnce = chunk * sectorsOnce + got := by
          simp only [sectorsOnce] at *
          omega
        rw [hplace, ← Nat.add_assoc] at hnext
        exact hlogged.trans hnext
    next =>
      have hzero : rest = 0 := by
        rw [show rest = _ from hrest.count]
        exact List.sum_eq_zero fun value hvalue => by
          obtain ⟨later, hlater, rfl⟩ := List.mem_map.mp hvalue
          exact hquiet later hlater
      subst hzero
      refine hlogged.trans (Moved.zero (ih (quiet_of_zero hquiet)) ?_)
      simp only [sectorsOnce] at *
      omega

/-- Where a prefix was moved, no chunk behind a short one has moved anything: what it moves does
not follow the sectors before. -/
theorem Run.quiet (hmoved : result.2.moved =
    m.moved ++ pairs (lba + chunk * sectorsOnce) (chunk * sectorsOnce) result.1) : Quiet tail := by
  induction h with
  | done => trivial
  | @more chunk sectors got rest m next last tail hmore hsectors hgot hrest ih =>
    obtain ⟨hfirst, -, hgotle⟩ := rwDevice_moved hgot
    obtain ⟨log, hlog, hlength, hplace⟩ := hrest.log
    have htail : log = pairs (lba + chunk * sectorsOnce + got) (chunk * sectorsOnce + got) rest := by
      dsimp only at hmoved hlog
      rw [hlog, hfirst.pairs, List.append_assoc, ← pairs_append, List.append_cancel_left_eq,
        List.append_cancel_left_eq] at hmoved
      exact hmoved
    rw [Quiet]
    split
    next hfull =>
      cases hrest with
      | done => trivial
      | more hlater hsize _ _ =>
        have hnext : (chunk + 1) * sectorsOnce = chunk * sectorsOnce + got := by
          simp only [sectorsOnce] at *
          omega
        apply ih
        rw [hlog, htail, hnext, Nat.add_assoc]
    next hshort =>
      have hnone : rest = 0 := by
        by_contra hsome
        have hmem : (lba + chunk * sectorsOnce + got, chunk * sectorsOnce + got) ∈ log := by
          rw [htail, pairs]
          exact List.mem_map.mpr ⟨0, List.mem_range.mpr (Nat.pos_of_ne_zero hsome), rfl⟩
        have hbehind := hplace _ hmem
        simp only [sectorsOnce] at *
        omega
      intro later hlater
      have hcount : (tail.map Prod.snd).sum = 0 := hrest.count.symm.trans hnone
      exact List.sum_eq_zero_iff.mp hcount _ (List.mem_map_of_mem hlater)

end

/-- The loop of `device_write` stops at a short chunk. -/
theorem writeLoop_run : ∃ tail, Run false sectorSize answers lba number chunk m
    (m.writeLoop sectorSize answers lba number fuel chunk) tail ∧ CompleteButLast tail := by
  induction fuel generalizing chunk m with
  | zero => exact ⟨[], .done chunk m, by simp [CompleteButLast]⟩
  | succ fuel ih =>
    simp only [Medium.writeLoop, chunk_sectors]
    split
    · rename_i hmore
      split
      · exact ⟨_, .more hmore rfl rfl (.done _ _), completeButLast_single _⟩
      rename_i hfull
      rcases @ih (chunk + 1) _ with ⟨tail, hrun, hcomplete⟩
      refine ⟨_, .more hmore rfl rfl hrun, ?_⟩
      cases tail with
      | nil => exact completeButLast_single _
      | cons => exact completeButLast_cons.mpr ⟨not_not.mp hfull, hcomplete⟩
    · exact ⟨[], .done chunk m, by simp [CompleteButLast]⟩

/-- The loop of `device_read` goes on whatever a chunk moved. -/
theorem readLoop_run (hsize : sectorSize ≠ 0) (hfuel : number ≤ (chunk + fuel) * sectorsOnce) :
    Run true sectorSize answers lba number chunk m (m.readLoop sectorSize answers lba number fuel chunk)
      ((chunkAnswers sectorSize answers number).drop chunk) := by
  have hend : ∀ {chunk}, number ≤ chunk * sectorsOnce →
      (chunkAnswers sectorSize answers number).drop chunk = [] := by
    intro chunk hchunk
    rw [List.drop_eq_nil_iff]
    simp only [chunkAnswers, List.length_map, List.length_range, sectorsOnce] at *
    omega
  induction fuel generalizing chunk m with
  | zero =>
    rw [hend (show number ≤ chunk * sectorsOnce from hfuel)]
    exact .done chunk m
  | succ fuel ih =>
    simp only [Medium.readLoop, chunk_sectors]
    split
    next hmore =>
      have hchunk : (chunkAnswers sectorSize answers number).drop chunk =
          (min sectorsOnce (number - chunk * sectorsOnce),
            (m.rwDevice sectorSize (answers chunk) (lba + chunk * sectorsOnce) (chunk * sectorsOnce)
              (min sectorsOnce (number - chunk * sectorsOnce)) true).1) ::
            (chunkAnswers sectorSize answers number).drop (chunk + 1) := by
        have hinside : chunk < (chunkAnswers sectorSize answers number).length := by
          simp only [chunkAnswers, List.length_map, List.length_range, sectorsOnce] at *
          omega
        rw [List.drop_eq_getElem_cons hinside, rwDevice_fst hsize]
        simp [chunkAnswers]
      rw [hchunk]
      exact .more hmore rfl rfl (ih (by simp only [sectorsOnce] at *; omega))
    next hdone =>
      rw [hend (Nat.not_lt.mp hdone)]
      exact .done chunk m

end Loops

/-- **Transfer counts.** `device_write` moves exactly the sectors it counts, from the start of
the buffer, and asks for nothing after the first short chunk. `device_read` moves exactly the
sectors it counts to the start of the buffer if and only if no chunk behind a short one moves a
sector; a request that is not cut into chunks has none. -/
theorem transfer_prefix (disk buffer : Nat → β) (info : DeviceInfo) (resolved ready : Bool)
    (answers : Nat → Answer β) (lba number : Nat) :
    (∀ n m, Medium.deviceWrite ⟨disk, buffer, [], []⟩ info resolved ready answers lba number = (n, m) →
      m.moved = pairs lba 0 n ∧ CompleteButLast m.chunks ∧
        m.disk = fun s => if lba ≤ s ∧ s < lba + n then buffer (s - lba) else disk s) ∧
    ∀ n m, Medium.deviceRead ⟨disk, buffer, [], []⟩ info resolved ready answers lba number = (n, m) →
      ((m.moved = pairs lba 0 n ∧ m.disk = disk ∧ ∀ j < n, m.buffer j = disk (lba + j)) ↔
        (info.stream = false → Medium.admits info resolved ready lba number = true →
          Quiet (chunkAnswers info.sectorSize answers number))) := by
  generalize hstart : (⟨disk, buffer, [], []⟩ : Medium β) = start
  constructor
  · intro n m hrun
    have hresult : Stored start m lba 0 n ∧ CompleteButLast m.chunks := by
      have hrefused : (0, start) = (n, m) → Stored start m lba 0 n ∧ CompleteButLast m.chunks := by
        rintro heq
        cases heq
        exact ⟨.none _ _ _, by rw [← hstart]; simp [CompleteButLast]⟩
      rw [Medium.deviceWrite] at hrun
      split_ifs at hrun
      all_goals try exact hrefused hrun
      rcases @writeLoop_run β info.sectorSize lba number number 0 answers start with
        ⟨tail, hloop, hcomplete⟩
      rw [hrun] at hloop
      have hchunks : m.chunks = tail := by simpa [← hstart] using hloop.chunks
      have hstored := hloop.moved hcomplete.quiet
      exact ⟨hstored, hchunks ▸ hcomplete⟩
    rcases hresult with ⟨hstored, hcomplete⟩
    have hdisk := hstored.disk
    have hmoved := hstored.moved
    subst hstart
    simp only [Nat.zero_add] at hdisk hmoved
    exact ⟨hmoved, hcomplete, hdisk⟩
  · intro n m hrun
    have hfetches : Fetched start m lba 0 n →
        m.moved = pairs lba 0 n ∧ m.disk = disk ∧ ∀ j < n, m.buffer j = disk (lba + j) := by
      intro hfetched
      have hmoved := hfetched.moved
      have hdisk := hfetched.disk
      have hfilled := hfetched.filled
      subst hstart
      simp only [Nat.zero_le, Nat.zero_add, true_implies] at hmoved hdisk hfilled
      exact ⟨hmoved, hdisk, hfilled⟩
    by_cases hloops : info.stream = false ∧ Medium.admits info resolved ready lba number = true
    · obtain ⟨hstream, hadmits⟩ := hloops
      have hloop : Run true info.sectorSize answers lba number 0 start (n, m)
          (chunkAnswers info.sectorSize answers number) := by
        simp only [Medium.admits, Bool.and_eq_true, Bool.not_eq_true'] at hadmits
        obtain ⟨⟨⟨hpresent, hresolved⟩, hrefuses⟩, hready⟩ := hadmits
        simp only [Medium.deviceRead, hpresent, hstream, hresolved, hrefuses, hready,
          Bool.true_eq_false, Bool.false_eq_true, if_false] at hrun
        have hsize : info.sectorSize ≠ 0 := by
          rintro hzero
          simp [Medium.refuses, hzero] at hrefuses
        have hloop := @readLoop_run β info.sectorSize lba number number 0 answers start hsize
          (by simp only [sectorsOnce]; omega)
        rwa [hrun, List.drop_zero] at hloop
      constructor
      · rintro ⟨hmoved, -⟩ - -
        apply hloop.quiet
        rw [hmoved, ← hstart]
        simp
      · intro hquiet
        apply hfetches
        have hfetched := hloop.moved (hquiet hstream hadmits)
        rwa [Nat.zero_mul, Nat.add_zero] at hfetched
    · refine iff_of_true (hfetches ?_) fun hstream hadmits => absurd ⟨hstream, hadmits⟩ hloops
      rw [Medium.deviceRead] at hrun
      split_ifs at hrun with hpresent hstream hresolved hrefuses hready
      all_goals try cases hrun; exact .none _ _ _
      · cases hrun
        refine ⟨rfl, fun j hlow hhigh => ?_, fun j hlow => by omega, rfl⟩
        simp only [Medium.fetch]
        rw [if_pos ⟨hlow, hhigh⟩, if_pos hhigh]
      · exact absurd (by simp_all [Medium.admits]) hloops

/-- A disk with sectors of 512 bytes. -/
def plainDisk : DeviceInfo := ⟨true, false, 512⟩

/-- The driver fails for the first chunk and moves the whole second one. -/
def firstFails (chunk : Nat) : Answer Nat := ⟨true, if chunk = 0 then 0 else 8, fun _ => 0⟩

/-- The driver moves three sectors of the first chunk and none of the second. -/
def stopsShort (chunk : Nat) : Answer Nat := ⟨true, if chunk = 0 then 3 else 0, fun _ => 0⟩

theorem transfer_prefix_short :
    (Medium.deviceWrite ⟨fun s => s, fun _ => 7, [], []⟩ plainDisk true true stopsShort 100 16).2.moved =
      pairs 100 0 3 ∧
    (Medium.deviceRead ⟨fun s => s, fun _ => 7, [], []⟩ plainDisk true true stopsShort 100 16).2.moved =
      pairs 100 0 3 := by
  have hboth := transfer_prefix (fun s => s) (fun _ => 7) plainDisk true true stopsShort 100 16
  have hquiet : Quiet (chunkAnswers plainDisk.sectorSize stopsShort 16) := by
    rw [show chunkAnswers plainDisk.sectorSize stopsShort 16 = [(8, 3), (8, 0)] by decide]
    simp [Quiet]
  exact ⟨(hboth.1 3 _ rfl).1, ((hboth.2 3 _ rfl).mpr fun _ _ => hquiet).1⟩

/-- Sixteen sectors are asked for, the first chunk fails and eight are reported: none of them is
among the first eight sectors of the request. -/
theorem deviceRead_counts_later_chunk :
    (Medium.deviceRead ⟨fun s => s, fun _ => 7, [], []⟩ plainDisk true true firstFails 100 16).1 = 8 ∧
      (Medium.deviceRead ⟨fun s => s, fun _ => 7, [], []⟩ plainDisk true true firstFails 100 16).2.moved =
        pairs 108 8 8 := by
  decide

end OpenXJ380.Device
