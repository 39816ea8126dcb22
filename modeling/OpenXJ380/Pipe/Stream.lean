/-
# The pipe as a byte stream

Two facts about every schedule of pipe operations. The bytes handed to readers,
followed by the buffered ones, are the accepted chunks in the order in which they
were accepted, and a write contributes the bytes it reports and nothing else. And
no wake-up is lost: whenever the lock is free, a published reader has nothing to
read, a published writer has no room, and a sleeping operation is published or owed a
wake-up.

Each locked section is described once, by what it does to the buffered bytes and by
the condition on waiters that it preserves; the results about schedules only use
those descriptions.
-/

import OpenXJ380.Pipe.Model

namespace OpenXJ380.Pipe

open List

namespace PipeInfo

theorem contents_append (pipe : PipeInfo) (data : List UInt8) :
    (pipe.append data).contents = pipe.contents ++ data := by
  apply ext_getElem
  · simp [contents, peek, append]
  · intro i _ below
    simp only [contents, peek, length_append, length_map, length_range] at below
    simp only [contents, peek, append, getElem_map, getElem_range, copyIn,
      getElem_append, length_map, length_range]
    split_ifs with behind early early
    · omega
    · have inside : i - pipe.ptr < data.length := by omega
      simp [List.getElem?_eq_getElem inside]
    · rfl
    · omega

theorem peek_append_contents_drain (pipe : PipeInfo) {count : ℕ} (le : count ≤ pipe.ptr) :
    pipe.peek count ++ (pipe.drain count).contents = pipe.contents := by
  apply ext_getElem
  · simp [contents, peek, drain, Nat.add_sub_cancel' le]
  · intro i _ below
    simp only [contents, peek, length_map, length_range] at below
    simp only [contents, peek, drain, getElem_append, getElem_map, getElem_range,
      length_map, length_range]
    split_ifs with early rest
    · rfl
    · simp [moveDown, show i - count < pipe.ptr - count by omega,
        Nat.sub_add_cancel (by omega : count ≤ i)]
    · omega

/-- What holds of a pipe whose lock is free: no published reader has anything to wait
for but data, and no published writer has room. -/
structure Sound (pipe : PipeInfo) : Prop where
  bounded : pipe.ptr ≤ pipeBuff
  readers : pipe.ptr ≠ 0 ∨ pipe.writeFds = 0 → pipe.blockingRead = []
  writers : pipe.blockingWrite ≠ [] → 0 < pipe.readFds
  crowded : ∀ waiter ∈ pipe.blockingWrite, pipeBuff - pipe.ptr < waiter.request

variable {pipe : PipeInfo}

theorem fits_iff (bounded : pipe.ptr ≤ pipeBuff) {size : ℕ} :
    pipe.fits size = true ↔ pipe.ptr + size ≤ pipeBuff := by
  simp only [fits, Bool.and_eq_true, decide_eq_true_eq]
  omega

theorem Sound.drain (sound : pipe.Sound) (filled : pipe.ptr ≠ 0) (count : ℕ) :
    (pipe.drain count).Sound where
  bounded := (Nat.sub_le _ _).trans sound.bounded
  readers _ := sound.readers (.inl filled)
  writers nonempty := absurd rfl nonempty
  crowded _ member := absurd member not_mem_nil

theorem Sound.append (sound : pipe.Sound) {data : List UInt8}
    (fits : pipe.fits data.length = true) : (pipe.append data).Sound where
  bounded := (fits_iff sound.bounded).mp fits
  readers _ := rfl
  writers := sound.writers
  crowded waiter member := by
    have := sound.crowded waiter member
    simp only [PipeInfo.append]
    omega

end PipeInfo

section Sections

variable {pipe : PipeInfo}

theorem readSection_stream (thread size : ℕ) (prepared waits : Bool) :
    (deliveredBy (readSection pipe thread size prepared waits).1).flatten ++
      (readSection pipe thread size prepared waits).2.contents = pipe.contents := by
  unfold readSection
  split_ifs with filled closed unprepared
  · simpa [deliveredBy] using pipe.peek_append_contents_drain (Nat.min_le_right size pipe.ptr)
  · simp [deliveredBy]
  · simp [deliveredBy]
  · -- waiting changes the list of waiters only
    cases waits <;> rfl

theorem readSection_sound (sound : pipe.Sound) (thread size : ℕ) (prepared waits : Bool) :
    (readSection pipe thread size prepared waits).2.Sound := by
  unfold readSection
  split_ifs with filled closed unprepared
  · exact sound.drain filled _
  · exact sound
  · exact sound
  · cases waits with
    | false => exact sound
    | true =>
      have empty : ¬(pipe.ptr ≠ 0 ∨ pipe.writeFds = 0) := by simp [filled, closed]
      exact ⟨sound.bounded, fun ready => absurd ready empty, sound.writers, sound.crowded⟩

theorem writeSection_stream (thread : ℕ) (data : List UInt8) (prepared waits : Bool) :
    (writeSection pipe thread data prepared waits).2.contents = pipe.contents ++
        ((acceptedBy thread data (writeSection pipe thread data prepared waits).1).map
          Prod.snd).flatten := by
  unfold writeSection
  split_ifs with closed fits unprepared
  · simp [acceptedBy]
  · simpa [acceptedBy] using pipe.contents_append data
  · simp [acceptedBy]
  · cases waits <;> simp [pipeWaitOn, acceptedBy, PipeInfo.contents, PipeInfo.peek]

theorem writeSection_sound (sound : pipe.Sound) (thread : ℕ) (data : List UInt8)
    (prepared waits : Bool) : (writeSection pipe thread data prepared waits).2.Sound := by
  unfold writeSection
  split_ifs with closed fits unprepared
  · exact sound
  · exact sound.append fits
  · exact sound
  · cases waits with
    | false => exact sound
    | true =>
      refine ⟨sound.bounded, sound.readers, fun _ => Nat.pos_of_ne_zero closed, ?_⟩
      intro waiter member
      rcases mem_cons.mp member with rfl | member
      · have bounded := sound.bounded
        have := mt (PipeInfo.fits_iff bounded).mpr fits
        simp only
        omega
      · exact sound.crowded waiter member

/-- A section that reports success has accepted exactly the bytes it was given. -/
theorem writeSection_ok {thread : ℕ} {data : List UInt8} {prepared waits : Bool} {wrote : ℕ}
    (succeeds : (writeSection pipe thread data prepared waits).1 = .returned (.ok wrote)) :
    wrote = data.length := by
  unfold writeSection at succeeds
  split_ifs at succeeds with closed fits unprepared
  · simp at succeeds
  · simpa using succeeds.symm
  · cases waits <;> simp [pipeWaitOn] at succeeds

theorem packetSection_stream (thread : ℕ) (data : List UInt8) :
    (packetSection pipe data).2.contents = pipe.contents ++
        ((acceptedBy thread data (.returned (packetSection pipe data).1)).map Prod.snd).flatten := by
  unfold packetSection
  split_ifs with closed fits
  · simp [acceptedBy]
  · simpa [acceptedBy] using pipe.contents_append data
  · simp [acceptedBy]

theorem packetSection_sound (sound : pipe.Sound) (data : List UInt8) :
    (packetSection pipe data).2.Sound := by
  unfold packetSection
  split_ifs with closed fits
  · exact sound
  · exact sound.append fits
  · exact sound

theorem close_contents (write : Bool) : (close pipe write).contents = pipe.contents := by
  cases write <;> rfl

theorem close_sound (sound : pipe.Sound) (write : Bool) : (close pipe write).Sound := by
  cases write with
  | true =>
    refine ⟨sound.bounded, fun ready => ?_, sound.writers, sound.crowded⟩
    change (if (close pipe true).writeFds = 0 then [] else pipe.blockingRead) = []
    by_cases last : (close pipe true).writeFds = 0
    · exact if_pos last
    · rw [if_neg last]
      exact sound.readers (.inl (ready.resolve_right last))
  | false =>
    have waiters : (close pipe false).blockingWrite =
        if (close pipe false).readFds = 0 then [] else pipe.blockingWrite := rfl
    by_cases last : (close pipe false).readFds = 0
    · rw [if_pos last] at waiters
      exact ⟨sound.bounded, sound.readers, fun nonempty => absurd waiters nonempty,
        fun _ member => absurd (waiters ▸ member) not_mem_nil⟩
    · rw [if_neg last] at waiters
      exact ⟨sound.bounded, sound.readers, fun _ => Nat.pos_of_ne_zero last,
        fun waiter member => sound.crowded waiter (waiters ▸ member)⟩

theorem dup_sound (sound : pipe.Sound) (write : Bool) : (dup pipe write).Sound := by
  cases write with
  | true =>
    refine ⟨sound.bounded, fun ready => ?_, sound.writers, sound.crowded⟩
    exact sound.readers (ready.imp_right fun none => absurd none (Nat.succ_ne_zero _))
  | false => exact ⟨sound.bounded, sound.readers, fun _ => Nat.succ_pos _, sound.crowded⟩

end Sections

/-- The bytes a result of a write reports. -/
def reported : Except Errno ℕ → ℕ
  | .ok count => count
  | .error _ => 0

/-- A finished write has contributed the bytes it reports, and a small one is in the
stream as one chunk or not at all. -/
structure Settled (data : List UInt8) (result : Except Errno ℕ) (chunks : List (List UInt8)) :
    Prop where
  written : chunks.flatten = data.take (reported result)
  whole : data.length ≤ pipeBuff → chunks = [] ∨ chunks = [data]

theorem settled_nothing (data : List UInt8) (error : Errno) : Settled data (.error error) [] :=
  ⟨by simp [reported], fun _ => .inl rfl⟩

theorem settled_all (data : List UInt8) : Settled data (.ok data.length) [data] :=
  ⟨by simp [reported], fun _ => .inr rfl⟩

namespace WriteCall

/-- A call of `pipefs_write` between two pieces: the finished pieces are in the stream. -/
structure Progress (call : WriteCall) (chunks : List (List UInt8)) : Prop where
  fresh : call.cycle = 0
  counted : call.ret = call.index * pipeBuff
  pending : call.pending = true
  written : chunks.flatten = call.data.take call.ret
  first : call.index = 0 → chunks = []

variable {call : WriteCall} {chunks : List (List UInt8)}

theorem length_eq (call : WriteCall) : call.chunks * pipeBuff + call.remainder = call.data.length :=
  Nat.div_add_mod' _ _

theorem remainder_lt (call : WriteCall) : call.remainder < pipeBuff := Nat.mod_lt _ (by decide)

theorem pending_iff : call.pending = true ↔
    call.index < call.chunks ∨ call.index = call.chunks ∧ call.remainder ≠ 0 := by
  simp [pending]

/-- The piece at hand lies inside the data. -/
theorem pieceSize_le (pending : call.pending = true) :
    call.index * pipeBuff + call.pieceSize ≤ call.data.length := by
  have total := call.length_eq
  rcases pending_iff.mp pending with full | ⟨last, -⟩
  · have next : (call.index + 1) * pipeBuff ≤ call.chunks * pipeBuff := Nat.mul_le_mul_right _ full
    rw [Nat.succ_mul] at next
    simp only [pieceSize, if_pos full]
    omega
  · simp only [pieceSize, last, Nat.lt_irrefl, if_false]
    omega

/-- A write that fits the buffer has a single piece, which is all of it. -/
theorem pieceSize_of_small (pending : call.pending = true) (small : call.data.length ≤ pipeBuff) :
    call.index = 0 ∧ call.pieceSize = call.data.length := by
  have total := call.length_eq
  have below := call.remainder_lt
  simp only [pipeBuff] at total below small
  rcases pending_iff.mp pending with full | ⟨last, rest⟩
  · refine ⟨by omega, ?_⟩
    simp only [pieceSize, if_pos full, pipeBuff]
    omega
  · refine ⟨by omega, ?_⟩
    simp only [pieceSize, last, Nat.lt_irrefl, if_false]
    omega

namespace Progress

variable (progress : call.Progress chunks)
include progress

theorem request_length :
    call.request.length = call.pieceSize := by
  have inside := pieceSize_le progress.pending
  simp only [request, progress.fresh, length_take, length_drop]
  omega

theorem request_eq :
    call.request = (call.data.drop call.ret).take call.pieceSize := by
  simp [request, progress.fresh, progress.counted]

theorem advance_eq : call.advance call.request.length =
      { call with index := call.index + 1, cycle := 0, ret := call.ret + call.pieceSize } := by
  simp [advance, progress.fresh, progress.request_length]

theorem written_advance :
    (chunks ++ [call.request]).flatten = call.data.take (call.ret + call.pieceSize) := by
  rw [flatten_append, progress.written, progress.request_eq, take_add]
  simp

/-- After an accepted piece the call is between two pieces again. -/
theorem advance
    (more : (call.advance call.request.length).pending = true) :
    (call.advance call.request.length).Progress (chunks ++ [call.request]) := by
  rw [progress.advance_eq] at more ⊢
  have full : call.index < call.chunks := by
    rcases pending_iff.mp more with below | ⟨last, -⟩
    · exact Nat.lt_of_succ_lt below
    · exact Nat.lt_of_succ_le (Nat.le_of_eq last)
  refine ⟨rfl, ?_, more, progress.written_advance, fun zero => absurd zero (Nat.succ_ne_zero _)⟩
  simp only [progress.counted, pieceSize, if_pos full]
  exact (Nat.succ_mul _ _).symm

/-- After its last piece the call has contributed all it reports. -/
theorem settled :
    Settled call.data (.ok (call.advance call.request.length).ret) (chunks ++ [call.request]) := by
  rw [progress.advance_eq]
  refine ⟨progress.written_advance, fun small => .inr ?_⟩
  obtain ⟨start, all⟩ := pieceSize_of_small progress.pending small
  have zero : call.ret = 0 := by simp [progress.counted, start]
  rw [progress.first start, progress.request_eq, zero, all]
  simp

theorem settled_giveUp (error : Errno) :
    Settled call.data (call.giveUp error) chunks := by
  have count : reported (call.giveUp error) = call.ret := by
    unfold giveUp
    split_ifs with some
    · rfl
    · exact (not_not.mp some).symm
  refine ⟨count ▸ progress.written, fun small => .inl ?_⟩
  exact progress.first (pieceSize_of_small progress.pending small).1

end Progress

theorem progress_start {data : List UInt8} (pending : (⟨data, 0, 0, 0⟩ : WriteCall).pending = true) :
    (⟨data, 0, 0, 0⟩ : WriteCall).Progress [] :=
  ⟨rfl, by simp, pending, by simp, fun _ => rfl⟩

end WriteCall

namespace Operation

/-- The bytes a writing operation was asked to write. -/
def data? : Operation → Option (List UInt8)
  | .reading _ _ | .readDone => none
  | .inner data _ => some data
  | .writing call _ => some call.data
  | .wrote data _ => some data

/-- The chunks in the stream are those the state of the operation accounts for. -/
def Accounted : Operation → List (List UInt8) → Prop
  | .reading _ _, chunks | .readDone, chunks | .inner _ _, chunks => chunks = []
  | .writing call _, chunks => call.Progress chunks
  | .wrote data result, chunks => Settled data result chunks

theorem Accounted.whole {operation : Operation} {chunks : List (List UInt8)} {data : List UInt8}
    (accounted : operation.Accounted chunks) (asked : operation.data? = some data)
    (small : data.length ≤ pipeBuff) : chunks = [] ∨ chunks = [data] := by
  cases operation with
  | reading | readDone => cases asked
  | inner => exact .inl accounted
  | writing call =>
    obtain rfl := Option.some.inj asked
    exact .inl (accounted.first (WriteCall.pieceSize_of_small accounted.pending small).1)
  | wrote =>
    obtain rfl := Option.some.inj asked
    exact Settled.whole accounted small

end Operation

/-- What follows a section of a write: if it was accepted, the operation accounts for
the new chunk, and otherwise for the old ones. -/
theorem accounted_follow {pipe : PipeInfo} {thread : ℕ} {data : List UInt8}
    {prepared waits : Bool} (allocates : Bool) {again : Stage → Operation}
    {done : Except Errno ℕ → Operation} {chunks : List (List UInt8)}
    (waiting : ∀ stage, (again stage).Accounted chunks)
    (succeeding : (done (.ok data.length)).Accounted (chunks ++ [data]))
    (failing : ∀ error, (done (.error error)).Accounted chunks) :
    (follow again done allocates (writeSection pipe thread data prepared waits).1).Accounted
      (chunks ++
        (acceptedBy thread data (writeSection pipe thread data prepared waits).1).map Prod.snd) := by
  cases outcome : (writeSection pipe thread data prepared waits).1 with
  | retry | asleep => simpa [acceptedBy, follow] using waiting _
  | returned result =>
    cases result with
    | error error => simpa [acceptedBy, follow] using failing error
    | ok wrote =>
      obtain rfl := writeSection_ok outcome
      exact succeeding

theorem accounted_resumeWrite {call : WriteCall} {chunks : List (List UInt8)}
    (progress : call.Progress chunks) :
    (resumeWrite call (.ok call.request.length)).Accounted (chunks ++ [call.request]) := by
  simp only [resumeWrite]
  split_ifs with more
  · exact progress.advance more
  · exact progress.settled

namespace System

/-- The chunks an operation has in the stream. -/
def chunks (system : System) (operation : ℕ) : List (List UInt8) :=
  (system.accepted.filter (·.1 = operation)).map Prod.snd

/-- The invariant of the pipe and its operations. -/
structure Consistent (system : System) : Prop where
  sound : system.pipe.Sound
  stream : system.delivered.flatten ++ system.pipe.contents =
    (system.accepted.map Prod.snd).flatten
  accounted : ∀ (number : ℕ) (operation : Operation),
    system.operations[number]? = some operation → operation.Accounted (system.chunks number)
  known : ∀ entry ∈ system.accepted, entry.1 < system.operations.length

theorem consistent_initial : initial.Consistent where
  sound := ⟨Nat.zero_le _, fun _ => rfl, fun nonempty => absurd rfl nonempty,
    fun _ member => absurd member not_mem_nil⟩
  stream := rfl
  accounted _ _ present := by simp [initial] at present
  known _ member := absurd member not_mem_nil

variable {system : System}

theorem chunks_of_not_known (consistent : system.Consistent) :
    system.chunks system.operations.length = [] := by
  rw [chunks, map_eq_nil_iff, filter_eq_nil_iff]
  intro entry member
  simpa using (consistent.known entry member).ne

variable {number : ℕ} {before after : Operation}

/-- The chunks after some operation had `added` accepted. -/
theorem chunks_append (system : System) (other : ℕ) {added : List (ℕ × List UInt8)}
    (own : ∀ entry ∈ added, entry.1 = number) :
    ((system.accepted ++ added).filter (·.1 = other)).map Prod.snd =
      system.chunks other ++ if number = other then added.map Prod.snd else [] := by
  rw [filter_append, map_append, chunks]
  split_ifs with same
  · have all : added.filter (·.1 = other) = added :=
      filter_eq_self.mpr fun entry member => by simp [own entry member, same]
    rw [all]
  · have none : added.filter (·.1 = other) = [] :=
      filter_eq_nil_iff.mpr fun entry member => by simp [own entry member, same]
    rw [none, map_nil]

theorem acceptedBy_own (number : ℕ) (data : List UInt8) (outcome : Outcome ℕ) :
    ∀ entry ∈ acceptedBy number data outcome, entry.1 = number := by
  intro entry member
  unfold acceptedBy at member
  split at member
  · rw [mem_singleton.mp member]
  · exact absurd member not_mem_nil

section

variable (consistent : system.Consistent)
include consistent

/-- An operation takes a step: the bytes that left or entered the stream are recorded,
and its new state accounts for them. -/
theorem Consistent.update
    (present : system.operations[number]? = some before) {pipe : PipeInfo} (sound : pipe.Sound)
    (bytes : List (List UInt8)) (added : List (ℕ × List UInt8)) (detached : List ℕ)
    (own : ∀ entry ∈ added, entry.1 = number)
    (stream : bytes.flatten ++ pipe.contents = system.pipe.contents ++ (added.map Prod.snd).flatten)
    (accounted : after.Accounted (system.chunks number ++ added.map Prod.snd)) :
    System.Consistent
      { pipe := pipe
        operations := system.operations.set number after
        delivered := system.delivered ++ bytes
        accepted := system.accepted ++ added
        detached := detached } where
  sound := sound
  stream := by
    rw [flatten_append, append_assoc, stream, ← append_assoc, consistent.stream]
    simp
  accounted other operation found := by
    rw [chunks, chunks_append system other own]
    by_cases same : number = other
    · subst same
      have inside := (List.getElem?_eq_some_iff.mp present).1
      rw [List.getElem?_set_self inside] at found
      obtain rfl := Option.some.inj found
      simpa using accounted
    · rw [List.getElem?_set_ne same] at found
      simpa [same] using consistent.accounted other operation found
  known entry member := by
    rw [length_set]
    rcases mem_append.mp member with old | new
    · exact consistent.known entry old
    · rw [own entry new]
      exact (List.getElem?_eq_some_iff.mp present).1

theorem Consistent.start {pipe : PipeInfo} (sound : pipe.Sound)
    (added : List (ℕ × List UInt8)) (own : ∀ entry ∈ added, entry.1 = system.operations.length)
    (detached : List ℕ)
    (stream : pipe.contents = system.pipe.contents ++ (added.map Prod.snd).flatten)
    (accounted : after.Accounted (added.map Prod.snd)) :
    System.Consistent
      { system with
        pipe := pipe
        operations := system.operations ++ [after]
        accepted := system.accepted ++ added
        detached := detached } where
  sound := sound
  stream := by
    rw [stream, ← append_assoc, consistent.stream]
    simp
  accounted other operation found := by
    rw [chunks, chunks_append system other own]
    by_cases same : system.operations.length = other
    · subst same
      obtain rfl : after = operation := by simpa using found
      simpa [chunks_of_not_known consistent] using accounted
    · have old : system.operations[other]? = some operation := by
        grind
      simpa [same] using consistent.accounted other operation old
  known entry member := by
    rw [length_append, length_singleton]
    rcases mem_append.mp member with old | new
    · exact (consistent.known entry old).trans (Nat.lt_succ_self _)
    · rw [own entry new]
      exact Nat.lt_succ_self _

theorem Consistent.begin (accounted : after.Accounted []) :
    System.Consistent { system with operations := system.operations ++ [after] } := by
  have := consistent.start consistent.sound []
    (fun _ member => absurd member not_mem_nil) system.detached (by simp) accounted
  simpa using this

section

variable (present : system.operations[number]? = some before)
include present

/-- An operation changes its stage or its result without touching the stream. -/
theorem Consistent.replace (detached : List ℕ)
    (accounted : after.Accounted (system.chunks number)) :
    System.Consistent
      { system with
        operations := system.operations.set number after
        detached := detached } := by
  have := consistent.update present consistent.sound [] [] detached
    (fun _ member => absurd member not_mem_nil) (by simp) (by simpa using accounted)
  simpa using this

/-- One section of a write, whichever function it belongs to. -/
theorem Consistent.write (data : List UInt8)
    (prepared waits allocates : Bool) {again : Stage → Operation}
    {done : Except Errno ℕ → Operation}
    (waiting : ∀ stage, (again stage).Accounted (system.chunks number))
    (succeeding : (done (.ok data.length)).Accounted (system.chunks number ++ [data]))
    (failing : ∀ error, (done (.error error)).Accounted (system.chunks number)) :
    System.Consistent
      { system with
        pipe := (writeSection system.pipe number data prepared waits).2
        operations := system.operations.set number
          (follow again done allocates (writeSection system.pipe number data prepared waits).1)
        accepted := system.accepted ++
          acceptedBy number data (writeSection system.pipe number data prepared waits).1
        detached := system.detached ++
          detachedBy system.pipe (writeSection system.pipe number data prepared waits).2 } := by
  have := consistent.update present (writeSection_sound consistent.sound number data prepared waits)
    [] _ (system.detached ++
      detachedBy system.pipe (writeSection system.pipe number data prepared waits).2)
    (acceptedBy_own number data _)
    (by simpa using writeSection_stream number data prepared waits)
    (accounted_follow allocates waiting succeeding failing)
  simpa using this

end

theorem Consistent.locked (number : ℕ) (allocates waits : Bool) :
    (system.locked number allocates waits).Consistent := by
  unfold System.locked
  cases present : system.operations[number]? with
  | none => exact consistent
  | some operation =>
    have accounted := consistent.accounted number operation present
    cases operation with
    | readDone | wrote => exact consistent
    | reading size stage =>
      simp only
      split_ifs with asleep
      · exact consistent
      · have none : system.chunks number = [] := accounted
        have idle : ∀ outcome : Outcome (List UInt8),
            (follow (.reading size) (fun _ => .readDone) allocates outcome).Accounted
              (system.chunks number ++ []) := by
          intro outcome
          cases outcome <;> simpa [follow, Operation.Accounted] using none
        have := consistent.update present
          (readSection_sound consistent.sound number size (stage = .prepared) waits)
          _ [] (system.detached ++ detachedBy system.pipe
            (readSection system.pipe number size (stage = .prepared) waits).2)
          (fun _ member => absurd member not_mem_nil)
          (by simpa using readSection_stream number size (stage = .prepared) waits)
          (idle (readSection system.pipe number size (stage = .prepared) waits).1)
        simpa using this
    | inner data stage =>
      have none : system.chunks number = [] := accounted
      simp only
      split_ifs with asleep
      · exact consistent
      · refine consistent.write present data _ waits allocates (fun _ => none) ?_ ?_
        · rw [none]
          exact settled_all data
        · intro error
          rw [none]
          exact settled_nothing data error
    | writing call stage =>
      have progress : call.Progress (system.chunks number) := accounted
      simp only
      split_ifs with asleep
      · exact consistent
      · exact consistent.write present call.request _ waits allocates (fun _ => progress)
          (accounted_resumeWrite progress) progress.settled_giveUp

theorem Consistent.wake (number : ℕ) (alive : Bool) :
    (system.wake number alive).Consistent := by
  unfold System.wake
  cases present : system.operations[number]? with
  | none => exact consistent
  | some operation =>
    have accounted := consistent.accounted number operation present
    cases operation with
    | readDone | wrote => exact consistent
    | reading size stage =>
      cases stage with
      | unprepared | prepared => exact consistent
      | asleep =>
        refine consistent.replace present _ ?_
        cases alive <;> exact accounted
    | inner data stage =>
      cases stage with
      | unprepared | prepared => exact consistent
      | asleep =>
        refine consistent.replace present _ ?_
        have none : system.chunks number = [] := accounted
        rw [none]
        cases alive with
        | true => exact rfl
        | false => exact settled_nothing data _
    | writing call stage =>
      cases stage with
      | unprepared | prepared => exact consistent
      | asleep =>
        refine consistent.replace present _ ?_
        cases alive with
        | true => exact accounted
        | false => exact WriteCall.Progress.settled_giveUp accounted _

theorem Consistent.step (action : Action) :
    (system.step action).Consistent := by
  cases action with
  | read size =>
    refine consistent.begin ?_
    split_ifs <;> exact rfl
  | writeInner data =>
    have nothing : (Operation.inner data .unprepared).Accounted [] := rfl
    exact consistent.begin nothing
  | write data =>
    refine consistent.begin ?_
    split_ifs with pending
    · exact WriteCall.progress_start pending
    · exact ⟨rfl, fun _ => .inl rfl⟩
  | packet data =>
    simp only [System.step]
    split_ifs with impossible
    · exact consistent.begin (settled_nothing data _)
    · refine consistent.start (packetSection_sound consistent.sound data) _
        (acceptedBy_own _ data _) _ (packetSection_stream _ data) ?_
      unfold packetSection
      split_ifs with closed fits
      · exact settled_nothing data _
      · exact settled_all data
      · exact settled_nothing data _
  | locked number allocates waits => exact consistent.locked number allocates waits
  | wake number alive => exact consistent.wake number alive
  | close write =>
    have same : (close system.pipe write).contents = system.pipe.contents := close_contents write
    exact ⟨close_sound consistent.sound write, same ▸ consistent.stream,
      consistent.accounted, consistent.known⟩
  | dup write =>
    refine ⟨dup_sound consistent.sound write, ?_, consistent.accounted, consistent.known⟩
    cases write <;> exact consistent.stream

end

theorem consistent_of_run (schedule : List Action) :
    (Protocol.run System.step initial schedule).Consistent :=
  Protocol.invariant_run_of_step System.step Consistent
    (fun _ action consistent => consistent.step action) consistent_initial schedule

/-- For every schedule, reads return the accepted chunks in order with what is still
buffered at the end, the buffer is never overfull, a write or packet of at most
`PIPE_BUFF` bytes is one chunk or absent, and a finished write of any size has
contributed exactly the bytes it reports. -/
theorem stream_run (schedule : List Action) :
    let final := Protocol.run System.step initial schedule
    final.delivered.flatten ++ final.pipe.contents = (final.accepted.map Prod.snd).flatten ∧
      final.pipe.ptr ≤ pipeBuff ∧
      (∀ number operation data, final.operations[number]? = some operation →
        operation.data? = some data → data.length ≤ pipeBuff →
        final.chunks number = [] ∨ final.chunks number = [data]) ∧
      ∀ number data result, final.operations[number]? = some (.wrote data result) →
        (final.chunks number).flatten = data.take (reported result) := by
  intro final
  have consistent : final.Consistent := consistent_of_run schedule
  refine ⟨consistent.stream, consistent.sound.bounded, ?_, ?_⟩
  · intro number operation data present asked small
    exact (consistent.accounted number operation present).whole asked small
  · intro number data result present
    have settled : Settled data result (final.chunks number) :=
      consistent.accounted number _ present
    exact settled.written

end System

/-- A sleeping operation has a published waiter. -/
def Operation.Published (pipe : PipeInfo) (number : ℕ) : Operation → Prop
  | .reading size .asleep => ⟨number, size⟩ ∈ pipe.blockingRead
  | .inner data .asleep => ⟨number, data.length⟩ ∈ pipe.blockingWrite
  | .writing call .asleep => ⟨number, call.request.length⟩ ∈ pipe.blockingWrite
  | _ => True

section

variable {pipe : PipeInfo} {number : ℕ}

theorem mem_detachedBy {new : PipeInfo} {size : ℕ}
    (read : ⟨number, size⟩ ∈ pipe.blockingRead ∧ ⟨number, size⟩ ∉ new.blockingRead ∨
      ⟨number, size⟩ ∈ pipe.blockingWrite ∧ ⟨number, size⟩ ∉ new.blockingWrite) :
    number ∈ detachedBy pipe new := by
  refine mem_map.mpr ⟨⟨number, size⟩, mem_append.mpr ?_, rfl⟩
  exact read.imp (fun gone => mem_filter.mpr ⟨gone.1, by simpa using gone.2⟩)
    fun gone => mem_filter.mpr ⟨gone.1, by simpa using gone.2⟩

theorem detachedBy_self (pipe : PipeInfo) : detachedBy pipe pipe = [] := by
  have none : ∀ waiters : List PipeWaiter, waiters.filter (fun waiter => waiter ∉ waiters) = [] :=
    fun waiters => filter_eq_nil_iff.mpr fun waiter member => by simpa using member
  rw [detachedBy, none, none]
  rfl

/-- A waiter stays published or is detached. -/
theorem Operation.Published.detach {operation : Operation}
    (published : operation.Published pipe number) (new : PipeInfo) :
    operation.Published new number ∨ number ∈ detachedBy pipe new := by
  have reader : ∀ {size : ℕ}, ⟨number, size⟩ ∈ pipe.blockingRead →
      ⟨number, size⟩ ∈ new.blockingRead ∨ number ∈ detachedBy pipe new := fun {size} listed =>
    or_iff_not_imp_left.mpr fun gone => mem_detachedBy (.inl ⟨listed, gone⟩)
  have writer : ∀ {size : ℕ}, ⟨number, size⟩ ∈ pipe.blockingWrite →
      ⟨number, size⟩ ∈ new.blockingWrite ∨ number ∈ detachedBy pipe new := fun {size} listed =>
    or_iff_not_imp_left.mpr fun gone => mem_detachedBy (.inr ⟨listed, gone⟩)
  cases operation with
  | readDone | wrote => exact .inl trivial
  | reading size stage =>
    cases stage with
    | unprepared | prepared => exact .inl trivial
    | asleep => exact reader published
  | inner data stage =>
    cases stage with
    | unprepared | prepared => exact .inl trivial
    | asleep => exact writer published
  | writing call stage =>
    cases stage with
    | unprepared | prepared => exact .inl trivial
    | asleep => exact writer published

theorem published_readSection (size : ℕ) (prepared waits allocates : Bool) :
    (follow (.reading size) (fun _ => .readDone) allocates
      (readSection pipe number size prepared waits).1).Published
        (readSection pipe number size prepared waits).2 number := by
  unfold readSection
  split_ifs with filled closed unprepared
  · trivial
  · trivial
  · cases allocates <;> trivial
  · cases waits with
    | false => trivial
    | true => exact mem_cons_self

theorem published_writeSection (pipe : PipeInfo) (data : List UInt8)
    (prepared waits allocates : Bool) (again : Stage → Operation)
    (done : Except Errno ℕ → Operation)
    (sleeping : ∀ pipe : PipeInfo, ⟨number, data.length⟩ ∈ pipe.blockingWrite →
      (again .asleep).Published pipe number)
    (awake : ∀ pipe, (again (prepare allocates)).Published pipe number)
    (ended : ∀ pipe result, (done result).Published pipe number) :
    (follow again done allocates (writeSection pipe number data prepared waits).1).Published
      (writeSection pipe number data prepared waits).2 number := by
  unfold writeSection
  split_ifs with closed fits unprepared
  · exact ended _ _
  · exact ended _ _
  · exact awake _
  · cases waits with
    | false => exact ended _ _
    | true => exact sleeping _ mem_cons_self

end

theorem published_resumeWrite (pipe : PipeInfo) (number : ℕ) (call : WriteCall)
    (result : Except Errno ℕ) : (resumeWrite call result).Published pipe number := by
  cases result with
  | error => trivial
  | ok wrote =>
    simp only [resumeWrite]
    split_ifs <;> trivial

namespace System

/-- Every sleeping operation is published or owed a wake-up. -/
def Attended (system : System) : Prop :=
  ∀ number operation, system.operations[number]? = some operation →
    operation.Published system.pipe number ∨ number ∈ system.detached

variable {system : System} {number : ℕ} {after : Operation}

section

variable (attended : system.Attended)
include attended

/-- The pipe changes under an operation that does not. -/
theorem Attended.kept (pipe : PipeInfo) {other : ℕ} {operation : Operation}
    (found : system.operations[other]? = some operation) :
    operation.Published pipe other ∨ other ∈ system.detached ++ detachedBy system.pipe pipe := by
  rcases attended other operation found with listed | owed
  · exact (listed.detach pipe).imp_right fun gone => mem_append_right _ gone
  · exact .inr (mem_append_left _ owed)

/-- A section of an operation that is awake, or has its waiter published, afterwards. -/
theorem Attended.update {pipe : PipeInfo} (published : after.Published pipe number)
    (delivered : List (List UInt8)) (accepted : List (ℕ × List UInt8)) :
    System.Attended
      { pipe := pipe
        operations := system.operations.set number after
        delivered := delivered
        accepted := accepted
        detached := system.detached ++ detachedBy system.pipe pipe } := by
  intro other operation found
  rw [List.getElem?_set] at found
  split_ifs at found with same
  · subst same
    obtain rfl := Option.some.inj found
    exact .inl published
  · exact attended.kept pipe found

/-- The pipe changes, and an operation may begin. -/
theorem Attended.extend (pipe : PipeInfo) (started : List Operation)
    (published : ∀ operation ∈ started, ∀ number, operation.Published pipe number)
    (delivered : List (List UInt8)) (accepted : List (ℕ × List UInt8)) :
    System.Attended
      { pipe := pipe
        operations := system.operations ++ started
        delivered := delivered
        accepted := accepted
        detached := system.detached ++ detachedBy system.pipe pipe } := by
  intro other operation found
  by_cases old : other < system.operations.length
  · rw [List.getElem?_append_left old] at found
    exact attended.kept pipe found
  · rw [List.getElem?_append_right (Nat.le_of_not_lt old)] at found
    exact .inl (published operation (mem_of_getElem? found) other)

theorem Attended.begin (awake : ∀ number, after.Published system.pipe number) :
    System.Attended { system with operations := system.operations ++ [after] } := by
  have := attended.extend system.pipe [after]
    (fun operation member => mem_singleton.mp member ▸ awake) system.delivered system.accepted
  rw [detachedBy_self, append_nil] at this
  exact this

theorem Attended.replace (awake : after.Published system.pipe number) :
    System.Attended
      { system with
        operations := system.operations.set number after
        detached := system.detached.filter (· ≠ number) } := by
  intro other operation found
  rw [List.getElem?_set] at found
  split_ifs at found with same
  · subst same
    obtain rfl := Option.some.inj found
    exact .inl awake
  · exact (attended other operation found).imp_right fun owed =>
      mem_filter.mpr ⟨owed, by simpa using Ne.symm same⟩

theorem Attended.locked (number : ℕ) (allocates waits : Bool) :
    (system.locked number allocates waits).Attended := by
  unfold System.locked
  cases present : system.operations[number]? with
  | none => exact attended
  | some operation =>
    cases operation with
    | readDone | wrote => exact attended
    | reading size stage =>
      simp only
      split_ifs with asleep
      · exact attended
      · exact attended.update (published_readSection size _ waits allocates) _ _
    | inner data stage =>
      simp only
      split_ifs with asleep
      · exact attended
      · refine attended.update (published_writeSection system.pipe data _ waits allocates (.inner data)
          (.wrote data) (fun _ listed => listed) (fun _ => ?_) fun _ _ => trivial) _ _
        cases allocates <;> trivial
    | writing call stage =>
      simp only
      split_ifs with asleep
      · exact attended
      · refine attended.update (published_writeSection system.pipe call.request _ waits allocates
          (.writing call) (resumeWrite call) (fun _ listed => listed) (fun _ => ?_)
          fun pipe => published_resumeWrite pipe number call) _ _
        cases allocates <;> trivial

theorem Attended.wake (number : ℕ) (alive : Bool) : (system.wake number alive).Attended := by
  unfold System.wake
  cases present : system.operations[number]? with
  | none => exact attended
  | some operation =>
    cases operation with
    | readDone | wrote => exact attended
    | reading size stage | inner data stage | writing call stage =>
      cases stage with
      | unprepared | prepared => exact attended
      | asleep => exact attended.replace (by cases alive <;> trivial)

theorem Attended.step (action : Action) : (system.step action).Attended := by
  cases action with
  | read size => exact attended.begin fun _ => by split_ifs <;> trivial
  | writeInner data => exact attended.begin fun _ => trivial
  | write data => exact attended.begin fun _ => by split_ifs <;> trivial
  | packet data =>
    simp only [System.step]
    split_ifs with impossible
    · exact attended.begin fun _ => trivial
    · exact attended.extend _ _ (fun _ member _ => mem_singleton.mp member ▸ trivial) _ _
  | locked number allocates waits => exact attended.locked number allocates waits
  | wake number alive => exact attended.wake number alive
  | close write =>
    have := attended.extend (close system.pipe write) [] (fun _ member => absurd member not_mem_nil)
      system.delivered system.accepted
    rw [append_nil] at this
    exact this
  | dup write => cases write <;> exact attended

end

theorem attended_of_run (schedule : List Action) :
    (Protocol.run System.step initial schedule).Attended :=
  Protocol.invariant_run_of_step System.step Attended (fun _ action attended => attended.step action)
    (fun _ _ found => by simp [initial] at found) schedule

/-- No wake-up is lost in any schedule: with the lock free, published readers have
neither data nor a closed pipe to see, published writers have a reader and no room,
a read that finds bytes or the last close of a read end detaches every one of them, and an
operation that sleeps has a published waiter or is owed a wake-up. -/
theorem waiters_run (schedule : List Action) :
    let final := Protocol.run System.step initial schedule
    let pipe := final.pipe
    (pipe.contents ≠ [] ∨ pipe.writeFds = 0 → pipe.blockingRead = []) ∧
      (pipe.blockingWrite ≠ [] → 0 < pipe.readFds ∧
        ∀ waiter ∈ pipe.blockingWrite, pipeBuff - pipe.ptr < waiter.request) ∧
      (∀ thread size prepared waits, pipe.contents ≠ [] →
        (readSection pipe thread size prepared waits).2.blockingWrite = []) ∧
      ((close pipe false).readFds = 0 → (close pipe false).blockingWrite = []) ∧
      ∀ number operation, final.operations[number]? = some operation →
        operation.Published pipe number ∨ number ∈ final.detached := by
  intro final pipe
  have sound : pipe.Sound := (consistent_of_run schedule).sound
  have filled : pipe.contents ≠ [] ↔ pipe.ptr ≠ 0 := by simp [PipeInfo.contents, PipeInfo.peek]
  refine ⟨fun ready => sound.readers (ready.imp_left filled.mp),
    fun nonempty => ⟨sound.writers nonempty, sound.crowded⟩, ?_, fun last => if_pos last,
    attended_of_run schedule⟩
  intro thread size prepared waits some
  simp [readSection, filled.mp some, PipeInfo.drain]

end System

end OpenXJ380.Pipe
