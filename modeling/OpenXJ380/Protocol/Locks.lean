/-
# Threads and spin locks

Threads run programs over a shared state. A program is given by what it does at each of
its places: it takes a lock, gives one back, acts on the state in one step and chooses the
place where it goes on, or ends. Which lock a place takes is fixed by the place, so a
thread that waits keeps waiting for the same lock.

`Discipline` says which locks a thread holds at each of its places. A set of threads is
deadlocked if each of them waits for a lock that one of them holds; no set is if the locks
that a thread holds always come before the one it waits for.
-/

import OpenXJ380.Protocol.Run

namespace OpenXJ380.Protocol

open Function

/-- What a program does at one place, given a choice of the environment. -/
inductive Instruction (Λ σ χ P : Type)
  | acquire (lock : Λ) (next : P)
  | release (lock : Λ) (next : P)
  | act (perform : χ → σ → σ × P)
  | finish

/-- The threads, the locks they hold and the state they share. -/
structure Threads (ι Λ σ P : Type) where
  shared : σ
  holder : Λ → Option ι
  place : ι → Option P

inductive Schedule (ι χ E : Type)
  /-- An idle thread begins a call. -/
  | start (thread : ι) (call : E)
  | go (thread : ι) (choice : χ)

namespace Threads

variable {ι Λ σ χ P E : Type} [DecidableEq ι] [DecidableEq Λ]

def initial (shared : σ) : Threads ι Λ σ P := ⟨shared, fun _ => none, fun _ => none⟩

section

variable (threads : Threads ι Λ σ P) (thread : ι)

def move (place : Option P) : Threads ι Λ σ P :=
  { threads with place := update threads.place thread place }

/-- What a thread does next; a thread that waits for a lock stays where it is. -/
def advance (choice : χ) : Instruction Λ σ χ P → Threads ι Λ σ P
  | .acquire lock next =>
    if threads.holder lock = none then
      { threads.move thread (some next) with
        holder := update threads.holder lock (some thread) }
    else threads
  | .release lock next =>
    { threads.move thread (some next) with holder := update threads.holder lock none }
  | .act perform =>
    { threads.move thread (some (perform choice threads.shared).2) with
      shared := (perform choice threads.shared).1 }
  | .finish => threads.move thread none

end

def step (enter : E → P) (code : P → Instruction Λ σ χ P) (threads : Threads ι Λ σ P) :
    Schedule ι χ E → Threads ι Λ σ P
  | .start thread call =>
    if threads.place thread = none then threads.move thread (some (enter call)) else threads
  | .go thread choice =>
    match threads.place thread with
    | none => threads
    | some place => threads.advance thread choice (code place)

/-- The locks that are held at each place of a program, the last one taken first. -/
structure Discipline (enter : E → P) (code : P → Instruction Λ σ χ P) (held : P → List Λ) :
    Prop where
  enter : ∀ call, held (enter call) = []
  acquire : ∀ place lock next, code place = .acquire lock next → held next = lock :: held place
  release : ∀ place lock next, code place = .release lock next → held place = lock :: held next
  act : ∀ place perform, code place = .act perform →
    ∀ choice state, held (perform choice state).2 = held place
  finish : ∀ place, code place = .finish → held place = []

/-- The locks of a thread. -/
def mine (held : P → List Λ) (threads : Threads ι Λ σ P) (thread : ι) : List Λ :=
  (threads.place thread).elim [] held

/-- A lock has a holder exactly if it is one of its locks, and no thread holds a lock twice. -/
structure Consistent (held : P → List Λ) (threads : Threads ι Λ σ P) : Prop where
  holder : ∀ lock thread, threads.holder lock = some thread ↔ lock ∈ threads.mine held thread
  nodup : ∀ thread, (threads.mine held thread).Nodup

section Holding

variable {enter : E → P} {code : P → Instruction Λ σ χ P} {held : P → List Λ}
  {threads threads' : Threads ι Λ σ P} {thread : ι}

omit [DecidableEq ι] [DecidableEq Λ] in
theorem consistent_initial (shared : σ) : Consistent held (initial shared : Threads ι Λ σ P) := by
  constructor <;> simp [mine, initial]

section Changes

variable (h : Consistent held threads)
  (hothers : ∀ other ≠ thread, threads'.mine held other = threads.mine held other)

include h hothers

omit [DecidableEq ι] [DecidableEq Λ] in
theorem Consistent.keep (hholder : threads'.holder = threads.holder)
    (hmine : threads'.mine held thread = threads.mine held thread) : Consistent held threads' := by
  have hall : ∀ other, threads'.mine held other = threads.mine held other := by
    intro other
    by_cases hother : other = thread
    · rw [hother, hmine]
    · exact hothers other hother
  exact ⟨fun lock other => by rw [hholder, hall, h.holder], fun other => by rw [hall]; exact h.nodup other⟩

variable {lock : Λ}

omit [DecidableEq ι] in
theorem Consistent.take (hfree : threads.holder lock = none)
    (hholder : threads'.holder = update threads.holder lock (some thread))
    (hmine : threads'.mine held thread = lock :: threads.mine held thread) :
    Consistent held threads' := by
  have hnobody : ∀ other, lock ∉ threads.mine held other := by
    intro other hmem
    rw [(h.holder lock other).mpr hmem] at hfree
    cases hfree
  constructor
  · intro lock' other
    rw [hholder]
    by_cases hother : other = thread
    · subst hother
      rw [hmine, List.mem_cons]
      by_cases hlock : lock' = lock
      · simp [hlock]
      · rw [update_of_ne hlock, h.holder]
        simp [hlock]
    · rw [hothers other hother]
      by_cases hlock : lock' = lock
      · subst hlock
        rw [update_self]
        exact ⟨fun heq => absurd (Option.some.inj heq).symm hother, fun hmem => absurd hmem (hnobody other)⟩
      · rw [update_of_ne hlock, h.holder]
  · intro other
    by_cases hother : other = thread
    · subst hother
      rw [hmine]
      exact List.nodup_cons.mpr ⟨hnobody other, h.nodup other⟩
    · rw [hothers other hother]
      exact h.nodup other

omit [DecidableEq ι] in
theorem Consistent.give (hholder : threads'.holder = update threads.holder lock none)
    (hmine : threads.mine held thread = lock :: threads'.mine held thread) :
    Consistent held threads' := by
  have hnodup := h.nodup thread
  rw [hmine, List.nodup_cons] at hnodup
  have hown : threads.holder lock = some thread := (h.holder lock thread).mpr (by simp [hmine])
  constructor
  · intro lock' other
    rw [hholder]
    by_cases hlock : lock' = lock
    · subst hlock
      rw [update_self]
      simp only [reduceCtorEq, false_iff]
      intro hmem
      by_cases hother : other = thread
      · subst hother
        exact hnodup.1 hmem
      · rw [hothers other hother, ← h.holder, hown] at hmem
        exact hother (Option.some.inj hmem).symm
    · rw [update_of_ne hlock, h.holder]
      by_cases hother : other = thread
      · subst hother
        simp [hmine, hlock]
      · rw [hothers other hother]
  · intro other
    by_cases hother : other = thread
    · subst hother
      exact hnodup.2
    · rw [hothers other hother]
      exact h.nodup other

end Changes

omit [DecidableEq Λ] in
theorem mine_move (place : Option P) :
    (threads.move thread place).mine held thread = place.elim [] held := by
  simp only [mine, move, update_self]

omit [DecidableEq Λ] in
theorem mine_move_of_ne (place : Option P) {other : ι} (hother : other ≠ thread) :
    (threads.move thread place).mine held other = threads.mine held other := by
  simp only [mine, move, update_of_ne hother]

section

variable (hdiscipline : Discipline enter code held)
include hdiscipline

theorem consistent_advance (h : Consistent held threads)
    {place : P} (hplace : threads.place thread = some place) (choice : χ) :
    Consistent held (threads.advance thread choice (code place)) := by
  have hmine : threads.mine held thread = held place := by rw [mine, hplace, Option.elim_some]
  cases hcode : code place with
  | acquire lock next =>
    by_cases hfree : threads.holder lock = none
    · simp only [advance, if_pos hfree]
      refine h.take (fun other hother => mine_move_of_ne (some next) hother) hfree rfl ?_
      rw [hmine, ← hdiscipline.acquire place lock next hcode]
      exact mine_move (some next)
    · simpa only [advance, if_neg hfree] using h
  | release lock next =>
    refine h.give (fun other hother => mine_move_of_ne (some next) hother) rfl ?_
    rw [hmine, hdiscipline.release place lock next hcode]
    exact congrArg (lock :: ·) (mine_move (some next)).symm
  | act perform =>
    refine h.keep (fun other hother => mine_move_of_ne _ hother) rfl ?_
    rw [hmine, ← hdiscipline.act place perform hcode choice threads.shared]
    exact mine_move _
  | finish =>
    refine h.keep (fun other hother => mine_move_of_ne none hother) rfl ?_
    rw [hmine, hdiscipline.finish place hcode]
    exact mine_move none

theorem consistent_step (h : Consistent held threads)
    (action : Schedule ι χ E) : Consistent held (threads.step enter code action) := by
  cases action with
  | start thread call =>
    simp only [step]
    by_cases hidle : threads.place thread = none
    · rw [if_pos hidle]
      refine h.keep (fun other hother => mine_move_of_ne _ hother) rfl ?_
      rw [mine_move, mine, hidle, Option.elim_some, Option.elim_none, hdiscipline.enter call]
    · rwa [if_neg hidle]
  | go thread choice =>
    simp only [step]
    cases hplace : threads.place thread with
    | none => exact h
    | some place => exact consistent_advance hdiscipline h hplace choice

theorem consistent_of_run (shared : σ) (schedule : List (Schedule ι χ E)) :
    Consistent held (run (step enter code) (initial shared : Threads ι Λ σ P) schedule) :=
  invariant_run_of_step (step enter code) (Consistent held)
    (fun _ action h => consistent_step hdiscipline h action) (consistent_initial shared) schedule

end

section

variable (code : P → Instruction Λ σ χ P) (threads : Threads ι Λ σ P)

/-- The thread waits for the lock. -/
def Waits (thread : ι) (lock : Λ) : Prop :=
  ∃ place next, threads.place thread = some place ∧ code place = .acquire lock next

/-- Each thread of a set waits for a lock that a thread of the set holds. -/
def Deadlocked : Prop := ∃ stuck : Set ι, stuck.Nonempty ∧ ∀ thread ∈ stuck,
    ∃ lock, threads.Waits code thread lock ∧ ∃ other ∈ stuck, threads.holder lock = some other

end

omit [DecidableEq ι] [DecidableEq Λ] in
/-- Locks that are taken in one order do not lead to a deadlock. -/
theorem not_deadlocked_of_ordered {κ : Type} [LinearOrder κ] [Finite ι] (rank : Λ → κ)
    (hconsistent : Consistent held threads)
    (hordered : ∀ thread place lock next, threads.place thread = some place →
      code place = .acquire lock next → ∀ mine ∈ held place, rank mine < rank lock) :
    ¬ threads.Deadlocked code := by
  rintro ⟨stuck, hnonempty, hstuck⟩
  have hlock : Nonempty Λ := by
    obtain ⟨thread, hthread⟩ := hnonempty
    obtain ⟨lock, -⟩ := hstuck thread hthread
    exact ⟨lock⟩
  choose! wanted hwaits using hstuck
  -- the thread of the set that waits for the highest lock
  obtain ⟨last, hlast, hhighest⟩ :=
    Set.exists_max_image stuck (fun thread => rank (wanted thread)) (Set.toFinite stuck) hnonempty
  obtain ⟨-, other, hother, hholder⟩ := hwaits last hlast
  obtain ⟨⟨place, next, hplace, hcode⟩, -⟩ := hwaits other hother
  have hheld := (hconsistent.holder (wanted last) other).mp hholder
  rw [mine, hplace] at hheld
  exact absurd (hhighest other hother)
    (not_le.mpr (hordered other place _ next hplace hcode _ hheld))

end Holding

end Threads

end OpenXJ380.Protocol
