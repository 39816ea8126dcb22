/-
# Deadlocks of Unix sockets

A function that holds the lock of a socket may wait for the lock of another one: the peer,
or the socket that a path leads to. The table of paths is taken last. As long as no thread
comes to wait for a socket whose holder waits for a second one in its turn, no set of threads
is deadlocked, however many threads wait for other sockets.

Nothing in the functions ensures this. A socket that is bound to a path and connects to
the same path finds itself, and waits for the lock it holds. Two threads that poll or close
the two ends of a connection wait for each other.
-/

import OpenXJ380.Unix.Model

namespace OpenXJ380.Unix

open Protocol

/-- The functions and their arguments. -/
inductive Call
  | create (type : SockType)
  | pair (type : SockType)
  | bind (sk : SockId) (name : Option Name)
  | connect (sk : SockId) (name : Option Name)
  | listen (sk : SockId)
  | accept (sk : SockId)
  | read (sk : SockId) (size : Nat)
  | write (sk : SockId) (size : Nat)
  | sendto (sk : SockId) (address : Option (Option Name)) (size : Nat)
  | recvfrom (sk : SockId)
  | poll (sk : SockId)
  | close (sk : SockId)
  deriving DecidableEq, Repr

def Call.enter : Call → Place
  | .create type => .create type
  | .pair type => .pair type
  | .bind sk name => .bind sk name
  | .connect sk name => .connect sk name
  | .listen sk => .listen sk
  | .accept sk => .accept sk
  | .read sk size => .read sk size
  | .write sk size => .write sk size
  | .sendto sk address size => .sendto sk address size
  | .recvfrom sk => .recvWait sk
  | .poll sk => .poll sk
  | .close sk => .close sk

theorem held_resume (caller : Caller) (found : Option SockId) :
    held (caller.resume found) = caller.held := by
  cases caller <;> cases found <;> rfl

theorem held_lookupStep (net : Net) (caller : Caller) (name : Name) :
    held (lookupStep net caller name).2 = .names :: caller.held := by
  unfold lookupStep
  split <;> rfl

theorem code_discipline : Threads.Discipline Call.enter code held where
  enter call := by cases call <;> rfl
  acquire place lock next hcode := by
    cases place <;> simp only [code, reduceCtorEq] at hcode
    all_goals
      obtain ⟨rfl, rfl⟩ := Instruction.acquire.inj hcode
      rfl
  release place lock next hcode := by
    cases place <;> simp only [code, reduceCtorEq] at hcode
    all_goals
      obtain ⟨rfl, rfl⟩ := Instruction.release.inj hcode
      first
        | rfl
        | rw [held_resume]; rfl
  act place perform hcode choice net := by
    cases place <;> simp only [code, reduceCtorEq] at hcode
    all_goals obtain rfl := Instruction.act.inj hcode
    case lookup caller =>
      dsimp only
      split
      · exact held_resume caller none
      · rfl
    case lookupLocked caller => exact held_lookupStep net caller caller.name
    all_goals
      dsimp only [createStep, pairStep, bindStep, connectStep, connectBothStep, listenStep, acceptStep,
        acceptLoopStep, acceptRecheckStep, streamStep, recvStep, writeStep, writeLoopStep,
        sendtoStep, sendAllocStep, closeStep, closeNameStep, closeTestStep, freeStep, freeChildStep]
      repeat' split
      all_goals rfl
  finish place hcode := by
    cases place <;> simp only [code, reduceCtorEq] at hcode
    rfl

/-- The socket whose lock a thread holds while it waits for that of another. -/
def Place.second : Place → Option (SockId × SockId)
  | .connectWait sk other | .pollPeerWait sk other | .closePeerWait sk other
  | .freePeerWait _ _ sk other => some (sk, other)
  | _ => none

/-- The second socket that a thread turns to with its next step, with the one that it holds: what
the path of a connection led to, or the peer. -/
def Place.target (net : Net) : Place → Option (SockId × SockId)
  | .lookupRelease (.connect sk _) (some listener) => some (sk, listener)
  | .pollLocked sk | .closeLocked sk | .freeLocked _ _ sk => (net.sock sk).peer.map (sk, ·)
  | _ => none

theorem second_enter (call : Call) : call.enter.second = none := by cases call <;> rfl

variable {place next : Place} {lock : Lock}

theorem second_acquire (hcode : code place = .acquire lock next) : next.second = none := by
  cases place <;> simp only [code, reduceCtorEq] at hcode
  all_goals
    obtain ⟨-, rfl⟩ := Instruction.acquire.inj hcode
    rfl

theorem second_release (hcode : code place = .release lock next) (net : Net) :
    next.second = place.target net := by
  cases place <;> simp only [code, reduceCtorEq] at hcode
  all_goals obtain ⟨-, rfl⟩ := Instruction.release.inj hcode
  case lookupRelease caller found => cases caller <;> cases found <;> rfl
  all_goals rfl

theorem second_act {perform : Supply → Net → Net × Place} (hcode : code place = .act perform)
    (supply : Supply) (net : Net) : (perform supply net).2.second = place.target net := by
  cases place <;> simp only [code, reduceCtorEq] at hcode
  all_goals obtain rfl := Instruction.act.inj hcode
  case lookup caller =>
    dsimp only
    split
    · cases caller <;> rfl
    · rfl
  case lookupLocked caller =>
    dsimp only [lookupStep]
    split <;> cases caller <;> rfl
  case closeLocked sk =>
    have hsame : ((net.modify sk fun sock => { sock with closed := true }).sock sk).peer =
        (net.sock sk).peer := by simp [Net.modify_sock]
    dsimp only [closeStep, Place.target]
    rw [hsame]
    cases (net.sock sk).peer <;> rfl
  case freeLocked outer sk child =>
    dsimp only [freeChildStep, Place.target]
    cases (net.sock child).peer <;> rfl
  case pollLocked sk =>
    dsimp only [Place.target]
    cases (net.sock sk).peer <;> rfl
  all_goals
    dsimp only [createStep, pairStep, bindStep, connectStep, connectBothStep, listenStep, acceptStep,
      acceptLoopStep, acceptRecheckStep, streamStep, recvStep, writeStep, writeLoopStep,
      sendtoStep, sendAllocStep, closeNameStep, closeTestStep, freeStep]
    repeat' split
    all_goals rfl

section Runs

variable {ι : Type} [DecidableEq ι]

abbrev Machine (ι : Type) := Threads ι Lock Net Place

abbrev Machine.step (machine : Machine ι) (action : Schedule ι Supply Call) : Machine ι :=
  Threads.step Call.enter code machine action

/-- The threads that wait for a second socket. -/
def Machine.second (machine : Machine ι) (thread : ι) : Option (SockId × SockId) :=
  (machine.place thread).bind Place.second

/-- A thread turns to a second socket only if it does not hold it itself, no thread that waits for
another one holds it, and no thread waits for the one that it holds. -/
def Machine.Apart (machine : Machine ι) : Schedule ι Supply Call → Prop
  | .start _ _ => True
  | .go thread _ => ∀ pair ∈ (machine.place thread).bind (·.target machine.shared), pair.1 ≠ pair.2 ∧
      ∀ other, ∀ waiting ∈ machine.second other, waiting.1 ≠ pair.2 ∧ waiting.2 ≠ pair.1

instance [Fintype ι] (machine : Machine ι) : ∀ action, Decidable (machine.Apart action)
  | .start _ _ => isTrue trivial
  | .go _ _ => inferInstanceAs (Decidable (∀ _ ∈ _, _ ∧ ∀ _, ∀ _ ∈ _, _ ∧ _))

/-- What a thread waits for is held by none of the threads that wait for a second socket. -/
def Machine.Unchained (machine : Machine ι) : Prop := ∀ thread other, ∀ pair ∈ machine.second thread,
    ∀ waiting ∈ machine.second other, pair.2 ≠ waiting.1

variable {machine : Machine ι}

/-- One thread moves to another place and the others stay. -/
theorem Machine.Unchained.move {machine' : Machine ι} (h : machine.Unchained) {thread : ι}
    {place' : Option Place} (hplace : machine'.place = Function.update machine.place thread place')
    (hnext : ∀ pair ∈ place'.bind Place.second, pair.1 ≠ pair.2 ∧
      ∀ other, ∀ waiting ∈ machine.second other, waiting.1 ≠ pair.2 ∧ waiting.2 ≠ pair.1) :
    machine'.Unchained := by
  have hsecond : ∀ other, machine'.second other =
      if other = thread then place'.bind Place.second else machine.second other := by
    intro other
    rw [Machine.second, hplace, Function.update_apply]
    split <;> rfl
  intro first other pair hpair waiting hwaiting
  rw [hsecond] at hpair hwaiting
  split at hpair
  · split at hwaiting
    · obtain rfl := Option.mem_unique hpair hwaiting
      exact (hnext pair hpair).1.symm
    · exact ((hnext pair hpair).2 other waiting hwaiting).1.symm
  · split at hwaiting
    · exact ((hnext waiting hwaiting).2 first pair hpair).2
    · exact h first other pair hpair waiting hwaiting

theorem unchained_step (action : Schedule ι Supply Call) (hapart : machine.Apart action)
    (h : machine.Unchained) : (machine.step action).Unchained := by
  cases action with
  | start thread call =>
    simp only [Threads.step]
    split
    · exact h.move rfl (by simp [second_enter])
    · exact h
  | go thread supply =>
    simp only [Threads.step]
    split
    next => exact h
    next place hplace =>
      simp only [Machine.Apart, hplace, Option.bind_some] at hapart
      cases hcode : code place with
      | acquire lock next =>
        simp only [Threads.advance]
        split
        · exact h.move rfl (by simp [second_acquire hcode])
        · exact h
      | release lock next =>
        refine h.move rfl fun pair hpair => hapart pair ?_
        rwa [← second_release hcode machine.shared]
      | act perform =>
        refine h.move rfl fun pair hpair => hapart pair ?_
        rwa [← second_act hcode supply machine.shared]
      | finish => exact h.move rfl (by simp)

open Classical in
/-- The order of the locks: the sockets of the threads that wait for a second one come first. -/
noncomputable def Machine.rank (machine : Machine ι) : Lock → Nat
  | .sock sk => if ∃ thread, ∃ pair ∈ machine.second thread, pair.1 = sk then 0 else 1
  | .names => 2

/-- A place that waits for a lock while it holds others. -/
theorem waits_cases {place next : Place} {lock mine : Lock} (hcode : code place = .acquire lock next)
    (hmine : mine ∈ held place) :
    (∃ sk, lock = .names ∧ mine = .sock sk) ∨
      ∃ sk other, place.second = some (sk, other) ∧ lock = .sock other ∧ mine = .sock sk := by
  cases place <;> simp only [code, reduceCtorEq] at hcode
  all_goals obtain ⟨rfl, -⟩ := Instruction.acquire.inj hcode
  case lookupWait caller =>
    cases caller <;> simp only [held, Caller.held, List.mem_singleton, List.not_mem_nil] at hmine
    all_goals exact .inl ⟨_, rfl, hmine⟩
  all_goals simp only [held, List.mem_singleton, List.not_mem_nil] at hmine
  all_goals first
    | exact .inl ⟨_, rfl, hmine⟩
    | exact .inr ⟨_, _, rfl, rfl, hmine⟩

/-- **No set of threads is deadlocked**, as long as the threads that wait for a second socket keep
out of each other's way. -/
theorem no_deadlock [Finite ι] (schedule : List (Schedule ι Supply Call))
    (hapart : Along Machine.step Machine.Apart (Threads.initial .empty : Machine ι) schedule) :
    ¬ (run Machine.step (Threads.initial .empty : Machine ι) schedule).Deadlocked code := by
  have hunchained : (run Machine.step (Threads.initial .empty : Machine ι) schedule).Unchained :=
    invariant_run Machine.step Machine.Unchained (fun _ action hguard h => unchained_step action hguard h)
      hapart (by simp [Machine.Unchained, Machine.second, Threads.initial])
  have hconsistent : Threads.Consistent held (run Machine.step (Threads.initial .empty : Machine ι) schedule) :=
    Threads.consistent_of_run code_discipline .empty schedule
  generalize run Machine.step (Threads.initial .empty : Machine ι) schedule = machine at *
  refine Threads.not_deadlocked_of_ordered machine.rank hconsistent ?_
  intro thread place lock next hplace hcode mine hmine
  rcases waits_cases hcode hmine with ⟨held, rfl, rfl⟩ | ⟨sk, other, hsecond, rfl, rfl⟩
  · simp only [Machine.rank]
    split <;> omega
  · have hpair : (sk, other) ∈ machine.second thread := by simp [Machine.second, hplace, hsecond]
    have hfree : ¬∃ thread, ∃ pair ∈ machine.second thread, pair.1 = other := by
      rintro ⟨holder, pair, hholds, rfl⟩
      exact hunchained thread holder _ hpair pair hholds rfl
    rw [Machine.rank, Machine.rank, if_pos ⟨thread, _, hpair, rfl⟩, if_neg hfree]
    exact Nat.zero_lt_one

end Runs

/-- Two threads poll an end of two pairs, each while it waits for the other end. -/
def pollingTwoPairs : List (Schedule Bool Supply Call) :=
  [.start true (.pair .stream), .go true .plenty, .go true .plenty,
    .start false (.pair .stream), .go false .plenty, .go false .plenty,
    .start true (.poll 0), .go true .plenty, .go true .plenty,
    .start false (.poll 2), .go false .plenty, .go false .plenty]

/-- Each thread holds a lock and waits for another, and there is no deadlock. -/
theorem no_deadlock_pollingTwoPairs :
    (run Machine.step (Threads.initial .empty : Machine Bool) pollingTwoPairs).place true =
        some (.pollPeerWait 0 1) ∧
      (run Machine.step (Threads.initial .empty : Machine Bool) pollingTwoPairs).place false =
        some (.pollPeerWait 2 3) ∧
      ¬ (run Machine.step (Threads.initial .empty : Machine Bool) pollingTwoPairs).Deadlocked code :=
  ⟨by decide, by decide, no_deadlock pollingTwoPairs (by decide)⟩

/-- A socket that is bound to a path and then connects to it. -/
def selfConnect : List (Schedule Unit Supply Call) :=
  [.start () (.create .stream)] ++ List.replicate 2 (.go () .plenty) ++
    [.start () (.bind 0 (some [0x78]))] ++ List.replicate 9 (.go () .plenty) ++
    [.start () (.connect 0 (some [0x78]))] ++ List.replicate 6 (.go () .plenty)

/-- The thread waits for the lock that it holds itself. -/
theorem self_connect_deadlocks :
    (run Machine.step (Threads.initial .empty : Machine Unit) selfConnect).Deadlocked code := by
  have hwaits : (run Machine.step (Threads.initial .empty : Machine Unit) selfConnect).place () =
        some (.connectWait 0 0) ∧
      (run Machine.step (Threads.initial .empty : Machine Unit) selfConnect).holder (.sock 0) =
        some () := by decide
  refine ⟨{()}, Set.singleton_nonempty (), ?_⟩
  rintro thread rfl
  exact ⟨.sock 0, ⟨_, _, hwaits.1, rfl⟩, (), rfl, hwaits.2⟩

end OpenXJ380.Unix
