/-
# No capture while a process is secret

While a thread that can still run is between the beginning of a capture and its end, it owns
the gate, and no process has the flag of a secret one. A raw mapping is registered during a
capture only, and a process becomes secret only while nothing is mapped. So no two processes
ever have the two flags.

The flag of a process is taken away only after the process has stopped for good.
-/

import OpenXJ380.Capture.Registry
import OpenXJ380.Task.Exclusion

namespace OpenXJ380.Capture

open OpenXJ380.Task (Mutex)
open Function Protocol

variable {τ π : Type} [DecidableEq τ] [DecidableEq π]

/-- The thread has taken the gate and not given it back. -/
def Position.holds : Position → Bool
  | .held _ | .leave _ | .capturing | .mapping => true
  | _ => false

/-- The thread is between a successful beginning and the end of a capture. -/
def Position.captures : Position → Bool
  | .capturing | .mapping => true
  | _ => false

namespace System

variable {system system' : System τ π} {group : τ → π} {thread : τ}

/-- What the scheduler and the teardown of processes see to. -/
structure Scheduled (group : τ → π) (system : System τ π) : Prop where
  settled : ∀ process, system.stoppedProcess process → system.halted process
  running : ∀ thread, system.current thread → thread ∈ system.threads (group thread) ∧
    system.stage (group thread) = .published ∧ system.halted (group thread) = false
  exiting : ∀ process phase, system.exit process = some phase →
    system.halted process ∨ phase = .waiting ∧ system.terminal process

/-- The fields that only the scheduler and the teardown of processes change. -/
structure SameSchedule (system system' : System τ π) : Prop where
  threads : system'.threads = system.threads
  current : system'.current = system.current
  selected : system'.selected = system.selected
  dead : system'.dead = system.dead
  terminal : system'.terminal = system.terminal
  stage : system'.stage = system.stage
  exit : system'.exit = system.exit
  halted : system'.halted = system.halted

omit [DecidableEq τ] [DecidableEq π] in
theorem SameSchedule.refl (system : System τ π) : SameSchedule system system :=
  ⟨rfl, rfl, rfl, rfl, rfl, rfl, rfl, rfl⟩

section

variable (h : SameSchedule system system')
include h

omit [DecidableEq τ] [DecidableEq π] in
theorem SameSchedule.stopped : system'.stopped = system.stopped := by
  funext thread
  simp only [System.stopped, h.dead, h.current, h.selected]

omit [DecidableEq τ] [DecidableEq π] in
theorem SameSchedule.stoppedProcess : system'.stoppedProcess = system.stoppedProcess := by
  funext process
  simp only [System.stoppedProcess, processOnCpu, h.terminal, h.threads, h.current]

omit [DecidableEq τ] [DecidableEq π] in
/-- What holds of the threads is kept by whatever leaves them alone. -/
theorem SameSchedule.scheduled (hscheduled : system.Scheduled group) : system'.Scheduled group := by
  obtain ⟨hsettled, hrunning, hexiting⟩ := hscheduled
  refine ⟨?_, ?_, ?_⟩
  · simpa only [h.stoppedProcess, h.halted] using hsettled
  · simpa only [h.current, h.threads, h.stage, h.halted] using hrunning
  · simpa only [h.exit, h.halted, h.terminal] using hexiting

end

variable {refused allowed : System τ π → System τ π} {position : Position}

omit [DecidableEq τ] in
theorem sameSchedule_checkSection (hrefused : ∀ system, SameSchedule system (refused system))
    (hallowed : ∀ system, SameSchedule system (allowed system)) :
    SameSchedule system (system.checkSection refused allowed) := by
  unfold checkSection
  dsimp only
  split
  · obtain ⟨⟩ := hrefused { system with policy := (system.policy.blocked system.stoppedProcess).2 }
    constructor <;> assumption
  · obtain ⟨⟩ := hallowed { system with policy := (system.policy.blocked system.stoppedProcess).2 }
    constructor <;> assumption

theorem sameSchedule_advance (group : τ → π) (system : System τ π) (thread : τ) (scanned : Bool) :
    SameSchedule system (system.advance group thread scanned) := by
  unfold advance
  split
  case h_3 =>
    exact sameSchedule_checkSection (fun _ => ⟨rfl, rfl, rfl, rfl, rfl, rfl, rfl, rfl⟩)
      (fun _ => ⟨rfl, rfl, rfl, rfl, rfl, rfl, rfl, rfl⟩)
  case h_6 =>
    exact sameSchedule_checkSection (fun _ => ⟨rfl, rfl, rfl, rfl, rfl, rfl, rfl, rfl⟩)
      (fun _ => ⟨rfl, rfl, rfl, rfl, rfl, rfl, rfl, rfl⟩)
  case h_4 =>
    unfold lockSection
    repeat' split
    all_goals exact ⟨rfl, rfl, rfl, rfl, rfl, rfl, rfl, rfl⟩
  all_goals exact ⟨rfl, rfl, rfl, rfl, rfl, rfl, rfl, rfl⟩

/-- What has stopped stays stopped, and a process that has halted stays so. -/
structure Onward (system system' : System τ π) : Prop where
  stopped : ∀ thread, system.stopped thread → system'.stopped thread
  halted : ∀ process, system.halted process → system'.halted process
  stage : ∀ process, system.stage process ≠ .unborn → system'.stage process ≠ .unborn

omit [DecidableEq τ] [DecidableEq π] in
theorem SameSchedule.onward (h : SameSchedule system system') : Onward system system' := by
  refine ⟨?_, ?_, ?_⟩
  · rw [h.stopped]
    exact fun _ => id
  · rw [h.halted]
    exact fun _ => id
  · rw [h.stage]
    exact fun _ => id

omit [DecidableEq τ] [DecidableEq π] in
/-- Processes only move on, and never back. -/
theorem onward_settle (system : System τ π) : Onward system system.settle :=
  ⟨fun _ => id, fun process hhalted => by simp [settle, hhalted], fun _ => id⟩

section

variable (group : τ → π) (system : System τ π)

omit [DecidableEq π] in
theorem sameSchedule_call (thread : τ) (position : Position) :
    SameSchedule system (system.call group thread position) := by
  unfold call
  split
  all_goals exact ⟨rfl, rfl, rfl, rfl, rfl, rfl, rfl, rfl⟩

/-- The actions that are calls of threads. -/
def Action.calls : Action τ π → Bool
  | .setSecret _ | .begin _ | .finish _ | .registerMapping _ | .advance _ _ => true
  | _ => false

variable (action : Action τ π)

theorem sameSchedule_act
    (hcalls : Action.calls action) : SameSchedule system (system.act group action) := by
  cases action with
  | setSecret thread | begin thread =>
    simp only [act]
    split
    · exact sameSchedule_call group system thread _
    · exact .refl system
  | finish | registerMapping =>
    simp only [act]
    split
    all_goals exact ⟨rfl, rfl, rfl, rfl, rfl, rfl, rfl, rfl⟩
  | advance thread scanned =>
    simp only [act]
    split
    · exact sameSchedule_advance group system thread scanned
    · exact .refl system
  | create | fork | publish | addThread | select | deselect | dispatch | park | kill | terminate
  | claim | exit => exact absurd hcalls (by simp [Action.calls])

theorem onward_act : Onward system (system.act group action) := by
  cases action with
  | setSecret | begin | finish | registerMapping | advance =>
    exact (sameSchedule_act group system _ rfl).onward
  | create child | publish child =>
    simp only [act]
    split
    · refine ⟨fun _ => id, fun _ => id, fun process hstage => ?_⟩
      by_cases hprocess : process = child <;> simp [create, hprocess, hstage]
    · exact (SameSchedule.refl system).onward
  | fork thread child =>
    simp only [act]
    split
    · refine ⟨fun _ => id, fun _ => id, fun process hstage => ?_⟩
      by_cases hprocess : process = child <;> simp [fork, create, hprocess, hstage]
    · exact (SameSchedule.refl system).onward
  | addThread | terminate => exact ⟨fun _ => id, fun _ => id, fun _ => id⟩
  | select thread =>
    simp only [act]
    split
    · exact (SameSchedule.refl system).onward
    · refine ⟨fun other hstopped => ?_, fun _ => id, fun _ => id⟩
      by_cases hother : other = thread
      · simp_all [System.stopped]
      · simpa [System.stopped, hother] using hstopped
  | dispatch thread =>
    simp only [act]
    split
    · refine ⟨fun other hstopped => ?_, fun _ => id, fun _ => id⟩
      by_cases hother : other = thread
      · simp_all [System.stopped]
      · simpa [System.stopped, hother] using hstopped
    · exact (SameSchedule.refl system).onward
  | deselect thread | park thread | kill thread =>
    refine ⟨fun other hstopped => ?_, fun _ => id, fun _ => id⟩
    by_cases hother : other = thread
    · simp_all [act, System.stopped]
    · simpa [act, System.stopped, hother] using hstopped
  | claim process =>
    simp only [act]
    split
    all_goals exact ⟨fun _ => id, fun _ => id, fun _ => id⟩
  | exit process scanned =>
    refine ⟨fun other hstopped => ?_, fun other hhalted => ?_, fun other hstage => ?_⟩
    all_goals
      simp only [act, exitStep]
      repeat' split
    all_goals first
      | assumption
      | exact hstopped
      | simp only [update_apply]; split <;> simp_all

end

omit [DecidableEq τ] [DecidableEq π] in
theorem scheduled_settle (hrunning : ∀ thread, system.current thread →
      thread ∈ system.threads (group thread) ∧ system.stage (group thread) = .published ∧
        system.halted (group thread) = false)
    (hexiting : ∀ process phase, system.exit process = some phase →
      system.halted process ∨ phase = .waiting ∧ system.terminal process) :
    system.settle.Scheduled group := by
  refine ⟨fun process hstopped => ?_, fun thread hcurrent => ?_, fun process phase hexit => ?_⟩
  · have hstopped : system.stoppedProcess process := hstopped
    simp [settle, hstopped]
  · obtain ⟨hmem, hstage, hhalted⟩ := hrunning thread hcurrent
    refine ⟨hmem, hstage, ?_⟩
    have honcpu : system.processOnCpu (group thread) = true := List.any_eq_true.mpr ⟨thread, hmem, hcurrent⟩
    simp [settle, hhalted, stoppedProcess, honcpu]
  · refine (hexiting process phase hexit).imp_left fun hhalted => ?_
    simp [settle, hhalted]

omit [DecidableEq τ] [DecidableEq π] in
theorem Scheduled.settle (h : system.Scheduled group) : system.settle.Scheduled group :=
  scheduled_settle h.running h.exiting

variable {child process : π}

section

variable (h : system.Scheduled group)
include h

omit [DecidableEq τ] in
theorem Scheduled.create (hstage : system.stage child = .unborn)
    (hsame : SameSchedule (system.create child) system') : system'.settle.Scheduled group := by
  refine (hsame.scheduled ⟨h.settled, fun thread hcurrent => ?_, h.exiting⟩).settle
  obtain ⟨hmem, hpublished, hhalted⟩ := h.running thread hcurrent
  refine ⟨hmem, ?_, hhalted⟩
  have hother : group thread ≠ child := by
    rintro rfl
    rw [hstage] at hpublished
    cases hpublished
  simpa [System.create, hother] using hpublished

omit [DecidableEq τ] in
/-- A step of an exit takes threads away and adds none. -/
theorem scheduled_exitStep (process : π) (scanned : Bool) :
    (system.exitStep group process scanned).settle.Scheduled group := by
  have hphase : ∀ (phase : Exit) (halted' : π → Bool), (∀ other, system.halted other → halted' other) →
      (halted' process ∨ phase = .waiting ∧ system.terminal process) →
      ∀ other phase', update system.exit process (some phase) other = some phase' →
        halted' other ∨ phase' = .waiting ∧ system.terminal other := by
    intro phase halted' hmono hnew other phase' hexit
    rw [update_apply] at hexit
    split at hexit
    next hother =>
      subst hother
      rwa [← Option.some.inj hexit]
    next => exact (h.exiting other phase' hexit).imp_left (hmono other)
  unfold exitStep
  split
  next hexit =>
    split
    next hcreated =>
      refine scheduled_settle (fun thread hcurrent => ?_) (hphase _ _ (fun other hother => ?_) (.inl ?_))
      · obtain ⟨hmem, hpublished, hhalted⟩ := h.running thread hcurrent
        refine ⟨hmem, hpublished, ?_⟩
        have hother : group thread ≠ process := by
          rintro rfl
          rw [hcreated] at hpublished
          cases hpublished
        simpa [hother] using hhalted
      · by_cases heq : other = process <;> simp [heq, hother]
      · simp
    next =>
      split
      next hterminal =>
        exact scheduled_settle h.running (hphase _ _ (fun _ => id) (.inr ⟨rfl, hterminal.2⟩))
      next => exact h.settle
  next hexit =>
    split
    next => exact h.settle
    next honcpu =>
      refine scheduled_settle h.running (hphase _ _ (fun _ => id) (.inl ?_))
      rcases h.exiting process _ hexit with hhalted | ⟨-, hterminal⟩
      · exact hhalted
      · exact h.settled process (by simp [stoppedProcess, hterminal, honcpu])
  case h_5 => exact h.settle
  all_goals
    refine scheduled_settle h.running (hphase _ _ (fun _ => id) (.inl ?_))
    exact (h.exiting process _ ‹_›).resolve_right (by simp)

/-- No step lets a thread of an unborn or halted process run. -/
theorem scheduled_step (action : Action τ π) : (system.step group action).Scheduled group := by
  unfold step
  cases action with
  | setSecret | begin | finish | registerMapping | advance =>
    exact ((sameSchedule_act group system _ rfl).scheduled h).settle
  | create child =>
    simp only [act]
    split
    next hstage => exact h.create hstage (.refl _)
    next => exact h.settle
  | fork thread child =>
    simp only [act]
    split
    next hstage => exact h.create hstage.2 ⟨rfl, rfl, rfl, rfl, rfl, rfl, rfl, rfl⟩
    next => exact h.settle
  | publish child =>
    simp only [act]
    split
    next =>
      refine scheduled_settle (fun thread hcurrent => ?_) h.exiting
      obtain ⟨hmem, hpublished, hhalted⟩ := h.running thread hcurrent
      refine ⟨hmem, ?_, hhalted⟩
      by_cases hgroup : group thread = child <;> simp [hgroup, ← hpublished]
    next => exact h.settle
  | addThread thread =>
    refine scheduled_settle (fun other hcurrent => ?_) h.exiting
    obtain ⟨hmem, hpublished, hhalted⟩ := h.running other hcurrent
    refine ⟨?_, hpublished, hhalted⟩
    by_cases hgroup : group other = group thread
    · simp only [act, hgroup, update_self]
      exact List.mem_cons_of_mem _ (hgroup ▸ hmem)
    · simpa [act, hgroup] using hmem
  | select thread =>
    simp only [act]
    split
    all_goals exact scheduled_settle h.running h.exiting
  | deselect | kill => exact scheduled_settle h.running h.exiting
  | dispatch thread =>
    simp only [act]
    split
    next hallowed =>
      refine scheduled_settle (fun other hcurrent => ?_) h.exiting
      by_cases hother : other = thread
      · subst hother
        exact ⟨hallowed.2.1, hallowed.2.2.1, by simpa using hallowed.2.2.2⟩
      · exact h.running other (by simpa [hother] using hcurrent)
    next => exact h.settle
  | park thread =>
    refine scheduled_settle (fun other hcurrent => ?_) h.exiting
    by_cases hother : other = thread
    · simp [act, hother] at hcurrent
    · exact h.running other (by simpa [act, hother] using hcurrent)
  | terminate process =>
    refine scheduled_settle h.running fun other phase hexit => ?_
    refine (h.exiting other phase hexit).imp_right fun hwaiting => ⟨hwaiting.1, ?_⟩
    by_cases hother : other = process <;> simp [act, hother, ← hwaiting.2]
  | claim process =>
    simp only [act]
    split
    next hnone =>
      refine scheduled_settle h.running fun other phase hexit => ?_
      have hother : other ≠ process := by
        rintro rfl
        rw [hnone] at hexit
        cases hexit
      refine (h.exiting other phase hexit).imp_right fun hwaiting => ⟨hwaiting.1, ?_⟩
      simpa [hother] using hwaiting.2
    next => exact h.settle
  | exit process scanned => exact scheduled_exitStep h process scanned

end

/-- Whoever has taken the gate and can still run owns it. -/
structure Gated (system : System τ π) : Prop where
  plain : system.gate.recursive = false
  owner : ∀ thread, system.gate.owner = some thread →
    system.gate.state = .locked ∧ system.gate.rcc = 1 ∧ (system.position thread).holds
  holder : ∀ thread, (system.position thread).holds →
    system.gate.owner = some thread ∨ system.stopped thread

omit [DecidableEq τ] [DecidableEq π] in
/-- The gate is kept while nobody moves at it. -/
theorem Gated.onward (h : system.Gated) (honward : Onward system system')
    (hgate : system'.gate = system.gate) (hposition : system'.position = system.position) :
    system'.Gated := by
  obtain ⟨hplain, howner, hholder⟩ := h
  refine ⟨hgate ▸ hplain, ?_, fun thread hholds => ?_⟩
  · rwa [hgate, hposition]
  · rw [hgate]
    exact (hholder thread (hposition ▸ hholds)).imp_right (honward.stopped thread)

omit [DecidableEq τ] [DecidableEq π] in
theorem stopped_eq_false (hcurrent : system.current thread) : system.stopped thread = false := by
  simp [System.stopped, hcurrent]

section

variable (h : system.Gated)
include h

omit [DecidableEq τ] [DecidableEq π] in
/-- A running thread inside the gate owns it. -/
theorem Gated.owner_eq (hcurrent : system.current thread)
    (hholds : (system.position thread).holds) : system.gate.owner = some thread := by
  rcases h.holder thread hholds with howner | hstopped
  · exact howner
  · rw [stopped_eq_false hcurrent] at hstopped
    cases hstopped

section

variable (honward : Onward system system')
include honward

omit [DecidableEq π] in
theorem Gated.move (hgate : system'.gate = system.gate)
    (hposition : system'.position = update system.position thread position)
    (hholds : position.holds = (system.position thread).holds) : system'.Gated := by
  have hall : ∀ other, (system'.position other).holds = (system.position other).holds := by
    intro other
    rw [hposition, update_apply]
    split
    next hother => rw [hother, hholds]
    next => rfl
  refine ⟨hgate ▸ h.plain, fun other hother => ?_, fun other hother => ?_⟩
  · rw [hgate] at hother ⊢
    rw [hall]
    exact h.owner other hother
  · rw [hgate]
    rw [hall] at hother
    exact (h.holder other hother).imp_right (honward.stopped other)

omit [DecidableEq π] in
/-- The gate is taken when it is free or its owner has stopped. -/
theorem Gated.take (hfree : ∀ owner, system.gate.owner = some owner → system.stopped owner)
    (hgate : system'.gate = { system.gate with state := .locked, owner := some thread, rcc := 1 })
    (hposition : system'.position = update system.position thread position)
    (hholds : position.holds) : system'.Gated := by
  refine ⟨by rw [hgate]; exact h.plain, fun other hother => ?_, fun other hother => ?_⟩
  · rw [hgate] at hother ⊢
    cases hother
    refine ⟨rfl, rfl, ?_⟩
    rw [hposition, update_self]
    exact hholds
  · rw [hgate]
    by_cases heq : other = thread
    · exact .inl (by rw [heq])
    · rw [hposition, update_of_ne heq] at hother
      refine .inr (honward.stopped other ?_)
      rcases h.holder other hother with howner | hstopped
      · exact hfree other howner
      · exact hstopped

omit [DecidableEq π] in
/-- The owner leaves the gate. -/
theorem Gated.give (howner : system.gate.owner = some thread)
    (hgate : system'.gate = { system.gate with state := .unlocked, owner := none, rcc := 0 })
    (hposition : system'.position = update system.position thread position)
    (hholds : position.holds = false) : system'.Gated := by
  refine ⟨by rw [hgate]; exact h.plain, fun other hother => ?_, fun other hother => ?_⟩
  · rw [hgate] at hother
    cases hother
  have heq : other ≠ thread := by
    rintro rfl
    rw [hposition, update_self, hholds] at hother
    cases hother
  rw [hposition, update_of_ne heq] at hother
  refine .inr (honward.stopped other ?_)
  rcases h.holder other hother with hother | hstopped
  · exact absurd (Option.some.inj (howner.symm.trans hother)) heq.symm
  · exact hstopped

end

omit [DecidableEq π] in
theorem Gated.unlock_eq (howner : system.gate.owner = some thread) :
    (system.gate.unlock thread).2 = { system.gate with state := .unlocked, owner := none, rcc := 0 } := by
  obtain ⟨hlocked, hcount, -⟩ := h.owner thread howner
  simp [Mutex.unlock, hlocked, howner, hcount]

omit [DecidableEq π] in
/-- The section that waits for the gate. -/
theorem gated_lockSection {purpose : Purpose} {tried : Bool}
    (hposition : system.position thread = .lock purpose tried) (scanned : Bool) :
    (system.lockSection thread purpose tried scanned).Gated := by
  have hholds : (system.position thread).holds = false := by rw [hposition]; rfl
  have honward : Onward system (system.lockSection thread purpose tried scanned) := by
    refine (SameSchedule.onward ?_)
    unfold lockSection
    repeat' split
    all_goals exact ⟨rfl, rfl, rfl, rfl, rfl, rfl, rfl, rfl⟩
  revert honward
  unfold lockSection
  split
  · rcases system.gate.recover_cases thread (system.ownerHasStopped scanned) with
      hrefused | ⟨owner, hlocked, howner, hanswer, htaken⟩
    · simp only [hrefused]
      intro honward
      exact h.move honward rfl rfl hholds.symm
    · simp only [htaken]
      intro honward
      refine h.take honward (fun other hother => ?_) ?_ rfl rfl
      · obtain rfl := Option.some.inj (howner.symm.trans hother)
        simp only [ownerHasStopped, Bool.and_eq_true, Bool.not_eq_true', Bool.or_eq_false_iff] at hanswer
        simp [System.stopped, hanswer]
      · simp [hlocked]
  · rcases system.gate.trylock_cases thread with
      ⟨error, hrefused⟩ | ⟨hown, -⟩ | ⟨hother, hunlocked, hacquired⟩
    · simp only [hrefused]
      split
      all_goals
        intro honward
        exact h.move honward rfl rfl hholds.symm
    · have hmine := (h.owner thread hown).2.2
      rw [hholds] at hmine
      cases hmine
    · simp only [hacquired]
      intro honward
      refine h.take honward (fun owner howner => ?_) rfl rfl rfl
      rw [(h.owner owner howner).1] at hunlocked
      cases hunlocked

omit [DecidableEq τ] in
theorem gated_checkSection
    (hrefused : ∀ policy, ({ system with policy } : System τ π).Gated → (refused { system with policy }).Gated)
    (hallowed : ∀ policy, ({ system with policy } : System τ π).Gated → (allowed { system with policy }).Gated) :
    (system.checkSection refused allowed).Gated := by
  unfold checkSection
  dsimp only
  have hsame : ∀ policy, ({ system with policy } : System τ π).Gated := fun policy =>
    h.onward ⟨fun _ => id, fun _ => id, fun _ => id⟩ rfl rfl
  split
  · exact hrefused _ (hsame _)
  · exact hallowed _ (hsame _)

theorem gated_advance (hcurrent : system.current thread) (scanned : Bool) :
    (system.advance group thread scanned).Gated := by
  have honward := (sameSchedule_advance group system thread scanned).onward
  revert honward
  unfold advance
  split
  next hposition => exact fun _ => h
  next hposition => exact fun _ => h
  next hposition =>
    have hholds : (system.position thread).holds = false := by rw [hposition]; rfl
    intro _
    refine gated_checkSection h (fun policy hsame => ?_) (fun policy hsame => ?_)
    all_goals exact hsame.move ⟨fun _ => id, fun _ => id, fun _ => id⟩ rfl rfl hholds.symm
  next purpose tried hposition => exact fun _ => gated_lockSection h hposition scanned
  next hposition =>
    intro honward
    exact h.move honward rfl rfl (by rw [hposition]; rfl)
  next hposition =>
    have hholds : (system.position thread).holds = true := by rw [hposition]; rfl
    intro _
    refine gated_checkSection h (fun policy hsame => ?_) (fun policy hsame => ?_)
    all_goals exact hsame.move ⟨fun _ => id, fun _ => id, fun _ => id⟩ rfl rfl hholds.symm
  next result hposition =>
    intro honward
    have howner := h.owner_eq hcurrent (by rw [hposition]; rfl)
    exact h.give honward howner (h.unlock_eq howner) rfl rfl
  next hposition =>
    intro honward
    exact h.move honward rfl rfl (by rw [hposition]; rfl)

end

omit [DecidableEq τ] [DecidableEq π] in
theorem free_iff : system.free thread ↔ system.current thread ∧ system.position thread = .idle := by
  simp [free]

/-- At most one running thread is inside the gate, whatever is done. -/
theorem gated_act (h : system.Gated) (action : Action τ π) : (system.act group action).Gated := by
  have honward := onward_act group system action
  revert honward
  cases action with
  | setSecret thread | begin thread =>
    simp only [act]
    split
    next hfree =>
      have hidle := (free_iff.mp hfree).2
      unfold call
      split
      · exact fun honward => h.move honward rfl rfl (by rw [hidle])
      · exact fun honward => h.move honward rfl rfl (by rw [hidle]; rfl)
    next => exact fun _ => h
  | finish thread =>
    simp only [act]
    split
    next hcapturing =>
      intro honward
      have howner := h.owner_eq hcapturing.1 (by rw [hcapturing.2]; rfl)
      exact h.give honward howner (h.unlock_eq howner) rfl rfl
    next => exact fun _ => h
  | registerMapping thread =>
    simp only [act]
    split
    next hcapturing => exact fun honward => h.move honward rfl rfl (by rw [hcapturing.2.1]; rfl)
    next => exact fun _ => h
  | advance thread scanned =>
    simp only [act]
    split
    next hcurrent => exact fun _ => gated_advance h hcurrent scanned
    next => exact fun _ => h
  | exit process scanned =>
    simp only [act, exitStep]
    repeat' split
    case h_3 =>
      intro honward
      rcases system.gate.abortForProcess_cases group process (system.ownerHasStopped scanned) with
        hrefused | ⟨owner, howner, hanswer, hdropped⟩
      · exact h.onward honward (by simp [hrefused]) rfl
      have hstopped : system.stopped owner := by
        simp only [ownerHasStopped, Bool.and_eq_true, Bool.not_eq_true', Bool.or_eq_false_iff] at hanswer
        simp [System.stopped, hanswer]
      simp only [hdropped] at honward ⊢
      refine ⟨h.plain, by simp, fun other hother => .inr (honward.stopped other ?_)⟩
      rcases h.holder other hother with hother | hother
      · rwa [← Option.some.inj (howner.symm.trans hother)]
      · exact hother
    all_goals exact fun honward => h.onward honward rfl rfl
  | create | fork | publish | select | dispatch | claim =>
    simp only [act]
    split
    all_goals exact fun honward => h.onward honward rfl rfl
  | addThread | deselect | park | kill | terminate => exact fun honward => h.onward honward rfl rfl

/-- A flag is kept until its process has halted, and nobody who can still run captures while
a process is secret. -/
structure Guarded (system : System τ π) : Prop where
  consistent : system.policy.Consistent
  separate : system.policy.Separate
  quiet : ∀ thread, (system.position thread).captures →
    system.stopped thread ∨ ∀ process, system.policy.secret process = false
  granted : ∀ process, system.granted process → system.policy.secret process ∨ system.halted process
  mapped : ∀ process, system.mapped process → system.policy.rawMapped process ∨ system.halted process
  born : ∀ process, system.policy.secret process ∨ system.policy.rawMapped process →
    system.stage process ≠ .unborn

omit [DecidableEq τ] [DecidableEq π] in
theorem Guarded.onward (h : system.Guarded) (honward : Onward system system')
    (hpolicy : system'.policy = system.policy) (hgranted : system'.granted = system.granted)
    (hmapped : system'.mapped = system.mapped)
    (hposition : ∀ thread, (system'.position thread).captures → (system.position thread).captures) :
    system'.Guarded where
  consistent := hpolicy ▸ h.consistent
  separate := hpolicy ▸ h.separate
  quiet thread hcaptures := by
    rw [hpolicy]
    exact (h.quiet thread (hposition thread hcaptures)).imp_left (honward.stopped thread)
  granted process hprocess := by
    rw [hpolicy]
    exact (h.granted process (hgranted ▸ hprocess)).imp_right (honward.halted process)
  mapped process hprocess := by
    rw [hpolicy]
    exact (h.mapped process (hmapped ▸ hprocess)).imp_right (honward.halted process)
  born process hprocess := by
    rw [hpolicy] at hprocess
    exact honward.stage process (h.born process hprocess)

/-- A thread moves to a place where it does not capture. -/
theorem captures_update {position : τ → Position} {place : Position} (hplace : place.captures = false)
    (other : τ) (hcaptures : (update position thread place other).captures) :
    (position other).captures := by
  rw [update_apply] at hcaptures
  split at hcaptures
  · rw [hplace] at hcaptures
    cases hcaptures
  · exact hcaptures

section

variable (h : system.Guarded)
include h

omit [DecidableEq τ] [DecidableEq π] in
/-- The flags of processes that have halted are dropped. -/
theorem Guarded.retired {gone : π → Bool}
    (hgone : ∀ process, gone process → system.halted process) {policy : Policy π}
    (hretired : Policy.Retired gone system.policy policy) :
    ({ system with policy } : System τ π).Guarded where
  consistent := hretired.consistent
  separate := hretired.separate h.separate
  quiet thread hcaptures := by
    refine (h.quiet thread hcaptures).imp_right fun hnone process => ?_
    by_contra hsecret
    have hold := hretired.secret process (by simpa using hsecret)
    rw [hnone process] at hold
    cases hold
  granted process hprocess := by
    rcases h.granted process hprocess with hsecret | hhalted
    · exact (hretired.keepsSecret process hsecret).imp_right (hgone process)
    · exact .inr hhalted
  mapped process hprocess := by
    rcases h.mapped process hprocess with hmapped | hhalted
    · exact (hretired.keepsMapped process hmapped).imp_right (hgone process)
    · exact .inr hhalted
  born process hprocess :=
    h.born process (hprocess.imp (hretired.secret process) (hretired.mapped process))

omit [DecidableEq τ] in
theorem Guarded.retire (hscheduled : system.Scheduled group) :
    ({ system with policy := system.policy.retireStoppedLocked system.stoppedProcess } :
      System τ π).Guarded :=
  h.retired hscheduled.settled (Policy.retired_retireStoppedLocked h.consistent _)

omit [DecidableEq τ] in
/-- A process that nobody else's mapping keeps from it becomes secret. -/
theorem Guarded.markSecret (hfresh : system.policy.secret process = false)
    (hborn : system.stage process ≠ .unborn)
    (hunmapped : ∀ other, system.policy.rawMapped other = false)
    (halone : ∀ other, (system.position other).captures → system.stopped other) :
    ({ system with
       policy := (system.policy.registerLocked process).markSecret process
       granted := update system.granted process true } : System τ π).Guarded where
  consistent := h.consistent.markSecret hfresh
  separate _ other _ := by simpa [Policy.markSecret] using hunmapped other
  quiet other hcaptures := .inl (halone other hcaptures)
  granted other hother := by
    by_cases heq : other = process
    · exact .inl (by simp [Policy.markSecret, heq])
    · have hold := h.granted other (by simpa [heq] using hother)
      simpa [Policy.markSecret, heq] using hold
  mapped other hother := by simpa [Policy.markSecret] using h.mapped other hother
  born other hother := by
    by_cases heq : other = process
    · rwa [heq]
    · exact h.born other (by simpa [Policy.markSecret, heq] using hother)

omit [DecidableEq τ] in
/-- A mapping is registered while there is no secret. -/
theorem Guarded.markMapped (hfresh : system.policy.rawMapped process = false)
    (hborn : system.stage process ≠ .unborn) (hnone : ∀ other, system.policy.secret other = false) :
    ({ system with
       policy := (system.policy.registerLocked process).markMapped process
       mapped := update system.mapped process true } : System τ π).Guarded where
  consistent := h.consistent.markMapped hfresh
  separate other _ hother := by simp_all [Policy.markMapped]
  quiet other _ := .inr (by simpa [Policy.markMapped] using hnone)
  granted other hother := by simpa [Policy.markMapped] using h.granted other hother
  mapped other hother := by
    by_cases heq : other = process
    · exact .inl (by simp [Policy.markMapped, heq])
    · have hold := h.mapped other (by simpa [heq] using hother)
      simpa [Policy.markMapped, heq] using hold
  born other hother := by
    by_cases heq : other = process
    · rwa [heq]
    · exact h.born other (by simpa [Policy.markMapped, heq] using hother)

omit [DecidableEq τ] [DecidableEq π] in
theorem Guarded.mono (honward : Onward system system') (hpolicy : system'.policy = system.policy)
    (hgranted : ∀ process, system'.granted process → system.granted process)
    (hmapped : ∀ process, system'.mapped process → system.mapped process)
    (hposition : ∀ thread, (system'.position thread).captures → (system.position thread).captures) :
    system'.Guarded := by
  have hsame : ({ system' with granted := system.granted, mapped := system.mapped } : System τ π).Guarded :=
    h.onward ⟨honward.stopped, honward.halted, honward.stage⟩ hpolicy rfl rfl hposition
  exact ⟨hsame.consistent, hsame.separate, hsame.quiet,
    fun process hprocess => hsame.granted process (hgranted process hprocess),
    fun process hprocess => hsame.mapped process (hmapped process hprocess), hsame.born⟩

end

omit [DecidableEq τ] [DecidableEq π] in
/-- A thread that has the gate captures alone. -/
theorem Gated.alone (h : system.Gated) (hcurrent : system.current thread)
    (hholds : (system.position thread).holds) {other : τ} (hother : other ≠ thread)
    (hcaptures : (system.position other).captures) : system.stopped other := by
  have howner := h.owner_eq hcurrent hholds
  have hheld : (system.position other).holds := by
    cases hposition : system.position other <;> simp_all [Position.captures, Position.holds]
  rcases h.holder other hheld with htheirs | hstopped
  · exact absurd (Option.some.inj (howner.symm.trans htheirs)) hother.symm
  · exact hstopped

section

variable (h : system.Guarded)
include h

variable (hscheduled : system.Scheduled group)
include hscheduled

/-- A process becomes secret while nobody who can run captures. -/
theorem guarded_setSecretSection (hgated : system.Gated) (hcurrent : system.current thread)
    (hposition : system.position thread = .held .secret) :
    (system.setSecretSection group thread).Guarded := by
  have hretired := h.retire hscheduled
  have hborn : system.stage (group thread) ≠ .unborn := by
    rw [(hscheduled.running thread hcurrent).2.1]
    decide
  have halone : ∀ other, (system.position other).captures → system.stopped other := by
    intro other hcaptures
    refine hgated.alone hcurrent (by rw [hposition]; rfl) ?_ hcaptures
    rintro rfl
    rw [hposition] at hcaptures
    cases hcaptures
  unfold setSecretSection Policy.setSecret
  dsimp only
  generalize system.policy.retireStoppedLocked system.stoppedProcess = policy at *
  split
  next hsecret =>
    refine ⟨hretired.consistent, hretired.separate, ?_, ?_, hretired.mapped, hretired.born⟩
    · intro other hcaptures
      exact hretired.quiet other (captures_update rfl other hcaptures)
    · intro other hother
      by_cases heq : other = group thread
      · exact .inl (by simpa [heq] using hsecret)
      · exact hretired.granted other (by simpa [heq] using hother)
  next hsecret =>
    split
    next => exact hretired.onward ⟨fun _ => id, fun _ => id, fun _ => id⟩ rfl rfl rfl (captures_update rfl)
    next hmapped =>
      have hzero : policy.mappedProcesses = 0 := not_not.mp hmapped
      have hmarked := hretired.markSecret (by simpa using hsecret) hborn
        (hretired.consistent.rawMapped_eq_false hzero) halone
      exact hmarked.onward ⟨fun _ => id, fun _ => id, fun _ => id⟩ rfl rfl rfl (captures_update rfl)

omit [DecidableEq τ] in
theorem guarded_checkSection
    (hrefused : ∀ policy, ({ system with policy } : System τ π).Guarded →
      (refused { system with policy }).Guarded)
    (hallowed : ∀ policy, ({ system with policy } : System τ π).Guarded →
      (∀ process, policy.secret process = false) → (allowed { system with policy }).Guarded) :
    (system.checkSection refused allowed).Guarded := by
  have hretired := h.retire hscheduled
  unfold checkSection Policy.blocked
  dsimp only
  generalize system.policy.retireStoppedLocked system.stoppedProcess = policy at *
  split
  next => exact hrefused policy hretired
  next hzero =>
    exact hallowed policy hretired (hretired.consistent.secret_eq_false (by simpa using hzero))

theorem guarded_advance (hgated : system.Gated)
    (hcurrent : system.current thread) (scanned : Bool) : (system.advance group thread scanned).Guarded := by
  have honward := (sameSchedule_advance group system thread scanned).onward
  revert honward
  unfold advance
  split
  next => exact fun _ => h
  next => exact fun _ => h
  next =>
    intro _
    refine guarded_checkSection h hscheduled (fun policy hsame => ?_) (fun policy hsame _ => ?_)
    · exact hsame.onward ⟨fun _ => id, fun _ => id, fun _ => id⟩ rfl rfl rfl (captures_update rfl)
    · exact hsame.onward ⟨fun _ => id, fun _ => id, fun _ => id⟩ rfl rfl rfl (captures_update rfl)
  next purpose tried hposition =>
    intro honward
    unfold lockSection
    repeat' split
    all_goals exact h.onward ⟨fun _ => id, fun _ => id, fun _ => id⟩ rfl rfl rfl (captures_update rfl)
  next hposition => exact fun _ => guarded_setSecretSection h hscheduled hgated hcurrent hposition
  next hposition =>
    intro _
    refine guarded_checkSection h hscheduled (fun policy hsame => ?_) (fun policy hsame hnone => ?_)
    · exact hsame.onward ⟨fun _ => id, fun _ => id, fun _ => id⟩ rfl rfl rfl (captures_update rfl)
    · exact ⟨hsame.consistent, hsame.separate, fun _ _ => .inr hnone, hsame.granted, hsame.mapped, hsame.born⟩
  next result hposition => exact fun honward => h.onward honward rfl rfl rfl (captures_update rfl)
  next hposition =>
    intro _
    have hnone : ∀ process, system.policy.secret process = false := by
      refine (h.quiet thread (by rw [hposition]; rfl)).resolve_left ?_
      rw [stopped_eq_false hcurrent]
      simp
    have hborn : system.stage (group thread) ≠ .unborn := by
      rw [(hscheduled.running thread hcurrent).2.1]
      decide
    unfold Policy.registerMapping
    split
    next hmapped =>
      refine ⟨h.consistent, h.separate, fun _ _ => .inr hnone, h.granted, ?_, h.born⟩
      intro other hother
      by_cases heq : other = group thread
      · exact .inl (by rw [heq, hmapped])
      · exact h.mapped other (by simpa [heq] using hother)
    next hmapped =>
      have hmarked := h.markMapped (by simpa using hmapped) hborn hnone
      exact ⟨hmarked.consistent, hmarked.separate, fun other _ => .inr (by simpa [Policy.markMapped] using hnone),
        hmarked.granted, hmarked.mapped, hmarked.born⟩

omit [DecidableEq τ] in
/-- The child of a process gets the flags of its parent. -/
theorem guarded_fork (hcurrent : system.current thread) (hstage : system.stage child = .unborn) :
    (system.fork group thread child).Guarded := by
  have hcreated : (system.create child).Guarded := by
    refine h.onward ⟨fun _ => id, fun _ => id, fun process hprocess => ?_⟩ rfl rfl rfl fun _ => id
    by_cases heq : process = child <;> simp [create, heq, hprocess]
  have hborn : (system.create child).stage child ≠ .unborn := by simp [create]
  have hlive : system.halted (group thread) = false := (hscheduled.running thread hcurrent).2.2
  have hfresh : system.policy.secret child = false ∧ system.policy.rawMapped child = false := by
    have hnone := mt (h.born child) (not_not.mpr hstage)
    simpa using hnone
  have hgranted : system.granted (group thread) → system.policy.secret (group thread) := by
    intro hgranted
    simpa [hlive] using h.granted (group thread) hgranted
  have hmapped : system.mapped (group thread) → system.policy.rawMapped (group thread) := by
    intro hmapped
    simpa [hlive] using h.mapped (group thread) hmapped
  have hforget : ∀ {flag : π → Bool} {value : Bool} {process : π}, value = false →
      update flag child value process → flag process := by
    intro flag value process hvalue hprocess
    by_cases heq : process = child
    · simp [heq, hvalue] at hprocess
    · simpa [heq] using hprocess
  have hpresent : ∀ {flag : π → Bool} {value : Bool} {process : π},
      update flag child value process → update flag child true process := by
    intro flag value process hprocess
    by_cases heq : process = child <;> simp_all
  cases hsecret : system.policy.secret (group thread) with
  | true =>
    have hunmapped : ∀ other, system.policy.rawMapped other = false := fun other =>
      h.separate (group thread) other hsecret
    have hinherit : system.policy.inherit (group thread) child =
        (system.policy.registerLocked child).markSecret child := by
      simp [Policy.inherit, hsecret, hfresh, hunmapped, Policy.markSecret]
    have hmarked := hcreated.markSecret hfresh.1 hborn hunmapped ?_
    · refine hmarked.mono ⟨fun _ => id, fun _ => id, fun _ => id⟩ hinherit (fun process => hpresent)
        (fun process => hforget ?_) fun _ => id
      by_contra hother
      rw [hunmapped (group thread)] at hmapped
      exact absurd (hmapped (by simpa using hother)) (by simp)
    · intro other hcaptures
      refine (h.quiet other hcaptures).resolve_right fun hnone => ?_
      rw [hnone (group thread)] at hsecret
      cases hsecret
  | false =>
    have hungranted : system.granted (group thread) = false := by
      by_contra hother
      rw [hsecret] at hgranted
      exact absurd (hgranted (by simpa using hother)) (by simp)
    cases hraw : system.policy.rawMapped (group thread) with
    | true =>
      have hnone : ∀ other, system.policy.secret other = false := by
        intro other
        by_contra hother
        rw [h.separate other (group thread) (by simpa using hother)] at hraw
        cases hraw
      have hinherit : system.policy.inherit (group thread) child =
          (system.policy.registerLocked child).markMapped child := by
        simp [Policy.inherit, hsecret, hraw, hfresh]
      have hmarked := hcreated.markMapped hfresh.2 hborn hnone
      exact hmarked.mono ⟨fun _ => id, fun _ => id, fun _ => id⟩ hinherit
        (fun process => hforget hungranted) (fun process => hpresent) fun _ => id
    | false =>
      have hinherit : system.policy.inherit (group thread) child = system.policy := by
        simp [Policy.inherit, hsecret, hraw]
      have hunmapped : system.mapped (group thread) = false := by
        by_contra hother
        rw [hraw] at hmapped
        exact absurd (hmapped (by simpa using hother)) (by simp)
      exact hcreated.mono ⟨fun _ => id, fun _ => id, fun _ => id⟩ hinherit
        (fun process => hforget hungranted) (fun process => hforget hunmapped) fun _ => id

/-- No step lets a capture go on beside a secret. -/
theorem guarded_act (hgated : system.Gated)
    (action : Action τ π) : (system.act group action).Guarded := by
  have honward := onward_act group system action
  revert honward
  cases action with
  | setSecret thread | begin thread =>
    simp only [act, call]
    repeat' split
    all_goals first
      | exact fun _ => h
      | exact fun honward => h.onward honward rfl rfl rfl (captures_update rfl)
  | finish thread =>
    simp only [act]
    split
    · exact fun honward => h.onward honward rfl rfl rfl (captures_update rfl)
    · exact fun _ => h
  | registerMapping thread =>
    simp only [act]
    split
    next hcapturing =>
      intro honward
      refine h.onward honward rfl rfl rfl fun other hcaptures => ?_
      by_cases heq : other = thread
      · rw [heq, hcapturing.2.1]
        rfl
      · simpa [move, heq] using hcaptures
    next => exact fun _ => h
  | advance thread scanned =>
    simp only [act]
    split
    next hcurrent => exact fun _ => guarded_advance h hscheduled hgated hcurrent scanned
    next => exact fun _ => h
  | fork thread child =>
    simp only [act]
    split
    next hfork => exact fun _ => guarded_fork h hscheduled (free_iff.mp hfork.1).1 hfork.2
    next => exact fun _ => h
  | exit process scanned =>
    simp only [act, exitStep]
    repeat' split
    case h_4 hexit =>
      intro honward
      have hhalted : system.halted process :=
        (hscheduled.exiting process _ hexit).resolve_right (by simp)
      have hgone : ∀ other, decide (other = process) → system.halted other := by simpa using hhalted
      have hretired := h.retired hgone (Policy.retired_processExit h.consistent (decide_eq_true rfl))
      exact hretired.onward ⟨fun _ => id, fun _ => id, fun _ => id⟩ rfl rfl rfl fun _ => id
    all_goals exact fun honward => h.onward honward rfl rfl rfl fun _ => id
  | create | publish | select | dispatch | claim =>
    simp only [act]
    split
    all_goals exact fun honward => h.onward honward rfl rfl rfl fun _ => id
  | addThread | deselect | park | kill | terminate =>
    exact fun honward => h.onward honward rfl rfl rfl fun _ => id

end

structure Sound (group : τ → π) (system : System τ π) : Prop where
  scheduled : system.Scheduled group
  gated : system.Gated
  guarded : system.Guarded

omit [DecidableEq τ] [DecidableEq π] in
theorem sound_initial : (initial : System τ π).Sound group := by
  refine ⟨⟨?_, ?_, ?_⟩, ⟨rfl, ?_, ?_⟩, ⟨Policy.consistent_empty, ?_, ?_, ?_, ?_, ?_⟩⟩
  all_goals
    simp [initial, stoppedProcess, Mutex.create, Position.holds, Policy.Separate, Policy.empty]

theorem sound_step (h : system.Sound group) (action : Action τ π) : (system.step group action).Sound group where
  scheduled := scheduled_step h.scheduled action
  gated := (gated_act h.gated action).onward (onward_settle _) rfl rfl
  guarded := (guarded_act h.guarded h.scheduled h.gated action).onward (onward_settle _) rfl rfl rfl fun _ => id

theorem sound_run (group : τ → π) (actions : List (Action τ π)) :
    (run (step group) (initial : System τ π) actions).Sound group :=
  invariant_run_of_step (step group) (Sound group) (fun _ action h => sound_step h action) sound_initial actions

/-- A process that was declared secret, or inherited that, has the flag until it halts; and
while a process has the flag, no thread that can still run is between the beginning and the
end of a capture, and no process that has not halted has a raw mapping. The list holds the
processes with a flag, each once, and the numbers count them. -/
theorem secret_never_captured (group : τ → π) (actions : List (Action τ π)) :
    let system := run (step group) (initial : System τ π) actions
    (∀ process, system.policy.secret process →
        (∀ thread, (system.position thread).captures → system.stopped thread) ∧
          ∀ other, system.mapped other → system.halted other) ∧
      system.policy.secretProcesses = system.policy.registered.countP system.policy.secret ∧
      system.policy.mappedProcesses = system.policy.registered.countP system.policy.rawMapped ∧
      system.policy.registered.Nodup ∧
      (∀ process, process ∈ system.policy.registered ↔
        system.policy.secret process ∨ system.policy.rawMapped process) ∧
      ∀ process, system.granted process → ¬ system.halted process → system.policy.secret process := by
  intro system
  have hsound : system.Sound group := sound_run group actions
  have hguarded := hsound.guarded
  refine ⟨fun process hsecret => ⟨fun thread hcaptures => ?_, fun other hmapped => ?_⟩,
    hguarded.consistent.secret, hguarded.consistent.mapped, hguarded.consistent.nodup,
    hguarded.consistent.mem, fun process hgranted hlive => (hguarded.granted process hgranted).resolve_right hlive⟩
  · refine (hguarded.quiet thread hcaptures).resolve_right fun hnone => ?_
    rw [hnone process] at hsecret
    cases hsecret
  · refine (hguarded.mapped other hmapped).resolve_left ?_
    rw [hguarded.separate process other hsecret]
    simp

/-- Two processes of one thread each; one becomes secret and the other is refused. -/
example :
    let start (process : Bool) : List (Action Bool Bool) :=
      [.create process, .publish process, .addThread process, .select process, .dispatch process]
    let system := run (step id) (initial : System Bool Bool)
      (start true ++ start false ++ [.setSecret true] ++ List.replicate 3 (.advance true false) ++
        [.begin false, .advance false false])
    system.policy.secret true ∧ system.result true = some (.ok ()) ∧
      system.result false = some (.error .eacces) := by
  decide

end System

end OpenXJ380.Capture
