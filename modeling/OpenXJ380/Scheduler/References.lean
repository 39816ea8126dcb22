/-
# A task found unreferenced never runs again

The scan of `scheduler_task_referenced` looks at one CPU after the other while the
CPUs move tasks from selected to current to previous. It is sound because a task is
only ever referenced by the CPU it is queued on: once that CPU has been seen without
a reference to a terminal task, its own steps cannot bring the reference back, since
the selection never returns a terminal task and the publication only moves references
the CPU already has.
-/

import OpenXJ380.Scheduler.Model

namespace OpenXJ380.Scheduler

open Function
open Protocol (run run_append)

variable {τ : Type} [DecidableEq τ]

theorem TaskStatus.not_terminal_of_ready {status : TaskStatus} (ready : status.ready = true) :
    status.terminal = false := by
  cases status <;> simp_all [TaskStatus.ready, TaskStatus.terminal]

theorem TaskInfo.not_terminal_of_runnable {task : TaskInfo} (runnable : task.runnable = true) :
    task.status.terminal = false := by
  simp only [TaskInfo.runnable, Bool.and_eq_true] at runnable
  exact TaskStatus.not_terminal_of_ready runnable.1

theorem TaskInfo.terminal_wakeSleeping (task : TaskInfo) (now base : UInt64) :
    (task.wakeSleeping now base).status.terminal = task.status.terminal := by
  unfold TaskInfo.wakeSleeping
  split_ifs with asleep
  · simp [asleep.1, TaskStatus.terminal]
  · rfl

/-- The changes a section makes to tasks neither kill nor revive any. -/
def SameEnds (before after : τ → TaskInfo) : Prop :=
  ∀ task, (after task).status.terminal = (before task).status.terminal

omit [DecidableEq τ] in
theorem SameEnds.trans {first second third : τ → TaskInfo} (left : SameEnds first second)
    (right : SameEnds second third) : SameEnds first third :=
  fun task => (right task).trans (left task)

variable {tasks : τ → TaskInfo} {task : τ} {current : Option τ} {queue : List τ}

theorem sameEnds_update {info : TaskInfo}
    (same : info.status.terminal = (tasks task).status.terminal) :
    SameEnds tasks (update tasks task info) := by
  intro other
  by_cases equal : other = task
  · subst equal
    simpa using same
  · simp [equal]

theorem sameEnds_exchange (tasks : τ → TaskInfo) (task : τ) {expected desired : TaskStatus}
    (live : expected.terminal = false) (stays : desired.terminal = false) :
    SameEnds tasks (exchange tasks task expected desired) := by
  unfold exchange
  split_ifs with found
  · exact sameEnds_update (by simp [found, live, stays])
  · exact fun _ => rfl

/-- What the loop over the queue keeps: it wakes tasks only, and the candidates it
remembers are live members of the queue. -/
structure Average.Sound (tasks : τ → TaskInfo) (queue : List τ) (average : Average τ) : Prop where
  ends : SameEnds tasks average.tasks
  fallback : ∀ task, average.fallback = some task →
    task ∈ queue ∧ (tasks task).status.terminal = false
  idle : ∀ task, average.idle = some task →
    task ∈ queue ∧ (tasks task).status.terminal = false

theorem Average.Sound.step {tasks : τ → TaskInfo} {queue : List τ} {average : Average τ}
    (sound : average.Sound tasks queue) (current : Option τ) (now : UInt64) {candidate : τ}
    (member : candidate ∈ queue) :
    (averageStep current now average candidate).Sound tasks queue := by
  set woken := update average.tasks candidate
    ((average.tasks candidate).wakeSleeping now (average.tasks (current.getD candidate)).vruntime)
    with woken_def
  have ends : SameEnds tasks woken :=
    sound.ends.trans (sameEnds_update (TaskInfo.terminal_wakeSleeping _ _ _))
  have live : (woken candidate).runnable = true → (tasks candidate).status.terminal = false :=
    fun runnable => (ends candidate).symm.trans (TaskInfo.not_terminal_of_runnable runnable)
  have idle : ∀ task, (if current ≠ some candidate ∧ (woken candidate).idle = true ∧
          (woken candidate).runnable = true then some candidate else average.idle) = some task →
      task ∈ queue ∧ (tasks task).status.terminal = false := by
    intro task found
    split_ifs at found with chosen
    · obtain rfl := Option.some.inj found
      exact ⟨member, live chosen.2.2⟩
    · exact sound.idle task found
  have chosen : isTaskSchedulable woken candidate current = true →
      ∀ task, some candidate = some task → task ∈ queue ∧ (tasks task).status.terminal = false := by
    intro schedulable task found
    obtain rfl := Option.some.inj found
    simp only [isTaskSchedulable, Bool.and_eq_true] at schedulable
    exact ⟨member, live schedulable.2⟩
  unfold averageStep
  simp only [← woken_def]
  generalize (if current ≠ some candidate ∧ (woken candidate).idle = true ∧
    (woken candidate).runnable = true then some candidate else average.idle) = waiting at idle ⊢
  split_ifs with own runnable schedulable sooner
  · exact ⟨ends, sound.fallback, idle⟩
  · exact ⟨ends, sound.fallback, idle⟩
  · exact ⟨ends, chosen schedulable, idle⟩
  all_goals exact ⟨ends, sound.fallback, idle⟩

/-- The average is over tasks of the queue that have not ended. -/
theorem queueAverage_sound (tasks : τ → TaskInfo) (queue : List τ) (current : Option τ)
    (now : UInt64) : (queueAverage tasks queue current now).Sound tasks queue := by
  refine List.foldlRecOn queue _ ?_ ?_
  · exact ⟨fun _ => rfl, fun _ found => absurd found (by simp), fun _ found => absurd found (by simp)⟩
  · intro average sound candidate member
    exact sound.step current now member

/-- What is eligible is in the queue and has not ended. -/
theorem eligible_sound {limit : UInt64} : ∀ task, eligible tasks current limit queue = some task →
      task ∈ queue ∧ (tasks task).status.terminal = false := by
  refine List.foldlRecOn (motive := fun best => ∀ task, best = some task →
    task ∈ queue ∧ (tasks task).status.terminal = false) queue _ ?_ ?_
  · intro task found
    cases found
  intro best sound candidate member task found
  split_ifs at found with chosen
  · obtain rfl := Option.some.inj found
    simp only [isTaskSchedulable, Bool.and_eq_true] at chosen
    exact ⟨member, TaskInfo.not_terminal_of_runnable chosen.1.2⟩
  · exact sound task found

variable {average : Average τ}

theorem Average.Sound.best (sound : average.Sound tasks queue)
    (found : average.best current queue = some task) :
    task ∈ queue ∧ (tasks task).status.terminal = false := by
  unfold Average.best at found
  cases fallback : average.fallback with
  | none => simp [fallback] at found
  | some candidate =>
    have known := sound.fallback candidate fallback
    simp only [fallback] at found
    split_ifs at found with early
    · exact Option.some.inj found ▸ known
    · rcases Option.or_eq_some_iff.mp found with sooner | ⟨-, same⟩
      · obtain ⟨member, live⟩ := eligible_sound task sooner
        exact ⟨member, (sound.ends task).symm.trans live⟩
      · exact Option.some.inj same ▸ known

omit [DecidableEq τ] in
theorem Average.Sound.rest (sound : average.Sound tasks queue)
    (found : average.rest current = some task) :
    (task ∈ queue ∨ current = some task) ∧ (tasks task).status.terminal = false := by
  unfold Average.rest at found
  split_ifs at found with goes
  · subst found
    have runnable : (average.tasks task).runnable = true := by simpa using goes
    exact ⟨.inr rfl, (sound.ends task).symm.trans (TaskInfo.not_terminal_of_runnable runnable)⟩
  · exact (sound.idle task found).imp_left .inl

/-- A selected task is live, and it is on the queue or it is the current one. -/
theorem selectNext_sound (tasks : τ → TaskInfo) (queue : List τ) (current : Option τ)
    (now : UInt64) :
    SameEnds tasks (selectNext tasks queue current now).1 ∧
      ∀ task, (selectNext tasks queue current now).2 = some task →
        (task ∈ queue ∨ current = some task) ∧ (tasks task).status.terminal = false := by
  unfold selectNext
  split_ifs with empty
  · exact ⟨fun _ => rfl, fun _ found => absurd found (by simp)⟩
  have first : SameEnds tasks (wakeCurrent tasks now current) := by
    cases current with
    | none => exact fun _ => rfl
    | some task => exact sameEnds_update (TaskInfo.terminal_wakeSleeping _ _ _)
  have sound := queueAverage_sound (wakeCurrent tasks now current) queue current now
  refine ⟨first.trans sound.ends, fun task found => ?_⟩
  have live : (task ∈ queue ∨ current = some task) ∧
      (wakeCurrent tasks now current task).status.terminal = false := by
    rcases Option.or_eq_some_iff.mp found with best | ⟨-, rest⟩
    · exact (sound.best best).imp_left .inl
    · exact sound.rest rest
  exact live.imp_right (first task).symm.trans

theorem sameEnds_switchStatus (tasks : τ → TaskInfo) (current best : τ) :
    SameEnds tasks (switchStatus tasks current best) := by
  have first : SameEnds tasks (exchange tasks current .running .start) :=
    sameEnds_exchange tasks current rfl rfl
  simp only [switchStatus]
  split_ifs with ready
  all_goals exact first.trans (sameEnds_exchange _ best rfl rfl)

/-- The decision publishes the current task or the selected one. -/
theorem decideNext_sound (tasks : τ → TaskInfo) (current : τ) (best : Option τ) (valid : Bool) :
    SameEnds tasks (decideNext tasks current best valid).1 ∧
      ((decideNext tasks current best valid).2 = current ∨
        best = some (decideNext tasks current best valid).2) := by
  have switched := fun next => sameEnds_switchStatus tasks current next
  cases best with
  | none =>
    by_cases runnable : (tasks current).runnable = true
    all_goals simp [decideNext, runnable, SameEnds]
  | some next =>
    by_cases refused : next = current ∨ (!(tasks next).runnable) = true
    · simp only [decideNext, reduceCtorEq, false_and, if_false, if_pos refused]
      exact ⟨fun _ => rfl, .inl trivial⟩
    · simp only [decideNext, reduceCtorEq, false_and, if_false, if_neg refused]
      cases valid with
      | true => exact ⟨switched next, .inr rfl⟩
      | false => exact ⟨(switched next).trans (sameEnds_exchange _ current rfl rfl), .inl rfl⟩

namespace Cpu

/-- The locals of the interrupt are tasks the CPU references. -/
def Coherent (cpu : Cpu τ) : Prop :=
  match cpu.phase with
  | .outside | .entered => True
  | .chosen current best => cpu.current = some current ∧ cpu.selected = best
  | .leaving current next =>
    cpu.current = some current ∧ (next = current ∨ cpu.selected = some next)

variable {cpu : Cpu τ}

theorem references_iff {task : τ} : cpu.references task = true ↔
    cpu.current = some task ∨ cpu.selected = some task ∨ cpu.previous = some task := by
  simp [references, or_assoc]

/-- What a step may do to a CPU: a task it references afterwards was referenced before,
or it is alive and belongs to this CPU. -/
structure Follows (belongs : τ → Prop) (tasks : τ → TaskInfo) (before after : Cpu τ) : Prop where
  coherent : after.Coherent
  queue : ∀ task ∈ after.queue, task ∈ before.queue ∨ belongs task
  references : ∀ task, after.references task = true → before.references task = true ∨
    (task ∈ before.queue ∨ belongs task) ∧ (tasks task).status.terminal = false

theorem follows_refl {belongs : τ → Prop} {tasks : τ → TaskInfo} (coherent : cpu.Coherent) :
    Follows belongs tasks cpu cpu :=
  ⟨coherent, fun _ => .inl, fun _ => .inl⟩

end Cpu

namespace System

variable {n : ℕ} {system : System n τ} {home : τ → Fin n}

/-- What a step of the system may do: no task is revived, and every CPU only moves
references it has or takes up live tasks of its own. -/
structure Advances (home : τ → Fin n) (before after : System n τ) : Prop where
  ends : ∀ task, (before.tasks task).status.terminal = true →
    (after.tasks task).status.terminal = true
  cpus : ∀ cpu, Cpu.Follows (home · = cpu) before.tasks (before.cpus cpu) (after.cpus cpu)

/-- The CPUs only know tasks of their own. -/
structure Placed (home : τ → Fin n) (system : System n τ) : Prop where
  coherent : ∀ cpu, (system.cpus cpu).Coherent
  queue : ∀ cpu, ∀ task ∈ (system.cpus cpu).queue, home task = cpu
  references : ∀ cpu task, (system.cpus cpu).references task = true → home task = cpu

/-- A terminal task that its CPU does not reference. -/
def Gone (home : τ → Fin n) (system : System n τ) (task : τ) : Prop :=
  (system.tasks task).status.terminal = true ∧ (system.cpus (home task)).references task = false

variable {after : System n τ} {task : τ}

/-- A processor that takes up tasks of its own knows no others. -/
theorem Placed.advance (placed : system.Placed home) (advances : Advances home system after) :
    after.Placed home where
  coherent cpu := (advances.cpus cpu).coherent
  queue cpu task member := ((advances.cpus cpu).queue task member).elim (placed.queue cpu task) id
  references cpu task referenced := by
    rcases (advances.cpus cpu).references task referenced with before | ⟨known, -⟩
    · exact placed.references cpu task before
    · exact known.elim (placed.queue cpu task) id

/-- A task that ended and is referred to nowhere is never referred to again. -/
theorem Gone.advance (gone : system.Gone home task) (advances : Advances home system after) :
    after.Gone home task := by
  refine ⟨advances.ends task gone.1, Bool.eq_false_iff.mpr fun referenced => ?_⟩
  rcases (advances.cpus (home task)).references task referenced with before | ⟨-, live⟩
  · rw [gone.2] at before
    cases before
  · rw [gone.1] at live
    cases live

/-- A gone task is referenced nowhere. -/
theorem Gone.references_eq_false (gone : system.Gone home task) (placed : system.Placed home)
    (cpu : Fin n) : (system.cpus cpu).references task = false := by
  by_contra referenced
  rw [Bool.not_eq_false] at referenced
  obtain rfl := placed.references cpu task referenced
  rw [gone.2] at referenced
  cases referenced

section

variable (placed : system.Placed home)
include placed

theorem advances_refl : Advances home system system :=
  ⟨fun _ => id, fun cpu => Cpu.follows_refl (placed.coherent cpu)⟩

theorem advances_setCpu {index : Fin n} {cpu : Cpu τ}
    {tasks : τ → TaskInfo} (ends : SameEnds system.tasks tasks)
    (follows : Cpu.Follows (home · = index) system.tasks (system.cpus index) cpu) :
    Advances home system { system.setCpu index cpu with tasks := tasks } where
  ends task terminal := (ends task).trans terminal
  cpus other := by
    by_cases same : other = index
    · subst same
      simpa [setCpu] using follows
    · simpa [setCpu, same] using Cpu.follows_refl (placed.coherent other)

theorem advances_tasks {tasks : τ → TaskInfo}
    (ends : ∀ task, (system.tasks task).status.terminal = true →
      (tasks task).status.terminal = true) :
    Advances home system { system with tasks := tasks } :=
  ⟨ends, fun cpu => Cpu.follows_refl (placed.coherent cpu)⟩

section

variable (index : Fin n)

theorem advances_interruptEnter : Advances home system (system.interruptEnter index) := by
  simp only [interruptEnter]
  split
  · refine advances_setCpu placed (fun _ => rfl) ⟨trivial, fun _ => .inl, fun task => ?_⟩
    simp only [Cpu.references_iff]
    rintro (current | selected | none)
    · exact .inl (.inl current)
    · exact .inl (.inr (.inl selected))
    · cases none
  · exact advances_refl placed

theorem advances_decline : Advances home system (system.decline index) := by
  simp only [decline]
  split
  · exact advances_setCpu placed (fun _ => rfl) ⟨trivial, fun _ => .inl, fun _ => .inl⟩
  · exact advances_refl placed

/-- A selection takes its task from the queue of the processor. -/
theorem advances_select (now : UInt64) : Advances home system (system.select index now) := by
  simp only [select]
  split
  next phase running =>
    obtain ⟨ends, live⟩ := selectNext_sound system.tasks (system.cpus index).queue
      (system.cpus index).current now
    refine advances_setCpu placed ends ⟨⟨running, rfl⟩, fun _ => .inl, fun task => ?_⟩
    simp only [Cpu.references_iff]
    rintro (current | selected | previous)
    · exact .inl (.inl current)
    · obtain ⟨queued | current, live⟩ := live task selected
      · exact .inr ⟨.inl queued, live⟩
      · exact .inl (.inl current)
    · exact .inl (.inr (.inr previous))
  next => exact advances_refl placed

theorem advances_decide (valid : Bool) : Advances home system (system.decide index valid) := by
  have coherent := placed.coherent index
  simp only [decide]
  split
  next current best phase =>
    simp only [Cpu.Coherent, phase] at coherent
    obtain ⟨ends, next⟩ := decideNext_sound system.tasks current best valid
    exact advances_setCpu placed ends ⟨⟨coherent.1, next.imp_right coherent.2.trans⟩,
      fun _ => .inl, fun _ => .inl⟩
  next => exact advances_refl placed

/-- The selected task becomes the current one. -/
theorem advances_publish : Advances home system (system.publish index) := by
  have coherent := placed.coherent index
  simp only [publish]
  split
  next current next phase =>
    simp only [Cpu.Coherent, phase] at coherent
    obtain ⟨running, chosen⟩ := coherent
    refine advances_setCpu placed (fun _ => rfl) ⟨trivial, fun _ => .inl, fun task => ?_⟩
    simp only [Cpu.references_iff]
    rintro (published | none | previous)
    · obtain rfl := Option.some.inj published
      rcases chosen with rfl | selected
      · exact .inl (.inl running)
      · exact .inl (.inr (.inl selected))
    · cases none
    · split_ifs at previous with switched
      · exact .inl (.inl (running.trans previous))
      · exact .inl (.inr (.inr previous))
  next => exact advances_refl placed

end

theorem advances_removeTask (task : τ) : Advances home system (system.removeTask home task) := by
  unfold removeTask
  split
  · exact advances_refl placed
  · next cpu found =>
    exact advances_setCpu placed (fun _ => rfl) ⟨placed.coherent cpu,
      fun other member => .inl (List.mem_of_mem_erase member), fun _ => .inl⟩

end

/-- The changes to a system that `Advances` speaks about leave the scans alone. -/
theorem Advances.congr {before other : System n τ} (advances : Advances home before after)
    (tasks : other.tasks = after.tasks) (cpus : other.cpus = after.cpus) :
    Advances home before other :=
  ⟨fun task terminal => tasks ▸ advances.ends task terminal, fun cpu => cpus ▸ advances.cpus cpu⟩

/-- No step lets a processor refer to a task that has ended and that it did not refer to. -/
theorem advances_step (placed : system.Placed home) (action : Action n τ) :
    Advances home system (system.step home action) := by
  cases action with
  | boot cpu task =>
    simp only [step]
    split_ifs with allowed
    · obtain ⟨own, vacant, live⟩ := allowed
      refine advances_setCpu placed (fun _ => rfl) ⟨?_, fun _ => .inl, fun other => ?_⟩
      · -- a CPU without a current task is not between its two locked sections
        have coherent := placed.coherent cpu
        unfold Cpu.Coherent at coherent ⊢
        split <;> simp_all
      · simp only [Cpu.references_iff]
        rintro (booted | selected | previous)
        · obtain rfl := Option.some.inj booted
          exact .inr ⟨.inr own, live⟩
        · exact .inl (.inr (.inl selected))
        · exact .inl (.inr (.inr previous))
    · exact advances_refl placed
  | addTask task =>
    refine advances_setCpu placed (fun _ => rfl) ⟨placed.coherent _, ?_, fun _ => .inl⟩
    intro other member
    rcases List.mem_append.mp member with old | new
    · exact .inl old
    · exact .inr (congrArg home (List.mem_singleton.mp new))
  | kill task out =>
    refine advances_tasks placed fun other terminal => ?_
    by_cases same : other = task
    · subst same
      cases out <;> simp [TaskStatus.terminal]
    · simpa [same] using terminal
  | setStatus task status =>
    simp only [step]
    split_ifs with dead
    · exact advances_refl placed
    · refine advances_tasks placed fun other terminal => ?_
      have different : other ≠ task := fun same => dead (same ▸ terminal)
      simpa [different] using terminal
  | adjust task info =>
    refine advances_tasks placed fun other terminal => ?_
    have ends : SameEnds system.tasks (update system.tasks task
        { info with status := (system.tasks task).status }) := sameEnds_update rfl
    exact (ends other).trans terminal
  | removeTask task => exact advances_removeTask placed task
  | interruptEnter cpu => exact advances_interruptEnter placed cpu
  | decline cpu => exact advances_decline placed cpu
  | select cpu now => exact advances_select placed cpu now
  | decide cpu valid => exact advances_decide placed cpu valid
  | publish cpu => exact advances_publish placed cpu
  | scan observer task => exact (advances_refl placed).congr rfl rfl
  | visit observer =>
    refine (advances_refl placed).congr ?_ ?_ <;> simp only [step, visit] <;> repeat' split
    all_goals rfl

/-- A scan that began after the retirement of its task has cleared the CPUs it has
passed. -/
def Passed (home : τ → Fin n) (system : System n τ) (scan : Scan τ) : Prop :=
  scan.retired = true → (system.tasks scan.task).status.terminal = true ∧
    ((home scan.task : ℕ) < scan.next → system.Gone home scan.task)

/-- The invariant: scans in progress are as they should be, and a task one of them
answered false for is gone. -/
structure Sound (home : τ → Fin n) (system : System n τ) : Prop where
  placed : system.Placed home
  scans : ∀ observer scan, system.scans observer = some scan → system.Passed home scan
  cleared : ∀ task ∈ system.cleared, system.Gone home task

theorem sound_initial (home : τ → Fin n) (tasks : τ → TaskInfo) : (initial n tasks).Sound home where
  placed := ⟨fun _ => trivial, fun _ _ member => absurd member List.not_mem_nil,
    fun _ _ referenced => absurd referenced (by simp [initial, Cpu.references])⟩
  scans _ _ running := by simp [initial] at running
  cleared _ member := absurd member List.not_mem_nil

section

variable (sound : system.Sound home)
include sound

theorem Sound.advance (advances : Advances home system after)
    (scans : after.scans = system.scans) (cleared : after.cleared = system.cleared) :
    after.Sound home where
  placed := sound.placed.advance advances
  scans observer scan running retired := by
    obtain ⟨terminal, passed⟩ := sound.scans observer scan (scans ▸ running) retired
    exact ⟨advances.ends _ terminal, fun behind => (passed behind).advance advances⟩
  cleared task member := (sound.cleared task (cleared ▸ member)).advance advances

theorem Sound.observe (observer : ℕ) {next : Option (Scan τ)}
    (passed : ∀ scan, next = some scan → system.Passed home scan) {cleared : List τ}
    (gone : ∀ task ∈ cleared, system.Gone home task) :
    System.Sound home
      { system with
        scans := update system.scans observer next
        cleared := cleared } where
  placed := sound.placed.advance ((advances_refl sound.placed).congr rfl rfl)
  scans other scan running := by
    simp only [update_apply] at running
    split_ifs at running with same
    · exact passed scan running
    · exact sound.scans other scan running
  cleared := gone

theorem Sound.scan (observer : ℕ) (task : τ) :
    (system.step home (.scan observer task)).Sound home := by
  refine sound.observe observer (fun scan started retired => ?_) sound.cleared
  -- the new scan has passed no CPU yet
  obtain rfl := Option.some.inj started
  simp only [Bool.and_eq_true] at retired
  exact ⟨retired.1, fun behind => absurd behind (Nat.not_lt_zero _)⟩

/-- A scan that goes on to the next processor keeps what it has found. -/
theorem Sound.visit (observer : ℕ) : (system.visit observer).Sound home := by
  unfold System.visit
  cases running : system.scans observer with
  | none => exact sound
  | some scan =>
    have known := sound.scans observer scan running
    simp only
    split_ifs with inside referenced retired
    · exact sound.observe observer (fun _ ended => by cases ended) sound.cleared
    · refine sound.observe observer (fun next moved retired => ?_) sound.cleared
      obtain rfl := Option.some.inj moved
      obtain ⟨terminal, passed⟩ := known retired
      refine ⟨terminal, fun behind => ?_⟩
      rcases Nat.lt_succ_iff_lt_or_eq.mp behind with earlier | here
      · exact passed earlier
      · have visited : home scan.task = ⟨scan.next, inside⟩ := Fin.ext here
        exact ⟨terminal, visited ▸ Bool.eq_false_iff.mpr referenced⟩
    · refine sound.observe observer (fun _ ended => by cases ended) fun task member => ?_
      rcases List.mem_cons.mp member with rfl | old
      · exact (known retired).2 ((home scan.task).isLt.trans_le (Nat.le_of_not_lt inside))
      · exact sound.cleared task old
    · exact sound.observe observer (fun _ ended => by cases ended) sound.cleared

theorem Sound.step (action : Action n τ) : (system.step home action).Sound home := by
  have advances := advances_step sound.placed action
  cases action with
  | scan observer task => exact sound.scan observer task
  | visit observer => exact sound.visit observer
  | boot | setStatus | removeTask | interruptEnter | decline | select | decide | publish =>
    refine sound.advance advances ?_ ?_ <;>
      simp only [System.step, System.removeTask, System.interruptEnter, System.decline,
        System.select, System.decide, System.publish] <;> repeat' split
    all_goals rfl
  | addTask | kill | adjust => exact sound.advance advances rfl rfl

end

theorem sound_run (home : τ → Fin n) (tasks : τ → TaskInfo) (schedule : List (Action n τ)) :
    (run (System.step home) (initial n tasks) schedule).Sound home :=
  Protocol.invariant_run_of_step (System.step home) (Sound home)
    (fun _ action sound => sound.step action) (sound_initial home tasks) schedule

/-- What a scan found gone stays so. -/
theorem gone_run (home : τ → Fin n) (schedule : List (Action n τ)) (sound : system.Sound home)
    (gone : system.Gone home task) :
    (run (System.step home) system schedule).Gone home task :=
  (Protocol.invariant_run_of_step (System.step home)
    (fun state => state.Sound home ∧ state.Gone home task)
    (fun _ action both =>
      ⟨both.1.step action, both.2.advance (advances_step both.1.placed action)⟩)
    ⟨sound, gone⟩ schedule).2

/-- Once a scan that began after a task was made terminal and taken off its queue has
answered false, no CPU runs, selects or still uses that task, whatever happens later. -/
theorem unreferenced_run (home : τ → Fin n) (tasks : τ → TaskInfo)
    (first later : List (Action n τ)) (task : τ)
    (cleared : task ∈ (run (System.step home) (initial n tasks) first).cleared)
    (cpu : Fin n) :
    ((run (System.step home) (initial n tasks) (first ++ later)).cpus cpu).references
      task = false := by
  have sound := sound_run home tasks first
  rw [run_append]
  have gone := gone_run home later sound (sound.cleared task cleared)
  refine gone.references_eq_false ?_ cpu
  rw [← run_append]
  exact (sound_run home tasks (first ++ later)).placed

/-- A retired task is cleared by a scan of the only CPU, whose timer then runs. -/
theorem unreferenced_run_after_scan :
    let tasks : ℕ → TaskInfo := fun _ => ⟨.start, false, some .running, 0, 0, 0, 0⟩
    let first : List (Action 1 ℕ) :=
      [.boot 0 0, .addTask 1, .kill 1 false, .removeTask 1, .scan 0 1, .visit 0, .visit 0]
    let later : List (Action 1 ℕ) := [.interruptEnter 0, .select 0 5, .decide 0 true, .publish 0]
    1 ∈ (run (System.step fun _ => 0) (initial 1 tasks) first).cleared ∧
      ((run (System.step fun _ => 0) (initial 1 tasks) (first ++ later)).cpus
        0).references 1 = false := by
  intro tasks first later
  have cleared : 1 ∈ (run (System.step fun _ => 0) (initial 1 tasks) first).cleared := by
    decide
  exact ⟨cleared, unreferenced_run _ tasks first later 1 cleared 0⟩

end System

end OpenXJ380.Scheduler
