/-
# The scheduler's timer path

Each CPU has a queue of tasks and three references that keep a task's control block
alive: the task it runs, the task its timer has selected, and the task whose stack
its last switch still used. `timer_handle` clears the last of these, selects by the
EEVDF rule under the queue lock, decides, and publishes the decision under the lock
again. Other CPUs may kill tasks, take them off their queue, and scan the references
of one CPU after the other.

The sections under a queue lock are steps; between two steps of one CPU anything may
happen elsewhere. Run-time accounting and the other fields of a task that the
selection reads are changed by the environment at any time.
-/

import OpenXJ380.Protocol.Run

namespace OpenXJ380.Scheduler

open Function

inductive TaskStatus
  | create | running | wait | death | start | futex | out | zombie
  deriving DecidableEq, Repr

/-- A task that was killed. -/
def TaskStatus.terminal : TaskStatus → Bool
  | .death | .out => true
  | _ => false

/-- The statuses in which a task may be given a CPU. -/
def TaskStatus.ready : TaskStatus → Bool
  | .running | .start | .create => true
  | _ => false

/-- The statuses of a process whose threads are not scheduled. -/
def TaskStatus.holdsThreads : TaskStatus → Bool
  | .death | .futex | .out | .wait | .zombie => true
  | _ => false

/-- The fields of a control block that the scheduler reads. `parent` is the status of
the task's process, if it has one; `idle` is the level of the idle tasks. -/
structure TaskInfo where
  status : TaskStatus
  idle : Bool
  parent : Option TaskStatus
  vruntime : UInt64
  deadline : UInt64
  slice : UInt64
  wakeupTime : UInt64
  deriving Repr

def eevdfBaseSlice : UInt64 := 4000000
def eevdfMinSlice : UInt64 := 1000000
def eevdfWakeupCredit : UInt64 := eevdfBaseSlice
def eevdfSleeperCredit : UInt64 := eevdfBaseSlice * 2

namespace TaskInfo

section

variable (task : TaskInfo)

/-- `is_current_task_runnable`. -/
def runnable : Bool := task.status.ready && task.parent.any fun parent => !parent.holdsThreads

/-- `task_sched_slice`. -/
def schedSlice : UInt64 :=
  if task.slice < eevdfMinSlice then eevdfBaseSlice else task.slice

/-- `deadline_after_runtime`, which saturates. -/
def deadlineAfter (vruntime slice : UInt64) : UInt64 :=
  if vruntime > ~~~(0 : UInt64) - slice then ~~~(0 : UInt64) else vruntime + slice

/-- `apply_eevdf_wakeup_credit`. -/
def applyWakeupCredit (base : UInt64) : TaskInfo :=
  if task.idle then task
  else
    let credit := min (max task.schedSlice eevdfWakeupCredit) eevdfSleeperCredit
    let placed := if base > credit then base - credit else 0
    let vruntime := if task.vruntime < placed then placed else task.vruntime
    { task with vruntime := vruntime, deadline := deadlineAfter vruntime task.schedSlice }

/-- `wake_sleeping_task`. -/
def wakeSleeping (now base : UInt64) : TaskInfo :=
  if task.status = .wait ∧ task.wakeupTime ≠ 0 ∧ task.wakeupTime ≤ now then
    { task.applyWakeupCredit base with wakeupTime := 0, status := .start }
  else task

end

/-- `deadline_before` for two tasks. -/
def deadlineBefore (left right : TaskInfo) : Bool :=
  if left.deadline ≠ right.deadline then left.deadline < right.deadline
  else left.vruntime < right.vruntime

end TaskInfo

variable {τ : Type} [DecidableEq τ]

/-- `deadline_before`, where no task at all loses against any. -/
def deadlineBefore (tasks : τ → TaskInfo) (left : τ) : Option τ → Bool
  | none => true
  | some right => (tasks left).deadlineBefore (tasks right)

def isTaskSchedulable (tasks : τ → TaskInfo) (task : τ) (current : Option τ) : Bool :=
  current ≠ some task && !(tasks task).idle && (tasks task).runnable

/-- The locals of `queue_average_vruntime`, with the tasks it has woken. -/
structure Average (τ : Type) where
  tasks : τ → TaskInfo
  sum : UInt64
  count : UInt64
  fallback : Option τ
  idle : Option τ

/-- One turn of the loop of `queue_average_vruntime`. -/
def averageStep (current : Option τ) (now : UInt64) (average : Average τ) (candidate : τ) :
    Average τ :=
  let base := (average.tasks (current.getD candidate)).vruntime
  let tasks := update average.tasks candidate ((average.tasks candidate).wakeSleeping now base)
  let idle :=
    if current ≠ some candidate ∧ (tasks candidate).idle ∧ (tasks candidate).runnable then
      some candidate
    else average.idle
  let counted : Average τ :=
    { tasks := tasks
      sum := average.sum + (tasks candidate).vruntime
      count := average.count + 1
      fallback := average.fallback
      idle := idle }
  let skipped : Average τ :=
    { counted with sum := average.sum, count := average.count }
  if current = some candidate then
    if (tasks candidate).runnable then counted else skipped
  else if isTaskSchedulable tasks candidate current then
    if deadlineBefore tasks candidate average.fallback then
      { counted with fallback := some candidate }
    else counted
  else skipped

section

variable (tasks : τ → TaskInfo)

/-- `queue_average_vruntime`: the loop over the queue. -/
def queueAverage (queue : List τ) (current : Option τ) (now : UInt64) : Average τ :=
  queue.foldl (averageStep current now) ⟨tasks, 0, 0, none, none⟩

/-- The average itself. -/
def Average.vruntime (average : Average τ) : UInt64 :=
  if average.count = 0 then 0 else average.sum / average.count

/-- The second loop of the selection: the earliest deadline among those not ahead of the
average. -/
def eligible (current : Option τ) (limit : UInt64) (queue : List τ) : Option τ :=
  queue.foldl (fun best candidate =>
    if isTaskSchedulable tasks candidate current ∧ (tasks candidate).vruntime ≤ limit ∧
        deadlineBefore tasks candidate best then some candidate
    else best) none

/-- The selection first wakes the current task if its time has come. -/
def wakeCurrent (now : UInt64) : Option τ → (τ → TaskInfo)
  | none => tasks
  | some task => update tasks task ((tasks task).wakeSleeping now (tasks task).vruntime)

/-- The task that replaces the current one, if any can. -/
def Average.best (average : Average τ) (current : Option τ) (queue : List τ) : Option τ :=
  match average.fallback with
  | none => none
  | some fallback =>
    if (average.tasks fallback).vruntime ≤ average.vruntime then some fallback
    else (eligible average.tasks current average.vruntime queue).or (some fallback)

/-- Without such a task the current one goes on, or the CPU idles. -/
def Average.rest (average : Average τ) (current : Option τ) : Option τ :=
  if current.any fun task => (average.tasks task).runnable then current else average.idle

/-- The locked section of `select_next_task_safe_at`: the tasks after the wake-ups it
makes, and the task it selects. -/
def selectNext (queue : List τ) (current : Option τ) (now : UInt64) : (τ → TaskInfo) × Option τ :=
  if queue = [] then (tasks, none)
  else
    let average := queueAverage (wakeCurrent tasks now current) queue current now
    (average.tasks, (average.best current queue).or (average.rest current))

end

/-- Where a CPU stands in `timer_handle`: outside it, after `scheduler_interrupt_enter`,
after the selection, or about to publish. The locals `current` and `best` or `next` are
kept with it. -/
inductive Phase (τ : Type)
  | outside
  | entered
  | chosen (current : τ) (best : Option τ)
  | leaving (current next : τ)
  deriving Repr

/-- One CPU: its queue, the references the scan looks at, and its timer interrupt. -/
structure Cpu (τ : Type) where
  queue : List τ
  current : Option τ
  selected : Option τ
  previous : Option τ
  phase : Phase τ
  deriving Repr

/-- The test `scheduler_referenced` makes on one CPU. -/
def Cpu.references (cpu : Cpu τ) (task : τ) : Bool :=
  cpu.current = some task || cpu.selected = some task || cpu.previous = some task

/-- A scan by `scheduler_task_referenced` in progress: the next CPU it looks at.
`retired` records whether the task was terminal and on no queue when the scan began. -/
structure Scan (τ : Type) where
  task : τ
  next : ℕ
  retired : Bool
  deriving Repr

/-- All CPUs with their tasks and the scans in progress. `cleared` collects the tasks
for which a scan that began after their retirement returned false. -/
structure System (n : ℕ) (τ : Type) where
  tasks : τ → TaskInfo
  cpus : Fin n → Cpu τ
  scans : ℕ → Option (Scan τ)
  cleared : List τ

/-- Before the first CPU has been given its idle task. -/
def System.initial (n : ℕ) (tasks : τ → TaskInfo) : System n τ where
  tasks := tasks
  cpus _ := ⟨[], none, none, none, .outside⟩
  scans _ := none
  cleared := []

/-- What may happen next. The switch of a task without a valid context is declined:
`valid` says whether the saved instruction pointer is set. -/
inductive Action (n : ℕ) (τ : Type)
  | boot (cpu : Fin n) (task : τ)
  | addTask (task : τ)
  | kill (task : τ) (out : Bool)
  | setStatus (task : τ) (status : TaskStatus)
  | adjust (task : τ) (info : TaskInfo)
  | removeTask (task : τ)
  | interruptEnter (cpu : Fin n)
  | decline (cpu : Fin n)
  | select (cpu : Fin n) (now : UInt64)
  | decide (cpu : Fin n) (valid : Bool)
  | publish (cpu : Fin n)
  | scan (observer : ℕ) (task : τ)
  | visit (observer : ℕ)

section

variable (tasks : τ → TaskInfo)

/-- Compare and exchange the status of a task. -/
def exchange (task : τ) (expected desired : TaskStatus) : τ → TaskInfo :=
  if (tasks task).status = expected then
    update tasks task { tasks task with status := desired }
  else tasks

/-- The status changes of a switch: the old task is ready again, the new one runs. -/
def switchStatus (current best : τ) : τ → TaskInfo :=
  let tasks := exchange tasks current .running .start
  if (tasks best).status = .start then exchange tasks best .start .running
  else exchange tasks best .create .running

/-- What `timer_handle` does between its two locked sections: the tasks with their new
statuses, and the task to publish. -/
def decideNext (current : τ) (best : Option τ) (valid : Bool) : (τ → TaskInfo) × τ :=
  let best := if best = none ∧ (tasks current).runnable then some current else best
  match best with
  | none => (tasks, current)
  | some best =>
    if best = current ∨ !(tasks best).runnable then (tasks, current)
    else
      let switched := switchStatus tasks current best
      if valid then (switched, best) else (exchange switched current .start .running, current)

end

namespace System

variable {n : ℕ}

section

variable (system : System n τ)

/-- Replace the state of one CPU. -/
def setCpu (cpu : Fin n) (state : Cpu τ) : System n τ :=
  { system with cpus := update system.cpus cpu state }

/-- `remove_task`: take the task off the queue it was put on, or off the first that has
it. -/
def removeTask (home : τ → Fin n) (task : τ) : System n τ :=
  match (home task :: List.finRange n).find? fun cpu => task ∈ (system.cpus cpu).queue with
  | none => system
  | some cpu =>
    system.setCpu cpu { system.cpus cpu with queue := (system.cpus cpu).queue.erase task }

section

variable (index : Fin n)

/-- `scheduler_interrupt_enter`. -/
def interruptEnter : System n τ :=
  let cpu := system.cpus index
  match cpu.phase with
  | .outside => system.setCpu index { cpu with previous := none, phase := .entered }
  | _ => system

/-- The returns of `timer_handle` before the selection: scheduling is disabled, there is
no current task, or its time slice has not run out. -/
def decline : System n τ :=
  let cpu := system.cpus index
  match cpu.phase with
  | .entered => system.setCpu index { cpu with phase := .outside }
  | _ => system

/-- `select_next_task_safe_at` as `timer_handle` calls it. -/
def select (now : UInt64) : System n τ :=
  let cpu := system.cpus index
  match cpu.phase, cpu.current with
  | .entered, some current =>
    let (tasks, result) := selectNext system.tasks cpu.queue cpu.current now
    { system.setCpu index { cpu with selected := result, phase := .chosen current result } with
      tasks := tasks }
  | _, _ => system

/-- The decision between the two locked sections. -/
def decide (valid : Bool) : System n τ :=
  let cpu := system.cpus index
  match cpu.phase with
  | .chosen current best =>
    let (tasks, next) := decideNext system.tasks current best valid
    { system.setCpu index { cpu with phase := .leaving current next } with tasks := tasks }
  | _ => system

/-- `scheduler_publish_task`. -/
def publish : System n τ :=
  let cpu := system.cpus index
  match cpu.phase with
  | .leaving current next =>
    system.setCpu index
      { cpu with
        previous := if current ≠ next then some current else cpu.previous
        selected := none
        current := some next
        phase := .outside }
  | _ => system

end

/-- One visit of a scan: a reference ends it with true; the last CPU ends it with
false. -/
def visit (observer : ℕ) : System n τ :=
  match system.scans observer with
  | none => system
  | some scan =>
    if inside : scan.next < n then
      if (system.cpus ⟨scan.next, inside⟩).references scan.task then
        { system with scans := update system.scans observer none }
      else
        { system with
          scans := update system.scans observer
            (some { scan with next := scan.next + 1 }) }
    else
      { system with
        scans := update system.scans observer none
        cleared := if scan.retired then scan.task :: system.cleared else system.cleared }

end

/-- One step. `home` is the CPU whose queue a task is put on. -/
def step (home : τ → Fin n) (system : System n τ) : Action n τ → System n τ
  | .boot cpu task =>
    if home task = cpu ∧ (system.cpus cpu).current = none ∧
        (system.tasks task).status.terminal = false then
      system.setCpu cpu { system.cpus cpu with current := some task }
    else system
  | .addTask task =>
    let cpu := system.cpus (home task)
    system.setCpu (home task) { cpu with queue := cpu.queue ++ [task] }
  | .kill task out =>
    { system with
      tasks := update system.tasks task
        { system.tasks task with status := if out then .out else .death } }
  | .setStatus task status =>
    if (system.tasks task).status.terminal then system
    else
      { system with
        tasks := update system.tasks task { system.tasks task with status := status } }
  | .adjust task info =>
    { system with
      tasks := update system.tasks task
        { info with status := (system.tasks task).status } }
  | .removeTask task => system.removeTask home task
  | .interruptEnter cpu => system.interruptEnter cpu
  | .decline cpu => system.decline cpu
  | .select cpu now => system.select cpu now
  | .decide cpu valid => system.decide cpu valid
  | .publish cpu => system.publish cpu
  | .scan observer task =>
    { system with
      scans := update system.scans observer (some
          { task := task
            next := 0
            retired := (system.tasks task).status.terminal &&
              (List.finRange n).all fun cpu => task ∉ (system.cpus cpu).queue }) }
  | .visit observer => system.visit observer

end System

end OpenXJ380.Scheduler
