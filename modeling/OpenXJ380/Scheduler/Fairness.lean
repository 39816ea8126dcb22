/-
# The EEVDF selection and the spread of virtual run times

`select_next_task_safe_at` makes two passes over the queue. The first wakes sleepers whose
time has come, adds up the virtual run times of the runnable tasks and remembers the earliest
deadline; the second looks for the earliest deadline among the tasks that are not ahead of the
average. The current task takes part in the average but cannot be selected.

With equal slices the earliest deadline is the smallest virtual run time, so every round goes
to the task that is furthest behind among those that are not running. `Bounded` is the
invariant that follows: nobody is further ahead of the running task than at the start, and
nobody further ahead of a waiting one than that and one charge.
-/

import OpenXJ380.Scheduler.Model

namespace OpenXJ380.Scheduler

open List Function
open Protocol (Along run)

namespace TaskInfo

/-- The order of `deadline_before`, with ties. -/
def NoLater (left right : TaskInfo) : Prop :=
  left.deadline < right.deadline ∨ left.deadline = right.deadline ∧ left.vruntime ≤ right.vruntime

variable {left right : TaskInfo}

theorem deadlineBefore_iff :
    left.deadlineBefore right = true ↔ left.deadline.toNat < right.deadline.toNat ∨
      left.deadline.toNat = right.deadline.toNat ∧ left.vruntime.toNat < right.vruntime.toNat := by
  rw [deadlineBefore]
  by_cases h : left.deadline = right.deadline
  · rw [if_neg (not_not.mpr h), decide_eq_true_eq, UInt64.lt_iff_toNat_lt, h]
    omega
  · have hne : left.deadline.toNat ≠ right.deadline.toNat := fun heq => h (UInt64.toNat_inj.mp heq)
    rw [if_pos h, decide_eq_true_eq, UInt64.lt_iff_toNat_lt]
    omega

theorem noLater_iff : left.NoLater right ↔ left.deadline.toNat < right.deadline.toNat ∨
      left.deadline.toNat = right.deadline.toNat ∧ left.vruntime.toNat ≤ right.vruntime.toNat := by
  rw [NoLater, UInt64.lt_iff_toNat_lt, UInt64.le_iff_toNat_le, UInt64.toNat_inj]

theorem deadlineBefore_eq_false : left.deadlineBefore right = false ↔ right.NoLater left := by
  rw [← Bool.not_eq_true, deadlineBefore_iff, noLater_iff]
  omega

variable (task : TaskInfo)

theorem NoLater.refl : task.NoLater task := .inr ⟨rfl, UInt64.le_refl _⟩

theorem NoLater.trans {first second third : TaskInfo} (h : first.NoLater second)
    (h' : second.NoLater third) : first.NoLater third := by
  rw [noLater_iff] at *
  omega

theorem noLater_of_deadlineBefore (h : left.deadlineBefore right = true) : left.NoLater right := by
  rw [deadlineBefore_iff] at h
  rw [noLater_iff]
  omega

/-- A task that was woken, or that did not have to be, is not woken again. -/
theorem wakeSleeping_wakeSleeping (now base base' : UInt64) :
    (task.wakeSleeping now base).wakeSleeping now base' = task.wakeSleeping now base := by
  apply if_neg
  rw [wakeSleeping]
  split
  · simp
  · assumption

end TaskInfo

variable {τ : Type} [DecidableEq τ]

/-- `best` is the earliest of the tasks in the list that are wanted. -/
structure Least (tasks : τ → TaskInfo) (wanted : τ → Prop) (list : List τ) (best : Option τ) :
    Prop where
  found : (∃ task ∈ list, wanted task) → best ≠ none
  chosen : ∀ task, best = some task → task ∈ list ∧ wanted task ∧
    ∀ other ∈ list, wanted other → (tasks task).NoLater (tasks other)

namespace Least

variable {tasks : τ → TaskInfo} {wanted : τ → Prop} {list : List τ} {best : Option τ} {candidate : τ}

omit [DecidableEq τ] in
theorem nil : Least tasks wanted [] none := ⟨by simp, by simp⟩

omit [DecidableEq τ] in
theorem skip (h : Least tasks wanted list best) (hskip : ¬ wanted candidate) :
    Least tasks wanted (list ++ [candidate]) best := by
  have hmem : ∀ task ∈ list ++ [candidate], wanted task → task ∈ list := by
    intro task hin hwanted
    rcases mem_append.mp hin with hold | hnew
    · exact hold
    · exact absurd (mem_singleton.mp hnew ▸ hwanted) hskip
  constructor
  · rintro ⟨task, hin, hwanted⟩
    exact h.found ⟨task, hmem task hin hwanted, hwanted⟩
  · intro task htask
    rcases h.chosen task htask with ⟨hin, hwanted, hleast⟩
    exact ⟨mem_append_left _ hin, hwanted, fun other hother hwanted' =>
      hleast other (hmem other hother hwanted') hwanted'⟩

omit [DecidableEq τ] in
/-- A task that is wanted and not later than any of the list takes the place of the best one, and
one that is not earlier than the best one does not. -/
theorem push (h : Least tasks wanted list best) (hwanted : wanted candidate) :
    Least tasks wanted (list ++ [candidate])
      (if deadlineBefore tasks candidate best then some candidate else best) := by
  have htakes : (∀ other ∈ list, wanted other → (tasks candidate).NoLater (tasks other)) →
      Least tasks wanted (list ++ [candidate]) (some candidate) := by
    refine fun hearly => ⟨by simp, fun task htask => ?_⟩
    cases htask
    refine ⟨by simp, hwanted, fun other hother hwanted' => ?_⟩
    rcases mem_append.mp hother with hin | hnew
    · exact hearly other hin hwanted'
    · rw [mem_singleton.mp hnew]
      exact .refl _
  cases best with
  | none => exact htakes fun other hin hwanted' => absurd rfl (h.found ⟨other, hin, hwanted'⟩)
  | some old =>
    rcases h.chosen old rfl with ⟨hmem, hold, hleast⟩
    rw [deadlineBefore]
    split
    · rename_i hbefore
      exact htakes fun other hin hwanted' =>
        (TaskInfo.noLater_of_deadlineBefore hbefore).trans (hleast other hin hwanted')
    · rename_i hbefore
      rw [Bool.not_eq_true, TaskInfo.deadlineBefore_eq_false] at hbefore
      refine ⟨by simp, fun task htask => ?_⟩
      cases htask
      refine ⟨mem_append_left _ hmem, hold, fun other hother hwanted' => ?_⟩
      rcases mem_append.mp hother with hin | hnew
      · exact hleast other hin hwanted'
      · rwa [mem_singleton.mp hnew]

omit [DecidableEq τ] in
theorem congr {tasks' : τ → TaskInfo} {wanted' : τ → Prop} (h : Least tasks wanted list best)
    (htasks : ∀ task ∈ list, tasks' task = tasks task)
    (hwanted : ∀ task ∈ list, wanted' task ↔ wanted task) : Least tasks' wanted' list best := by
  constructor
  · rintro ⟨task, hmem, htask⟩
    exact h.found ⟨task, hmem, (hwanted task hmem).mp htask⟩
  · intro task htask
    rcases h.chosen task htask with ⟨hmem, hchosen, hleast⟩
    refine ⟨hmem, (hwanted task hmem).mpr hchosen, fun other hother hother' => ?_⟩
    rw [htasks task hmem, htasks other hother]
    exact hleast other hother ((hwanted other hother).mp hother')

end Least

section

variable (tasks : τ → TaskInfo)

/-- The runnable tasks of the average: the current one and those that can be selected. -/
def counts (current : Option τ) (task : τ) : Bool :=
  if current = some task then (tasks task).runnable else isTaskSchedulable tasks task current

def totalVruntime (list : List τ) : Nat := (list.map fun task => (tasks task).vruntime.toNat).sum

/-- The integer average over the runnable tasks of a queue. -/
def averageVruntime (queue : List τ) (current : Option τ) : Nat :=
  totalVruntime tasks (queue.filter (counts tasks current)) /
    (queue.filter (counts tasks current)).length

end

/-- What the loop of `queue_average_vruntime` knows of the tasks it has passed. -/
structure Averaging (current : Option τ) (now : UInt64) (list : List τ) (average : Average τ) :
    Prop where
  woken : ∀ task ∈ list, ∀ base,
    (average.tasks task).wakeSleeping now base = average.tasks task
  sum : average.sum.toNat =
    totalVruntime average.tasks (list.filter (counts average.tasks current)) % 2 ^ 64
  count : average.count.toNat = (list.filter (counts average.tasks current)).length % 2 ^ 64
  fallback : Least average.tasks (fun task => isTaskSchedulable average.tasks task current = true)
    list average.fallback

section Passes

variable {current : Option τ} {now : UInt64} {list : List τ} {average : Average τ} {candidate : τ}

theorem counts_congr {tasks tasks' : τ → TaskInfo} {task : τ} (h : tasks' task = tasks task) :
    counts tasks' current task = counts tasks current task := by
  simp only [counts, isTaskSchedulable, h]

theorem Averaging.step (h : Averaging current now list average) :
    Averaging current now (list ++ [candidate]) (averageStep current now average candidate) := by
  generalize hbase : (average.tasks (current.getD candidate)).vruntime = base
  generalize hwoken : update average.tasks candidate
    ((average.tasks candidate).wakeSleeping now base) = tasks
  have hsame : ∀ task ∈ list, tasks task = average.tasks task := by
    intro task hmem
    rw [← hwoken]
    by_cases heq : task = candidate
    · subst heq
      rw [update_self, h.woken task hmem]
    · rw [update_of_ne heq]
  have hcandidate : ∀ base', (tasks candidate).wakeSleeping now base' = tasks candidate := by
    intro base'
    rw [← hwoken, update_self, TaskInfo.wakeSleeping_wakeSleeping]
  have hfilter : list.filter (counts tasks current) = list.filter (counts average.tasks current) :=
    filter_congr fun task hmem => counts_congr (hsame task hmem)
  have htotal : totalVruntime tasks (list.filter (counts tasks current)) =
      totalVruntime average.tasks (list.filter (counts average.tasks current)) := by
    rw [hfilter, totalVruntime, totalVruntime]
    refine congrArg List.sum (map_congr_left fun task hmem => ?_)
    rw [hsame task (mem_of_mem_filter hmem)]
  have hwokenAll : ∀ task ∈ list ++ [candidate], ∀ base',
      (tasks task).wakeSleeping now base' = tasks task := by
    intro task hmem base'
    rcases mem_append.mp hmem with hold | hnew
    · rw [hsame task hold]
      exact h.woken task hold base'
    · rw [mem_singleton.mp hnew]
      exact hcandidate base'
  have hleast : Least tasks (fun task => isTaskSchedulable tasks task current = true) list
      average.fallback := h.fallback.congr hsame fun task hmem => by
    simp only [isTaskSchedulable, hsame task hmem]
  -- The candidate is counted or not; the numbers follow.
  have hdone : ∀ {counted : Bool} {fallback idle : Option τ}, counts tasks current candidate = counted →
      Least tasks (fun task => isTaskSchedulable tasks task current = true) (list ++ [candidate])
        fallback →
      Averaging current now (list ++ [candidate])
        ⟨tasks, if counted then average.sum + (tasks candidate).vruntime else average.sum,
          if counted then average.count + 1 else average.count, fallback, idle⟩ := by
    rintro counted fallback idle rfl hbest
    refine And.elim (fun hsum hcount => ⟨hwokenAll, hsum, hcount, hbest⟩) ?_
    rw [filter_append, filter_singleton]
    cases counts tasks current candidate with
    | false =>
      simp only [cond_false, append_nil]
      rw [htotal, hfilter]
      exact ⟨h.sum, h.count⟩
    | true =>
      have hsum : totalVruntime tasks (list.filter (counts tasks current) ++ [candidate]) =
          totalVruntime tasks (list.filter (counts tasks current)) +
            (tasks candidate).vruntime.toNat := by simp [totalVruntime]
      simp only [if_true, cond_true]
      rw [length_append, hsum, htotal, hfilter, UInt64.toNat_add, UInt64.toNat_add, h.sum, h.count]
      simp
  simp only [averageStep, hbase, hwoken]
  by_cases hcurrent : current = some candidate
  · have hcounts : counts tasks current candidate = (tasks candidate).runnable := if_pos hcurrent
    have hnot : ¬ isTaskSchedulable tasks candidate current = true := by
      simp [isTaskSchedulable, hcurrent]
    have hskip := hleast.skip hnot
    rw [if_pos hcurrent]
    split
    · rename_i hrun
      exact hdone (hcounts.trans hrun) hskip
    · rename_i hrun
      rw [Bool.not_eq_true] at hrun
      exact hdone (hcounts.trans hrun) hskip
  · have hcounts : counts tasks current candidate = isTaskSchedulable tasks candidate current :=
      if_neg hcurrent
    rw [if_neg hcurrent]
    by_cases hsched : isTaskSchedulable tasks candidate current = true
    · have hbest := hleast.push hsched
      rw [if_pos hsched]
      split
      · rename_i hbefore
        rw [if_pos hbefore] at hbest
        exact hdone (hcounts.trans hsched) hbest
      · rename_i hbefore
        rw [if_neg hbefore] at hbest
        exact hdone (hcounts.trans hsched) hbest
    · rw [if_neg hsched]
      have hskip := hleast.skip hsched
      rw [Bool.not_eq_true] at hsched
      exact hdone (hcounts.trans hsched) hskip

theorem Averaging.foldl {rest : List τ} (h : Averaging current now list average) :
    Averaging current now (list ++ rest) (rest.foldl (averageStep current now) average) := by
  induction rest generalizing list average with
  | nil => simpa using h
  | cons candidate rest ih => simpa using ih h.step

variable (tasks : τ → TaskInfo)

theorem averaging_queueAverage (queue : List τ) (current : Option τ)
    (now : UInt64) : Averaging current now queue (queueAverage tasks queue current now) :=
  have hstart : Averaging current now [] (⟨tasks, 0, 0, none, none⟩ : Average τ) :=
    ⟨by simp, rfl, rfl, .nil⟩
  hstart.foldl

theorem least_eligible (current : Option τ) (limit : UInt64) (queue : List τ) :
    Least tasks (fun task => isTaskSchedulable tasks task current = true ∧
      (tasks task).vruntime ≤ limit) queue (eligible tasks current limit queue) := by
  have hloop : ∀ (rest list : List τ) (best : Option τ),
      Least tasks (fun task => isTaskSchedulable tasks task current = true ∧
        (tasks task).vruntime ≤ limit) list best →
      Least tasks (fun task => isTaskSchedulable tasks task current = true ∧
        (tasks task).vruntime ≤ limit) (list ++ rest)
        (rest.foldl (fun best candidate => if isTaskSchedulable tasks candidate current ∧
          (tasks candidate).vruntime ≤ limit ∧ deadlineBefore tasks candidate best then some candidate
          else best) best) := by
    intro rest
    induction rest with
    | nil => intro list best h; simpa using h
    | cons candidate rest ih =>
      intro list best h
      rw [foldl_cons, ← singleton_append, ← append_assoc]
      apply ih
      by_cases hwanted : isTaskSchedulable tasks candidate current = true ∧
          (tasks candidate).vruntime ≤ limit
      · have hbest := h.push hwanted
        simpa only [hwanted.1, hwanted.2, true_and] using hbest
      · rw [if_neg fun hchosen => hwanted ⟨hchosen.1, hchosen.2.1⟩]
        exact h.skip hwanted
  exact hloop queue [] none .nil

end Passes

section

variable (tasks : τ → TaskInfo)

/-- The task is one of those that a selection may take, and none of them is earlier. -/
def Earliest (candidates : List τ) (task : τ) : Prop :=
  task ∈ candidates ∧ ∀ other ∈ candidates, (tasks task).NoLater (tasks other)

/-- The tasks that can replace the current one. -/
def schedulable (queue : List τ) (current : Option τ) : List τ :=
  queue.filter fun task => isTaskSchedulable tasks task current

/-- Those of them that are not ahead of the average. -/
def behind (queue : List τ) (current : Option τ) : List τ :=
  (schedulable tasks queue current).filter fun task =>
    decide ((tasks task).vruntime.toNat ≤ averageVruntime tasks queue current)

theorem Averaging.vruntime {current : Option τ} {now : UInt64} {queue : List τ} {average : Average τ}
    (h : Averaging current now queue average) (hlength : queue.length < 2 ^ 64)
    (hsum : totalVruntime average.tasks (queue.filter (counts average.tasks current)) < 2 ^ 64) :
    average.vruntime.toNat = averageVruntime average.tasks queue current := by
  have hcount := h.count
  rw [Nat.mod_eq_of_lt (Nat.lt_of_le_of_lt (length_filter_le _ _) hlength)] at hcount
  rw [Average.vruntime, averageVruntime, ← hcount]
  split
  · rename_i hzero
    rw [hzero]
    simp
  · rw [UInt64.toNat_div, h.sum, Nat.mod_eq_of_lt hsum]

/-- One selection, described by the tasks as it leaves them. -/
theorem selectNext_earliest (queue : List τ) (current : Option τ)
    (now : UInt64) (hlength : queue.length < 2 ^ 64)
    (hsum : totalVruntime (selectNext tasks queue current now).1
      (queue.filter (counts (selectNext tasks queue current now).1 current)) < 2 ^ 64)
    (hsome : schedulable (selectNext tasks queue current now).1 queue current ≠ []) :
    ∃ task, (selectNext tasks queue current now).2 = some task ∧
      if behind (selectNext tasks queue current now).1 queue current = [] then
        Earliest (selectNext tasks queue current now).1
          (schedulable (selectNext tasks queue current now).1 queue current) task
      else
        Earliest (selectNext tasks queue current now).1
          (behind (selectNext tasks queue current now).1 queue current) task := by
  by_cases hempty : queue = []
  · simp [hempty, schedulable] at hsome
  have havg := averaging_queueAverage (wakeCurrent tasks now current) queue current now
  rw [selectNext, if_neg hempty] at *
  generalize queueAverage (wakeCurrent tasks now current) queue current now = average at *
  have hlimit := havg.vruntime hlength hsum
  have hmemS : ∀ task, task ∈ schedulable average.tasks queue current ↔
      task ∈ queue ∧ isTaskSchedulable average.tasks task current = true := fun task =>
    mem_filter
  have hmemB : ∀ task, task ∈ behind average.tasks queue current ↔
      task ∈ schedulable average.tasks queue current ∧
        (average.tasks task).vruntime ≤ average.vruntime := by
    intro task
    rw [behind, mem_filter, decide_eq_true_eq, ← hlimit, UInt64.le_iff_toNat_le]
  obtain ⟨fallback, hfallback⟩ : ∃ task, average.fallback = some task := by
    rcases exists_mem_of_ne_nil _ hsome with ⟨task, htask⟩
    exact Option.ne_none_iff_exists'.mp (havg.fallback.found ⟨task, (hmemS task).mp htask⟩)
  rcases havg.fallback.chosen fallback hfallback with ⟨hmem, hsched, hleast⟩
  have hfirst : Earliest average.tasks (schedulable average.tasks queue current) fallback :=
    ⟨(hmemS _).mpr ⟨hmem, hsched⟩, fun other hother =>
      hleast other ((hmemS _).mp hother).1 ((hmemS _).mp hother).2⟩
  simp only [Average.best, hfallback]
  by_cases hlow : (average.tasks fallback).vruntime ≤ average.vruntime
  · have hin : fallback ∈ behind average.tasks queue current := (hmemB _).mpr ⟨hfirst.1, hlow⟩
    rw [if_pos hlow, Option.some_or]
    refine ⟨fallback, rfl, ?_⟩
    rw [if_neg (ne_nil_of_mem hin)]
    exact ⟨hin, fun other hother => hfirst.2 other ((hmemB _).mp hother).1⟩
  · rw [if_neg hlow]
    have hsecond := least_eligible average.tasks current average.vruntime queue
    cases heligible : eligible average.tasks current average.vruntime queue with
    | none =>
      refine ⟨fallback, rfl, ?_⟩
      rw [if_pos]
      · exact hfirst
      · apply eq_nil_iff_forall_not_mem.mpr
        intro task htask
        rcases (hmemB _).mp htask with ⟨hcan, hbehind⟩
        exact hsecond.found ⟨task, ((hmemS _).mp hcan).1, ((hmemS _).mp hcan).2, hbehind⟩ heligible
    | some task =>
      rcases hsecond.chosen task heligible with ⟨hqueue, ⟨hcan, hbehind⟩, hearly⟩
      have hin : task ∈ behind average.tasks queue current :=
        (hmemB _).mpr ⟨(hmemS _).mpr ⟨hqueue, hcan⟩, hbehind⟩
      refine ⟨task, rfl, ?_⟩
      rw [if_neg (ne_nil_of_mem hin)]
      refine ⟨hin, fun other hother => ?_⟩
      rcases (hmemB _).mp hother with ⟨hother', hlow'⟩
      exact hearly other ((hmemS _).mp hother').1 ⟨((hmemS _).mp hother').2, hlow'⟩

end

namespace TaskInfo

/-- `charge_current_eevdf_runtime`. -/
def charge (task : TaskInfo) (runtime : UInt64) : TaskInfo :=
  if task.idle then task
  else if runtime = 0 then task
  else
    let vruntime :=
      if task.vruntime > ~~~(0 : UInt64) - runtime then ~~~(0 : UInt64) else task.vruntime + runtime
    { task with vruntime := vruntime, deadline := deadlineAfter vruntime task.schedSlice }

/-- `mark_task_dispatched`. -/
def dispatched (task : TaskInfo) : TaskInfo :=
  let slice := if task.slice < eevdfMinSlice then eevdfBaseSlice else task.slice
  { task with
    slice := slice
    deadline :=
      if task.deadline = 0 then deadlineAfter task.vruntime ({ task with slice := slice }.schedSlice)
      else task.deadline }

/-- A task that is always ready to run, with a slice and the deadline that belongs to it. -/
structure Steady (task : TaskInfo) (slice : UInt64) : Prop where
  runnable : task.runnable = true
  busy : task.idle = false
  deadline : task.deadline.toNat = task.vruntime.toNat + slice.toNat
  sliced : task.schedSlice = slice

theorem not_toNat_sub {a b : UInt64} (h : a.toNat + b.toNat < 2 ^ 64) :
    ¬ a > ~~~(0 : UInt64) - b := by
  have hmax : (~~~(0 : UInt64)).toNat = 2 ^ 64 - 1 := by decide
  have hle : b ≤ ~~~(0 : UInt64) := by
    rw [UInt64.le_iff_toNat_le, hmax]
    omega
  rw [gt_iff_lt, UInt64.lt_iff_toNat_lt, UInt64.toNat_sub_of_le _ _ hle, hmax]
  omega

theorem toNat_deadlineAfter {vruntime slice : UInt64} (h : vruntime.toNat + slice.toNat < 2 ^ 64) :
    (deadlineAfter vruntime slice).toNat = vruntime.toNat + slice.toNat := by
  rw [deadlineAfter, if_neg (not_toNat_sub h), UInt64.toNat_add, Nat.mod_eq_of_lt h]

/-- A dispatched task keeps its place and, charged, moves by what it ran. -/
theorem Steady.charge {task : TaskInfo} {slice d : UInt64} (h : task.Steady slice) (hd : 0 < d)
    (hroom : task.vruntime.toNat + d.toNat + slice.toNat < 2 ^ 64) :
    (task.dispatched.charge d).Steady slice ∧
      (task.dispatched.charge d).vruntime.toNat = task.vruntime.toNat + d.toNat := by
  have hslice : task.dispatched.schedSlice = slice := by
    rw [← h.sliced]
    simp only [dispatched, schedSlice]
    split
    all_goals rfl
  have hbusy : task.dispatched.idle = false := h.busy
  have hsame : task.dispatched.vruntime = task.vruntime := rfl
  have hlt : task.vruntime.toNat + d.toNat < 2 ^ 64 := by omega
  have hne : d ≠ 0 := fun hzero => by rw [hzero] at hd; cases hd
  have hsum : (task.vruntime + d).toNat = task.vruntime.toNat + d.toNat := by
    rw [UInt64.toNat_add, Nat.mod_eq_of_lt hlt]
  have hcharge : task.dispatched.charge d = { task.dispatched with
      vruntime := task.vruntime + d, deadline := deadlineAfter (task.vruntime + d) slice } := by
    rw [TaskInfo.charge, if_neg (by simp [hbusy]), if_neg hne, hslice, hsame, if_neg (not_toNat_sub hlt)]
  rw [hcharge]
  refine ⟨⟨h.runnable, hbusy, ?_, hslice⟩, hsum⟩
  exact toNat_deadlineAfter (by rw [hsum]; exact hroom)

end TaskInfo

/-- The tasks of a CPU and the one that it runs. -/
structure Round (τ : Type) where
  tasks : τ → TaskInfo
  current : τ

/-- The next task is selected, dispatched and charged for its turn. -/
def Round.next (queue : List τ) (d : UInt64) (round : Round τ) (now : UInt64) : Round τ :=
  match selectNext round.tasks queue (some round.current) now with
  | (tasks, none) => { round with tasks := tasks }
  | (tasks, some task) => ⟨update tasks task ((tasks task).dispatched.charge d), task⟩

/-- Nobody on the queue is further ahead of the running task than `spread`, and nobody further
ahead of another one than that and one charge. -/
structure Round.Bounded (queue : List τ) (slice : UInt64) (spread d : Nat) (round : Round τ) : Prop where
  steady : ∀ task ∈ queue, (round.tasks task).Steady slice
  running : round.current ∈ queue
  own : ∀ task ∈ queue, (round.tasks task).vruntime.toNat ≤
    (round.tasks round.current).vruntime.toNat + spread
  others : ∀ task ∈ queue, ∀ other ∈ queue, (round.tasks task).vruntime.toNat ≤
    (round.tasks other).vruntime.toNat + spread + d

/-- No virtual run time comes near the end of its range. -/
def Round.Room (queue : List τ) (slice d : UInt64) (round : Round τ) : Prop :=
  ∀ task ∈ queue, (round.tasks task).vruntime.toNat + d.toNat + slice.toNat < 2 ^ 64

namespace Round

variable {queue : List τ} {slice d now : UInt64} {spread : Nat} {round : Round τ}

/-- Tasks that are ready to run are not asleep. -/
theorem wakeSleeping_of_runnable {task : TaskInfo} (h : task.runnable = true) (now base : UInt64) :
    task.wakeSleeping now base = task := by
  apply if_neg
  rintro ⟨hwait, -, -⟩
  rw [TaskInfo.runnable, hwait] at h
  cases h

theorem tasks_averageStep {current : Option τ} {average : Average τ} {candidate : τ}
    (h : (average.tasks candidate).runnable = true) :
    (averageStep current now average candidate).tasks = average.tasks := by
  simp only [averageStep, wakeSleeping_of_runnable h, update_eq_self]
  split_ifs <;> rfl

theorem tasks_selectNext {tasks : τ → TaskInfo} {current : τ}
    (hqueue : ∀ task ∈ queue, (tasks task).runnable = true) (hcurrent : current ∈ queue) :
    (selectNext tasks queue (some current) now).1 = tasks := by
  have hwake : wakeCurrent tasks now (some current) = tasks := by
    rw [wakeCurrent, wakeSleeping_of_runnable (hqueue current hcurrent), update_eq_self]
  have hloop : (queueAverage tasks queue (some current) now).tasks = tasks := by
    refine List.foldlRecOn (motive := fun average : Average τ => average.tasks = tasks) queue _ rfl ?_
    intro average hsame candidate hmem
    rw [tasks_averageStep (by rw [hsame]; exact hqueue candidate hmem), hsame]
  rw [selectNext, if_neg (ne_nil_of_mem hcurrent), hwake]
  exact hloop

/-- The selection takes a task that is furthest behind among those that wait. -/
theorem selectNext_steady (hsteady : ∀ task ∈ queue, (round.tasks task).Steady slice)
    (hcurrent : round.current ∈ queue) (hother : ∃ task ∈ queue, task ≠ round.current) :
    ∃ task ∈ queue, task ≠ round.current ∧
      selectNext round.tasks queue (some round.current) now = (round.tasks, some task) ∧
      ∀ other ∈ queue, other ≠ round.current →
        (round.tasks task).vruntime.toNat ≤ (round.tasks other).vruntime.toNat := by
  have hrunnable : ∀ task ∈ queue, (round.tasks task).runnable = true :=
    fun task hmem => (hsteady task hmem).runnable
  have hsame := @tasks_selectNext τ _ queue now round.tasks round.current hrunnable hcurrent
  have havg := averaging_queueAverage (wakeCurrent round.tasks now (some round.current)) queue
    (some round.current) now
  rw [selectNext, if_neg (ne_nil_of_mem hcurrent)] at hsame ⊢
  dsimp only at hsame ⊢
  generalize queueAverage (wakeCurrent round.tasks now (some round.current)) queue
    (some round.current) now = average at hsame havg ⊢
  have hcan : ∀ task ∈ queue,
      isTaskSchedulable average.tasks task (some round.current) = true ↔ task ≠ round.current := by
    intro task hmem
    have hready := (hsteady task hmem).runnable
    have hbusy := (hsteady task hmem).busy
    simp only [isTaskSchedulable, hsame, hready, hbusy, Bool.not_false, Bool.and_true,
      decide_eq_true_eq, ne_eq, Option.some.injEq]
    exact not_congr eq_comm
  rcases hother with ⟨waiting, hmem, hne⟩
  obtain ⟨fallback, hfallback⟩ : ∃ task, average.fallback = some task :=
    Option.ne_none_iff_exists'.mp (havg.fallback.found ⟨waiting, hmem, (hcan _ hmem).mpr hne⟩)
  rcases havg.fallback.chosen fallback hfallback with ⟨hin, hsched, hleast⟩
  have hbehind : ∀ other ∈ queue, other ≠ round.current →
      (round.tasks fallback).vruntime.toNat ≤ (round.tasks other).vruntime.toNat := by
    intro other hother hne'
    have hearly := TaskInfo.noLater_iff.mp (hleast other hother ((hcan _ hother).mpr hne'))
    rw [hsame, (hsteady _ hin).deadline, (hsteady _ hother).deadline] at hearly
    omega
  refine ⟨fallback, hin, (hcan _ hin).mp hsched, ?_, hbehind⟩
  rw [hsame, Average.best, hfallback]
  dsimp only
  split
  · rfl
  -- A task that is not ahead of the average would be behind the earliest one.
  rename_i hahead
  have hnone : eligible average.tasks (some round.current) average.vruntime queue = none := by
    rcases hcase : eligible average.tasks (some round.current) average.vruntime queue with _ | low
    · rfl
    · rcases (least_eligible average.tasks (some round.current) average.vruntime queue).chosen low hcase with
        ⟨hlow, ⟨hlowSched, hlowBehind⟩, -⟩
      have hle := hbehind low hlow ((hcan _ hlow).mp hlowSched)
      rw [hsame, UInt64.le_iff_toNat_le] at hahead hlowBehind
      omega
  rw [hnone]
  rfl

variable (h : round.Bounded queue slice spread d.toNat)
include h

theorem Bounded.next (hd : 0 < d)
    (hroom : round.Room queue slice d) (hother : ∃ task ∈ queue, task ≠ round.current) :
    (round.next queue d now).Bounded queue slice spread d.toNat := by
  rcases @selectNext_steady τ _ queue slice now round h.steady h.running hother with
    ⟨task, hmem, hne, hselect, hbehind⟩
  rcases (h.steady task hmem).charge hd (hroom task hmem) with ⟨hsteady, hcharged⟩
  have hnext : round.next queue d now =
      ⟨update round.tasks task ((round.tasks task).dispatched.charge d), task⟩ := by
    rw [Round.next, hselect]
  have htask : (round.next queue d now).tasks task = (round.tasks task).dispatched.charge d := by
    rw [hnext]
    exact update_self ..
  have hself : ((round.next queue d now).tasks task).vruntime.toNat =
      (round.tasks task).vruntime.toNat + d.toNat := by
    rw [htask, hcharged]
  have hkept : ∀ other ≠ task, (round.next queue d now).tasks other = round.tasks other := by
    intro other hother'
    rw [hnext]
    exact update_of_ne hother' _ _
  have hcurrent : (round.next queue d now).current = task := by rw [hnext]
  constructor
  · intro other hother'
    by_cases heq : other = task
    · rw [heq, htask]
      exact hsteady
    · rw [hkept other heq]
      exact h.steady other hother'
  · rw [hcurrent]
    exact hmem
  · intro other hother'
    rw [hcurrent, hself]
    by_cases heq : other = task
    · rw [heq, hself]
      omega
    · have hbound := h.others other hother' task hmem
      rw [hkept other heq]
      omega
  · intro first hfirst second hsecond
    by_cases hone : first = task
    · by_cases htwo : second = task
      · rw [hone, htwo]
        omega
      rw [hone, hself, hkept second htwo]
      by_cases hrun : second = round.current
      · have hbound := h.own task hmem
        rw [hrun]
        omega
      · have hle := hbehind second hsecond hrun
        omega
    · rw [hkept first hone]
      by_cases htwo : second = task
      · have hbound := h.others first hfirst task hmem
        rw [htwo, hself]
        omega
      · rw [hkept second htwo]
        exact h.others first hfirst second hsecond

theorem Bounded.run (hd : 0 < d)
    (htwo : ∀ task ∈ queue, ∃ other ∈ queue, other ≠ task) {times : List UInt64}
    (hroom : Along (Round.next queue d) (fun round _ => round.Room queue slice d) round times) :
    (run (Round.next queue d) round times).Bounded queue slice spread d.toNat :=
  Protocol.invariant_run _ _ (fun _ _ hroom' h' => h'.next hd hroom' (htwo _ h'.running)) hroom h

end Round

/-- **Selection and fairness.**  A selection takes an earliest task among those that are not
ahead of the average, or among all that can be selected where none of them is that low. With
always runnable tasks of one slice, each charged `d` for its turn, the virtual run times never
spread by more than at the start and `d`. -/
theorem eevdf_selection_fairness :
    (∀ (tasks : τ → TaskInfo) (queue : List τ) (current : Option τ) (now : UInt64),
      queue.length < 2 ^ 64 →
      totalVruntime (selectNext tasks queue current now).1
        (queue.filter (counts (selectNext tasks queue current now).1 current)) < 2 ^ 64 →
      schedulable (selectNext tasks queue current now).1 queue current ≠ [] →
      ∃ task, (selectNext tasks queue current now).2 = some task ∧
        if behind (selectNext tasks queue current now).1 queue current = [] then
          Earliest (selectNext tasks queue current now).1
            (schedulable (selectNext tasks queue current now).1 queue current) task
        else
          Earliest (selectNext tasks queue current now).1
            (behind (selectNext tasks queue current now).1 queue current) task) ∧
    ∀ (queue : List τ) (slice d : UInt64) (round : Round τ) (times : List UInt64) (spread : Nat),
      0 < d → round.current ∈ queue → (∃ task ∈ queue, task ≠ round.current) →
      (∀ task ∈ queue, (round.tasks task).Steady slice) →
      Along (Round.next queue d) (fun round _ => round.Room queue slice d) round times →
      (∀ task ∈ queue, ∀ other ∈ queue,
        (round.tasks task).vruntime.toNat ≤ (round.tasks other).vruntime.toNat + spread) →
      ∀ task ∈ queue, ∀ other ∈ queue,
        ((run (Round.next queue d) round times).tasks task).vruntime.toNat ≤
          ((run (Round.next queue d) round times).tasks other).vruntime.toNat +
            spread + d.toNat := by
  refine ⟨selectNext_earliest, ?_⟩
  intro queue slice d round times spread hd hcurrent hother hsteady hroom hspread
  have htwo : ∀ task ∈ queue, ∃ other ∈ queue, other ≠ task := by
    intro task _
    by_cases heq : task = round.current
    · rw [heq]
      exact hother
    · exact ⟨round.current, hcurrent, Ne.symm heq⟩
  have hstart : round.Bounded queue slice spread d.toNat :=
    ⟨hsteady, hcurrent, fun task hmem => hspread task hmem _ hcurrent,
      fun task hmem other hmem' => (hspread task hmem other hmem').trans (Nat.le_add_right _ _)⟩
  exact (hstart.run hd htwo hroom).others

/-- Two tasks, the first of them running and a second behind. -/
def twoTasks : Round Bool where
  tasks task :=
    { status := .running, idle := false, parent := some .running
      vruntime := if task then 1000 else 0
      deadline := if task then 4001000 else 4000000
      slice := eevdfBaseSlice, wakeupTime := 0 }
  current := false

theorem eevdf_selection_fairness_twoTasks :
    (∃ task, (selectNext twoTasks.tasks [false, true] (some false) 0).2 = some task) ∧
      ((run (Round.next [false, true] 5000) twoTasks [0, 1, 2]).tasks true).vruntime.toNat ≤
        ((run (Round.next [false, true] 5000) twoTasks [0, 1, 2]).tasks false).vruntime.toNat +
          1000 + 5000 := by
  constructor
  · rcases (@eevdf_selection_fairness Bool _).1 twoTasks.tasks [false, true] (some false) 0
      (by decide) (by decide +kernel) (by decide +kernel) with ⟨task, hselected, -⟩
    exact ⟨task, hselected⟩
  · refine (@eevdf_selection_fairness Bool _).2 [false, true] eevdfBaseSlice 5000 twoTasks [0, 1, 2] 1000
      (by decide) (by decide) ⟨true, by decide⟩ ?_ ?_ (by decide +kernel) true (by decide) false (by decide)
    · intro task _
      constructor <;> revert task <;> decide
    · unfold Round.Room
      decide +kernel

end OpenXJ380.Scheduler
