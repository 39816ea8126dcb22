/-
# The list of the processes that have a flag

What `state_lock` protects: the list holds the processes that are secret or have a raw
mapping, each once, and the two numbers count them. The walk that retires stopped processes
comes to the same as the exit of each of them.
-/

import OpenXJ380.Capture.Model

namespace OpenXJ380.Capture

open List Function

variable {π : Type} [DecidableEq π]

namespace Policy

variable {policy : Policy π} {process : π}

/-- The list holds the processes that have a flag, and the numbers count them. -/
structure Consistent (policy : Policy π) : Prop where
  nodup : policy.registered.Nodup
  mem : ∀ process, process ∈ policy.registered ↔ policy.secret process ∨ policy.rawMapped process
  secret : policy.secretProcesses = policy.registered.countP policy.secret
  mapped : policy.mappedProcesses = policy.registered.countP policy.rawMapped

omit [DecidableEq π] in
theorem consistent_empty : (empty : Policy π).Consistent := by constructor <;> simp [empty]

variable {flag : π → Bool} {list : List π}

/-- A change of one flag of a process that is not counted elsewhere in the list. -/
theorem countP_update_of_notMem {value : Bool} (hnot : process ∉ list) :
    list.countP (update flag process value) = list.countP flag := by
  refine countP_congr fun other hother => ?_
  rw [update_of_ne]
  rintro rfl
  exact hnot hother

theorem countP_eq_erase (hmem : process ∈ list) :
    list.countP flag = (list.erase process).countP flag + if flag process then 1 else 0 := by
  rw [(perm_cons_erase hmem).countP_eq, countP_cons]

/-- What a flag counts when one process of the list gets it. -/
theorem countP_update_true (hmem : process ∈ list) (hnodup : list.Nodup)
    (hflag : flag process = false) :
    list.countP (update flag process true) = list.countP flag + 1 := by
  have hnot : process ∉ list.erase process := by
    rw [hnodup.mem_erase_iff]
    simp
  rw [countP_eq_erase hmem, countP_update_of_notMem hnot, countP_eq_erase hmem, hflag]
  simp

section Sections

variable (h : policy.Consistent)

include h

section

variable (hsecret : policy.secret process = false)
include hsecret

omit [DecidableEq π] in
theorem Consistent.notMem
    (hmapped : policy.rawMapped process = false) : process ∉ policy.registered := by
  rw [h.mem, hsecret, hmapped]
  simp

/-- A process enters the list before it gets its first flag. -/
theorem Consistent.markSecret :
    ((policy.registerLocked process).markSecret process).Consistent := by
  unfold registerLocked
  split
  next hflag =>
    have hmapped : policy.rawMapped process = true := by simpa [hsecret] using hflag
    have hmem : process ∈ policy.registered := (h.mem process).mpr (.inr hmapped)
    refine ⟨h.nodup, fun other => ?_, ?_, h.mapped⟩
    · by_cases hother : other = process
      · simp [Policy.markSecret, hother, hmem]
      · simp [Policy.markSecret, hother, h.mem]
    · exact (congrArg (· + 1) h.secret).trans (countP_update_true hmem h.nodup hsecret).symm
  next hflag =>
    have hmapped : policy.rawMapped process = false := by simpa [hsecret] using hflag
    have hnot := h.notMem hsecret hmapped
    refine ⟨nodup_cons.mpr ⟨hnot, h.nodup⟩, fun other => ?_, ?_, ?_⟩
    · by_cases hother : other = process
      · simp [Policy.markSecret, hother]
      · simp [Policy.markSecret, hother, h.mem]
    · simp [Policy.markSecret, countP_update_of_notMem hnot, h.secret]
    · simp [Policy.markSecret, h.mapped, hmapped]

end

theorem Consistent.markMapped (hmapped : policy.rawMapped process = false) :
    ((policy.registerLocked process).markMapped process).Consistent := by
  unfold registerLocked
  split
  next hflag =>
    have hsecret : policy.secret process = true := by simpa [hmapped] using hflag
    have hmem : process ∈ policy.registered := (h.mem process).mpr (.inl hsecret)
    refine ⟨h.nodup, fun other => ?_, h.secret, ?_⟩
    · by_cases hother : other = process
      · simp [Policy.markMapped, hother, hmem]
      · simp [Policy.markMapped, hother, h.mem]
    · exact (congrArg (· + 1) h.mapped).trans (countP_update_true hmem h.nodup hmapped).symm
  next hflag =>
    have hsecret : policy.secret process = false := by simpa [hmapped] using hflag
    have hnot := h.notMem hsecret hmapped
    refine ⟨nodup_cons.mpr ⟨hnot, h.nodup⟩, fun other => ?_, ?_, ?_⟩
    · by_cases hother : other = process
      · simp [Policy.markMapped, hother]
      · simp [Policy.markMapped, hother, h.mem]
    · simp [Policy.markMapped, h.secret, hsecret]
    · simp [Policy.markMapped, countP_update_of_notMem hnot, h.mapped]

theorem Consistent.processExit (process : π) : (policy.processExit process).Consistent := by
  by_cases hmem : process ∈ policy.registered
  · have hnot : process ∉ policy.registered.erase process := by
      rw [h.nodup.mem_erase_iff]
      simp
    have hcount : ∀ flag : π → Bool, ∀ count, count = policy.registered.countP flag →
        (if flag process then count - 1 else count) =
          (policy.registered.erase process).countP (update flag process false) := by
      intro flag count heq
      rw [countP_update_of_notMem hnot, heq, countP_eq_erase hmem]
      split <;> simp
    refine ⟨h.nodup.erase process, fun other => ?_, hcount _ _ h.secret, hcount _ _ h.mapped⟩
    show other ∈ policy.registered.erase process ↔ _
    rw [h.nodup.mem_erase_iff, h.mem]
    by_cases hother : other = process
    all_goals simp [Policy.processExit, releaseLocked, hother]
  · have hflags : policy.secret process = false ∧ policy.rawMapped process = false := by
      simpa using mt (h.mem process).mpr hmem
    have hsame : policy.processExit process = policy := by
      unfold Policy.processExit releaseLocked
      simp only [erase_of_not_mem hmem, hflags.1, hflags.2, Bool.false_eq_true, if_false]
      rw [update_eq_self_iff.mpr hflags.1.symm, update_eq_self_iff.mpr hflags.2.symm]
    rw [hsame]
    exact h

end Sections

/-- The walk over the list takes the processes out of it that have stopped. -/
theorem retireFrom_eq (stopped : π → Bool) (passed list : List π) (policy : Policy π)
    (hnodup : (passed ++ list).Nodup) :
    { (retireFrom stopped list policy).2 with
      registered := passed ++ (retireFrom stopped list policy).1 } =
      (list.filter stopped).foldl Policy.processExit { policy with registered := passed ++ list } := by
  induction list generalizing passed policy with
  | nil => rfl
  | cons process rest ih =>
    have hpassed : process ∉ passed := by
      intro hmem
      exact (nodup_append.mp hnodup).2.2 process hmem process mem_cons_self rfl
    unfold retireFrom
    split
    next hstopped =>
      rw [filter_cons_of_pos hstopped, foldl_cons]
      have herase : ({ policy with registered := passed ++ process :: rest } : Policy π).processExit process =
          { policy.releaseLocked process with registered := passed ++ rest } := by
        simp [Policy.processExit, releaseLocked, erase_append_right _ hpassed]
      rw [herase]
      exact ih passed _ (hnodup.sublist (by simp))
    next hstopped =>
      rw [filter_cons_of_neg hstopped]
      have hstep := ih (passed ++ [process]) policy (by simpa using hnodup)
      simpa using hstep

theorem retireStoppedLocked_eq (h : policy.Consistent) (stopped : π → Bool) :
    policy.retireStoppedLocked stopped =
      (policy.registered.filter stopped).foldl Policy.processExit policy := by
  have hwalk := retireFrom_eq stopped [] policy.registered policy (by simpa using h.nodup)
  simpa [retireStoppedLocked] using hwalk

/-- Flags are taken away from stopped processes only. -/
structure Retired (stopped : π → Bool) (policy policy' : Policy π) : Prop where
  consistent : policy'.Consistent
  secret : ∀ process, policy'.secret process → policy.secret process
  mapped : ∀ process, policy'.rawMapped process → policy.rawMapped process
  keepsSecret : ∀ process, policy.secret process → policy'.secret process ∨ stopped process
  keepsMapped : ∀ process, policy.rawMapped process → policy'.rawMapped process ∨ stopped process

variable {stopped : π → Bool}

theorem retired_processExit (h : policy.Consistent) (hstopped : stopped process) :
    Retired stopped policy (policy.processExit process) := by
  refine ⟨h.processExit process, ?_, ?_, ?_, ?_⟩
  all_goals
    intro other hother
    by_cases heq : other = process
    all_goals simp_all [Policy.processExit, releaseLocked]

theorem retired_foldl (stopped : π → Bool) (list : List π) (policy : Policy π) (h : policy.Consistent)
    (hlist : ∀ process ∈ list, stopped process) :
    Retired stopped policy (list.foldl Policy.processExit policy) := by
  induction list generalizing policy with
  | nil => exact ⟨h, fun _ => id, fun _ => id, fun _ => .inl, fun _ => .inl⟩
  | cons process rest ih =>
    have hfirst := retired_processExit h (hlist process mem_cons_self)
    have hrest := ih _ hfirst.consistent fun other hother => hlist other (mem_cons_of_mem _ hother)
    refine ⟨hrest.consistent, fun other hother => hfirst.secret other (hrest.secret other hother),
      fun other hother => hfirst.mapped other (hrest.mapped other hother), ?_, ?_⟩
    · intro other hother
      rcases hfirst.keepsSecret other hother with hkept | hstopped
      · exact hrest.keepsSecret other hkept
      · exact .inr hstopped
    · intro other hother
      rcases hfirst.keepsMapped other hother with hkept | hstopped
      · exact hrest.keepsMapped other hkept
      · exact .inr hstopped

theorem retired_retireStoppedLocked (h : policy.Consistent) (stopped : π → Bool) :
    Retired stopped policy (policy.retireStoppedLocked stopped) := by
  rw [retireStoppedLocked_eq h]
  exact retired_foldl stopped _ policy h fun process hmem => (mem_filter.mp hmem).2

section Register

variable (policy : Policy π) (process : π)

omit [DecidableEq π] in
@[simp]
theorem registerLocked_secret : (policy.registerLocked process).secret = policy.secret := by
  unfold registerLocked
  split <;> rfl

omit [DecidableEq π] in
@[simp]
theorem registerLocked_rawMapped : (policy.registerLocked process).rawMapped = policy.rawMapped := by
  unfold registerLocked
  split <;> rfl

end Register

/-- No process has the one flag while another has the other. -/
def Separate (policy : Policy π) : Prop :=
  ∀ process other, policy.secret process → policy.rawMapped other = false

omit [DecidableEq π] in
theorem Retired.separate {policy' : Policy π} (h : Retired stopped policy policy')
    (hseparate : policy.Separate) : policy'.Separate := by
  intro process other hsecret
  have hmapped := hseparate process other (h.secret process hsecret)
  by_contra hother
  rw [h.mapped other (by simpa using hother)] at hmapped
  cases hmapped

variable (h : policy.Consistent)
include h

omit [DecidableEq π] in
theorem Consistent.secret_eq_false (hzero : policy.secretProcesses = 0) (process : π) :
    policy.secret process = false := by
  by_contra hsecret
  have hsecret : policy.secret process = true := by simpa using hsecret
  have hmem : process ∈ policy.registered := (h.mem process).mpr (.inl hsecret)
  have hnone := countP_eq_zero.mp (h.secret ▸ hzero) process hmem
  exact hnone hsecret

omit [DecidableEq π] in
theorem Consistent.rawMapped_eq_false (hzero : policy.mappedProcesses = 0)
    (process : π) : policy.rawMapped process = false := by
  by_contra hmapped
  have hmapped : policy.rawMapped process = true := by simpa using hmapped
  have hmem : process ∈ policy.registered := (h.mem process).mpr (.inr hmapped)
  have hnone := countP_eq_zero.mp (h.mapped ▸ hzero) process hmem
  exact hnone hmapped

end Policy

end OpenXJ380.Capture
