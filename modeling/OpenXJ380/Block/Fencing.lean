/-
# Poisoned storage stays fenced

A poisoned lease or ticket is a tombstone: no public function removes or
changes it, so from the moment it appears every request for the bytes it covers
is refused and the disk below it keeps its generation. The proof has one frame
lemma per table, an invariant over the later schedule, and the inversion lemmas
of the calls that hand out access.
-/

import OpenXJ380.Block.Exclusion

namespace OpenXJ380.Block

open Protocol

/-- A slot of one of the two storage tables. -/
inductive Slot
  | lease (i : Fin kLeases)
  | ticket (i : Fin kTickets)

/-- A live entry that has been poisoned. -/
def Access.Tombstone (entry : Access) : Prop := entry.live = true ∧ entry.poisoned = true

/-- Tombstones are kept as they are. -/
def Stays (before after : Access) : Prop := before.Tombstone → after = before

theorem Stays.refl (entry : Access) : Stays entry entry := fun _ => rfl

theorem Access.poison_eq_self {entry : Access} (h : entry.poisoned = true) :
    entry.poison = entry := by
  cases entry
  simp_all [Access.poison]

theorem Stays.poison (entry : Access) : Stays entry entry.poison :=
  fun h => Access.poison_eq_self h.2

theorem Stays.poisonWhere {n : Nat} (table : Fin n → Access) (test : Access → Bool)
    (i : Fin n) : Stays (table i) (poisonWhere table test i) := by
  unfold Block.poisonWhere
  split
  · exact Stays.poison _
  · exact Stays.refl _

/-- Overwriting a slot that holds no tombstone keeps all tombstones. -/
theorem Stays.update {n : Nat} {table : Fin n → Access} {slot : Fin n}
    (hslot : ¬ (table slot).Tombstone) (entry : Access) (i : Fin n) :
    Stays (table i) (Function.update table slot entry i) := by
  intro h
  by_cases hi : i = slot
  · subst hi
    exact absurd h hslot
  · rw [Function.update_of_ne hi]

theorem not_tombstone_of_free {entry : Access} (h : entry.live = false) : ¬ entry.Tombstone := by
  simp [Access.Tombstone, h]

theorem not_tombstone_of_clean {entry : Access} (h : entry.poisoned = false) :
    ¬ entry.Tombstone := by
  simp [Access.Tombstone, h]

namespace Registry

variable {s t : Registry}

def entry (s : Registry) : Slot → Access
  | .lease i => s.leases i
  | .ticket i => s.tickets i

structure KeepsTombstones (s t : Registry) : Prop where
  lease : ∀ i, Stays (s.leases i) (t.leases i)
  ticket : ∀ i, Stays (s.tickets i) (t.tickets i)
  management : Stays s.management t.management

/-- Calls that leave the three tables alone. -/
theorem KeepsTombstones.of_eq (hleases : t.leases = s.leases) (htickets : t.tickets = s.tickets)
    (hmanagement : t.management = s.management) : KeepsTombstones s t :=
  ⟨fun _ => hleases ▸ Stays.refl _, fun _ => htickets ▸ Stays.refl _, hmanagement ▸ Stays.refl _⟩

theorem identity_management : s.identity.2.management = s.management := by
  unfold identity; split <;> rfl

@[simp]
theorem setDevice_management (device : UInt32) (entry : Registration) :
    (s.setDevice device entry).management = s.management := by
  unfold setDevice; split <;> rfl

variable {task : Option Task} {extent : BlockExtent} {token : BlockAccessToken} {device : UInt32}
  {generation offset bytes : UInt64} {slot : Slot}

theorem keepsTombstones_claim {exclusive scan : Bool}
    (h : s.claim task extent exclusive scan = .ok (token, t)) : KeepsTombstones s t := by
  obtain ⟨-, -, -, slot, hfree, rfl⟩ := claim_ok h
  refine ⟨Stays.update (not_tombstone_of_free hfree) _, fun i => ?_, ?_⟩
  · rw [identity_frame.2.2]
    exact Stays.refl _
  · rw [identity_management]
    exact Stays.refl _

theorem keepsTombstones_ioBegin
    (h : s.ioBegin task device generation offset bytes = .ok (token, t)) :
    KeepsTombstones s t := by
  obtain ⟨-, -, -, -, -, slot, hfree, rfl⟩ := ioBegin_ok h
  refine ⟨fun i => ?_, Stays.update (not_tombstone_of_free hfree) _, ?_⟩
  · rw [identity_frame.2.1]
    exact Stays.refl _
  · rw [identity_management]
    exact Stays.refl _

theorem keepsTombstones_release (h : s.release task token = .ok t) : KeepsTombstones s t := by
  unfold release at h
  split at h
  · simp at h
  split at h
  · simp at h
  rename_i hclean
  split at h
  · simp at h
  · cases h
    exact ⟨Stays.update (not_tombstone_of_clean (by simpa using hclean)) _,
      fun i => Stays.refl _, Stays.refl _⟩

theorem keepsTombstones_ioEnd (token : BlockAccessToken) : KeepsTombstones s (s.ioEnd token) := by
  unfold ioEnd
  split
  · exact .of_eq rfl rfl rfl
  · rename_i slot hslot
    have hclean := List.find?_some hslot
    simp only [Bool.and_eq_true, Bool.not_eq_true'] at hclean
    exact ⟨fun i => Stays.refl _, Stays.update (not_tombstone_of_clean hclean.2) _, Stays.refl _⟩

theorem keepsTombstones_unregister (h : s.unregister task device = .ok t) :
    KeepsTombstones s t := by
  obtain ⟨-, -, -, hleases, htickets, -⟩ := unregister_ok h
  refine .of_eq hleases htickets ?_
  simp only [unregister] at h
  split at h
  · simp at h
  · split at h
    · simp at h
    · split at h <;> cases h <;> simp

theorem keepsTombstones_managementBegin (h : s.managementBegin task = .ok (token, t)) :
    KeepsTombstones s t := by
  simp only [managementBegin] at h
  split at h
  · simp at h
  rename_i hclean
  split at h
  · split at h
    · simp at h
    split at h
    · simp at h
    · cases h
      exact .of_eq rfl rfl rfl
  · split at h
    · simp at h
    cases h
    refine ⟨fun i => ?_, fun i => ?_, fun hstone => ?_⟩
    · rw [identity_frame.2.1]
      exact Stays.refl _
    · rw [identity_frame.2.2]
      exact Stays.refl _
    · exact absurd hstone.2 hclean

theorem keepsTombstones_managementEnd (task : Option Task) (token : BlockAccessToken) :
    KeepsTombstones s (s.managementEnd task token) := by
  unfold managementEnd
  split
  · rename_i hclean
    simp only [Bool.and_eq_true, Bool.not_eq_true'] at hclean
    split
    · exact ⟨fun i => Stays.refl _, fun i => Stays.refl _,
        fun hstone => absurd hstone (not_tombstone_of_clean hclean.1.1.2)⟩
    · exact .of_eq rfl rfl rfl
  · exact .of_eq rfl rfl rfl

/-- Poisoning some entries of each table keeps the tombstones there are. -/
theorem KeepsTombstones.of_poisonWhere (leaseTest ticketTest : Access → Bool)
    (hleases : t.leases = poisonWhere s.leases leaseTest)
    (htickets : t.tickets = poisonWhere s.tickets ticketTest)
    (hmanagement : Stays s.management t.management) : KeepsTombstones s t := by
  refine ⟨fun i => ?_, fun i => ?_, hmanagement⟩
  · rw [hleases]
    exact Stays.poisonWhere s.leases leaseTest i
  · rw [htickets]
    exact Stays.poisonWhere s.tickets ticketTest i

theorem keepsTombstones_abandonOwner (task : Option Nat) (tid : UInt64) :
    KeepsTombstones s (s.abandonOwner task tid) := by
  cases task with
  | none => exact .of_eq rfl rfl rfl
  | some task =>
    refine .of_poisonWhere (fun entry => entry.exclusive && ownedByPointer task tid entry)
      (ownedByPointer task tid) rfl rfl ?_
    simp only [abandonOwner]
    split
    · exact Stays.poison _
    · exact Stays.refl _

theorem keepsTombstones_reapAbandoned (stopped : Nat → Bool) :
    KeepsTombstones s (s.reapAbandoned stopped) := by
  refine .of_poisonWhere (fun entry => entry.exclusive && ownerStopped stopped entry)
    (ownerStopped stopped) rfl rfl ?_
  simp only [reapAbandoned]
  split
  · exact Stays.poison _
  · exact Stays.refl _

theorem keepsTombstones_execute {step : Step} (hok : s.execute step = .ok (token, t)) :
    KeepsTombstones s t := by
  obtain ⟨task, call⟩ := step
  cases call <;> simp only [Registry.execute, Except.map] at hok
  case registerWhole device bytes flushSupported =>
    split at hok <;> cases hok
    obtain ⟨-, -, -, generation, rfl⟩ := registerWhole_ok ‹_›
    exact .of_eq (by simp [identity_frame]) (by simp [identity_frame])
      (by simp [identity_management])
  case registerSlice device parent offset bytes =>
    split at hok <;> cases hok
    obtain ⟨-, generation, -, -, -, -, -, -, rfl⟩ := registerSlice_ok ‹_›
    exact .of_eq (by simp [identity_frame]) (by simp [identity_frame])
      (by simp [identity_management])
  case publishDevice device generation =>
    split at hok <;> cases hok
    obtain ⟨-, rfl⟩ := publishDevice_ok ‹_›
    exact .of_eq (by simp) (by simp) (by simp)
  case unregister device =>
    split at hok <;> cases hok
    exact keepsTombstones_unregister ‹_›
  case claim extent exclusive => exact keepsTombstones_claim hok
  case release token =>
    split at hok <;> cases hok
    exact keepsTombstones_release ‹_›
  case poison token =>
    cases hok
    exact .of_poisonWhere (fun entry => entry.token == token && token != 0)
      (fun entry => entry.token == token && token != 0) rfl rfl (Stays.refl _)
  case ioBegin device generation offset bytes => exact keepsTombstones_ioBegin hok
  case flushBegin device generation =>
    obtain ⟨extent, -, hio⟩ := flushBegin_ok hok
    exact keepsTombstones_ioBegin hio
  case ioEnd token => cases hok; exact keepsTombstones_ioEnd token
  case scanBegin device =>
    obtain ⟨extent, -, hclaim⟩ := scanBegin_ok hok
    exact keepsTombstones_claim hclaim
  case managementBegin => exact keepsTombstones_managementBegin hok
  case managementEnd token => cases hok; exact keepsTombstones_managementEnd task token
  case abandonOwner pointer tid => cases hok; exact keepsTombstones_abandonOwner pointer tid
  case reapAbandoned stopped => cases hok; exact keepsTombstones_reapAbandoned stopped

theorem keepsTombstones_step (s : Registry) (step : Step) : KeepsTombstones s (s.step step) := by
  unfold Registry.step
  split
  · exact keepsTombstones_execute ‹_›
  · exact .of_eq rfl rfl rfl

/-- A tombstone is the same entry after every later schedule. -/
theorem entry_run_of_tombstone (slot : Slot) (schedule : List Step) (h : (s.entry slot).Tombstone) :
    (run Registry.step s schedule).entry slot = s.entry slot := by
  refine invariant_run_of_step Registry.step (fun t => t.entry slot = s.entry slot)
    (fun t step ht => ?_) rfl schedule
  have hkeeps := keepsTombstones_step t step
  rw [← ht] at h
  cases slot with
  | lease i => exact (hkeeps.lease i h).trans ht
  | ticket i => exact (hkeeps.ticket i h).trans ht

theorem management_run_of_tombstone (schedule : List Step) (h : s.management.Tombstone) :
    (run Registry.step s schedule).management = s.management := by
  refine invariant_run_of_step Registry.step (fun t => t.management = s.management)
    (fun t step ht => ?_) rfl schedule
  rw [← ht] at h
  exact ((keepsTombstones_step t step).management h).trans ht

/-- The physical disk and bytes that a call asks for in a given state. -/
def Call.target (s : Registry) : Call → Option (UInt32 × Set ℕ)
  | .registerWhole device bytes _ => some (device, Set.Ico 0 bytes.toNat)
  | .registerSlice _ parent offset bytes =>
    let base := (s.deviceAt parent).extent
    some (base.physicalDevice, Set.Ico (base.start.toNat + offset.toNat)
      (base.start.toNat + offset.toNat + bytes.toNat))
  | .claim extent _ => some (extent.physicalDevice, extent.span)
  | .ioBegin device _ offset bytes =>
    let base := (s.deviceAt device).extent
    some (base.physicalDevice, Set.Ico (base.start.toNat + offset.toNat)
      (base.start.toNat + offset.toNat + bytes.toNat))
  | .flushBegin device _ =>
    some ((s.deviceAt device).extent.physicalDevice, (s.deviceAt device).extent.span)
  | .scanBegin device =>
    some ((s.deviceAt device).extent.physicalDevice, (s.deviceAt device).extent.span)
  | _ => none

section

variable (h : s.Sound)
include h

section

variable (hlive : (s.entry slot).live = true)
include hlive

/-- The entry of a storage slot that covers bytes stands on a current disk. -/
theorem Sound.anchored_entry
    (hbytes : (s.entry slot).extent.bytes.toNat ≠ 0) : s.Anchored (s.entry slot).extent := by
  cases slot with
  | lease i => exact h.lease i hlive
  | ticket i => exact h.ticket i hlive hbytes

/-- Sharing a byte with a tombstone on the same physical device is what
`overlaps` detects, provided the other extent carries the current generation. -/
theorem Sound.overlaps_tombstone (hnoWrap : extent.NoWrap)
    (hgeneration : (s.deviceAt extent.physicalDevice).extent.generation = extent.physicalGeneration)
    (hphysical : extent.physicalDevice = (s.entry slot).extent.physicalDevice)
    (hshared : ¬ Disjoint extent.span (s.entry slot).extent.span) :
    overlaps (s.entry slot).extent extent = true := by
  have hbytes : (s.entry slot).extent.bytes.toNat ≠ 0 := by
    intro hzero
    exact hshared (by simp [BlockExtent.span, hzero])
  have ha := h.anchored_entry hlive hbytes
  obtain ⟨-, -, -, hcurrent⟩ := h.current ha
  refine (overlaps_iff (h.noWrap ha) hnoWrap).mpr ⟨?_, fun hd => hshared hd.symm⟩
  rw [sameDisk_iff, ← hcurrent, ← hgeneration, hphysical]
  exact ⟨rfl, rfl⟩

/-- A claim never succeeds on bytes of a live entry. -/
theorem Sound.claim_refused
    {exclusive scan : Bool}
    (hphysical : extent.physicalDevice = (s.entry slot).extent.physicalDevice)
    (hshared : ¬ Disjoint extent.span (s.entry slot).extent.span) :
    ∀ token t, s.claim task extent exclusive scan ≠ .ok (token, t) := by
  intro token t hok
  obtain ⟨hresolve, hleases, htickets, -⟩ := claim_ok hok
  obtain ⟨hvalid, hextent, hgeneration⟩ := resolve_some hresolve
  have hnoWrap : extent.NoWrap := hextent ▸ (h.placed _ hvalid).noWrap
  have hover := h.overlaps_tombstone hlive hnoWrap hgeneration hphysical hshared
  cases slot with
  | lease i => exact absurd ((hleases i hlive).symm.trans hover) (by simp)
  | ticket i => exact absurd ((htickets i hlive).symm.trans hover) (by simp)

end

/-- A part of a resolved device has its end inside the disk. -/
theorem Sound.noWrap_part {base : BlockExtent} (hresolve : s.resolve device generation = some base)
    (hroom : offset.toNat + bytes.toNat ≤ base.bytes.toNat) :
    (base.start + offset).toNat = base.start.toNat + offset.toNat ∧
      base.start.toNat + offset.toNat + bytes.toNat < 2 ^ 64 := by
  obtain ⟨hvalid, hextent, -⟩ := resolve_some hresolve
  have hnoWrap : base.NoWrap := hextent ▸ (h.placed _ hvalid).noWrap
  rw [BlockExtent.NoWrap] at hnoWrap
  refine ⟨?_, by omega⟩
  rw [UInt64.toNat_add]
  exact Nat.mod_eq_of_lt (by omega)

/-- An I/O request never succeeds on bytes of a tombstone. -/
theorem Sound.ioBegin_refused (hstone : (s.entry slot).Tombstone)
    (hphysical : (s.deviceAt device).extent.physicalDevice = (s.entry slot).extent.physicalDevice)
    (hshared : ¬ Disjoint (Set.Ico ((s.deviceAt device).extent.start.toNat + offset.toNat)
        ((s.deviceAt device).extent.start.toNat + offset.toNat + bytes.toNat))
      (s.entry slot).extent.span) :
    ∀ token t, s.ioBegin task device generation offset bytes ≠ .ok (token, t) := by
  intro token t hok
  obtain ⟨base, hresolve, hroom, hleases, htickets, -⟩ := ioBegin_ok hok
  obtain ⟨-, hextent, hgeneration⟩ := resolve_some hresolve
  obtain ⟨hstart, hend⟩ := h.noWrap_part hresolve hroom
  rw [hextent] at hphysical hshared
  have hover : overlaps (s.entry slot).extent
      { base with start := base.start + offset, bytes } = true := by
    refine h.overlaps_tombstone hstone.1 ?_ hgeneration hphysical ?_
    · simpa [BlockExtent.NoWrap, hstart] using hend
    · simpa [BlockExtent.span, hstart] using hshared
  cases slot with
  | lease i =>
    have hclean := (hleases i hstone.1 hover).1
    exact absurd (hstone.2.symm.trans hclean) (by simp)
  | ticket i =>
    have hfree := htickets i hstone.1 hstone.2
    exact absurd (hover.symm.trans hfree) (by simp)

/-- No slice is ever registered over the bytes of a tombstone, not even by the
task that is scanning the disk. -/
theorem Sound.registerSlice_refused (hstone : (s.entry slot).Tombstone)
    {parent : UInt32}
    (hphysical : (s.deviceAt parent).extent.physicalDevice = (s.entry slot).extent.physicalDevice)
    (hshared : ¬ Disjoint (Set.Ico ((s.deviceAt parent).extent.start.toNat + offset.toNat)
        ((s.deviceAt parent).extent.start.toNat + offset.toNat + bytes.toNat))
      (s.entry slot).extent.span) :
    ∀ t, s.registerSlice task device parent offset bytes ≠ .ok t := by
  intro t hok
  obtain ⟨base, -, -, -, -, hresolve, hroom, havailable, -⟩ := registerSlice_ok hok
  obtain ⟨-, hextent, hgeneration⟩ := resolve_some hresolve
  obtain ⟨hstart, hend⟩ := h.noWrap_part hresolve hroom
  rw [hextent] at hphysical hshared
  have hover : overlaps (s.entry slot).extent ⟨device, base.physicalDevice, 0,
      base.physicalGeneration, base.start + offset, bytes⟩ = true := by
    refine h.overlaps_tombstone hstone.1 ?_ hgeneration hphysical ?_
    · simpa [BlockExtent.NoWrap, hstart] using hend
    · simpa [BlockExtent.span, hstart] using hshared
  simp only [available, Option.or_eq_none_iff, firstConflict_eq_none] at havailable
  cases slot with
  | lease i =>
    have hfree := havailable.1 i
    simp only [Registry.entry] at hover hstone
    simp [hstone.1, hstone.2, hover] at hfree
  | ticket i =>
    have hfree := havailable.2 i
    simp only [Registry.entry] at hover hstone
    simp [hstone.1, hover] at hfree

/-- A whole disk is never registered again over a tombstone: its number is
still taken. -/
theorem Sound.registerWhole_refused (hlive : (s.entry slot).live = true)
    {flushSupported : Bool} {range : Set ℕ}
    (hphysical : device = (s.entry slot).extent.physicalDevice)
    (hshared : ¬ Disjoint range (s.entry slot).extent.span) :
    ∀ t, s.registerWhole task device bytes flushSupported ≠ .ok t := by
  intro t hok
  obtain ⟨-, -, hfree, -⟩ := registerWhole_ok hok
  have hbytes : (s.entry slot).extent.bytes.toNat ≠ 0 := by
    intro hzero
    exact hshared (by simp [BlockExtent.span, hzero])
  obtain ⟨-, -, hvalid, -⟩ := h.current (h.anchored_entry hlive hbytes)
  rw [hphysical, hvalid] at hfree
  cases hfree

theorem Sound.execute_refused (hstone : (s.entry slot).Tombstone) {step : Step}
    {disk : UInt32} {range : Set ℕ} (htarget : Call.target s step.call = some (disk, range))
    (hphysical : disk = (s.entry slot).extent.physicalDevice)
    (hshared : ¬ Disjoint range (s.entry slot).extent.span) :
    ∀ token t, s.execute step ≠ .ok (token, t) := by
  obtain ⟨task, call⟩ := step
  intro token t hok
  cases call <;>
    simp only [Call.target, Option.some.injEq, Prod.mk.injEq] at htarget <;>
    obtain ⟨rfl, rfl⟩ := htarget <;>
    simp only [Registry.execute, Except.map] at hok
  case registerWhole device bytes flushSupported =>
    split at hok <;> cases hok
    exact h.registerWhole_refused hstone.1 hphysical hshared _ ‹_›
  case registerSlice device parent offset bytes =>
    split at hok <;> cases hok
    exact h.registerSlice_refused hstone hphysical hshared _ ‹_›
  case claim extent exclusive => exact h.claim_refused hstone.1 hphysical hshared token t hok
  case ioBegin device generation offset bytes =>
    exact h.ioBegin_refused hstone hphysical hshared token t hok
  case flushBegin device generation =>
    obtain ⟨extent, hresolve, hio⟩ := flushBegin_ok hok
    obtain ⟨-, hextent, -⟩ := resolve_some hresolve
    refine h.ioBegin_refused hstone hphysical ?_ token t hio
    simpa [BlockExtent.span, hextent] using hshared
  case scanBegin device =>
    obtain ⟨extent, hresolve, hclaim⟩ := scanBegin_ok hok
    obtain ⟨-, hextent, -⟩ := resolve_some hresolve
    rw [hextent] at hphysical hshared
    exact h.claim_refused hstone.1 hphysical hshared token t hclaim

end

/-- What a tombstone in `slot` of `s` still means in the later registry `t`.
`tracked` selects the entries that are required to pin the generation. -/
structure Fenced (s t : Registry) (slot : Slot) (tracked : Access → Prop) : Prop where
  /-- The entry is never released, reaped or changed. -/
  kept : t.entry slot = s.entry slot
  /-- No call that asks for a byte of the entry succeeds. -/
  refused : ∀ (step : Step) (disk : UInt32) (range : Set ℕ),
    Call.target t step.call = some (disk, range) →
    disk = (s.entry slot).extent.physicalDevice →
    ¬ Disjoint range (s.entry slot).extent.span →
    ∀ token u, t.execute step ≠ .ok (token, u)
  /-- The physical disk keeps its generation. -/
  generation : tracked (s.entry slot) →
    (t.deviceAt (s.entry slot).extent.physicalDevice).valid = true ∧
      (t.deviceAt (s.entry slot).extent.physicalDevice).extent.generation =
        (s.deviceAt (s.entry slot).extent.physicalDevice).extent.generation

/-- **Poisoned storage stays fenced.**  From a reachable registry with a
poisoned lease or ticket, after every later schedule of public calls: the entry
is unchanged, every request for one of its bytes is refused, and an entry of
nonzero length still pins the generation of its physical disk. A poisoned
management claim is likewise never given back or reaped. -/
theorem fenced_run (before later : List Step) :
    (∀ slot, ((run Registry.step Registry.initial before).entry slot).Tombstone →
      Fenced (run Registry.step Registry.initial before)
        (run Registry.step (run Registry.step Registry.initial before) later) slot
        fun entry => entry.extent.bytes ≠ 0) ∧
    ((run Registry.step Registry.initial before).management.Tombstone →
      (run Registry.step (run Registry.step Registry.initial before) later).management =
        (run Registry.step Registry.initial before).management) := by
  refine ⟨fun slot hstone => ?_, management_run_of_tombstone later⟩
  have hbefore := sound_run before
  have hlater : (run Registry.step (run Registry.step Registry.initial before) later).Sound := by
    rw [← run_append]
    exact sound_run (before ++ later)
  have hkept := entry_run_of_tombstone slot later hstone
  refine ⟨hkept, fun step disk range htarget hphysical hshared => ?_, fun hbytes => ?_⟩
  · rw [← hkept] at hstone hphysical hshared
    exact hlater.execute_refused hstone htarget hphysical hshared
  · have hnonzero := bytes_ne_zero_iff.mp (bne_iff_ne.mpr hbytes)
    have hold := hbefore.current (hbefore.anchored_entry hstone.1 hnonzero)
    rw [← hkept] at hstone hnonzero
    have hnew := hlater.current (hlater.anchored_entry hstone.1 hnonzero)
    rw [hkept] at hnew
    exact ⟨hnew.2.2.1, hnew.2.2.2.trans hold.2.2.2.symm⟩

/-- Register and publish disk 0, start a zero-byte request on it, poison it. -/
def poisonedZeroByte : List Step := [⟨none, .registerWhole 0 512 false⟩, ⟨none, .publishDevice 0 1⟩,
    ⟨none, .ioBegin 0 0 0 0⟩, ⟨none, .poison 2⟩]

/-- A poisoned ticket of zero length does not keep the disk below it: the disk
is unregistered and its number is registered again under a new generation. -/
theorem poisonedZeroByte_loses_generation :
    ((run Registry.step Registry.initial poisonedZeroByte).entry
      (.ticket ⟨0, by decide⟩)).Tombstone ∧
    ¬ Fenced (run Registry.step Registry.initial poisonedZeroByte)
      (run Registry.step (run Registry.step Registry.initial poisonedZeroByte)
        [⟨none, .unregister 0⟩, ⟨none, .registerWhole 0 512 false⟩])
      (.ticket ⟨0, by decide⟩) fun _ => True := by
  refine ⟨⟨by decide +kernel, by decide +kernel⟩, fun h => ?_⟩
  exact absurd (h.generation trivial).2 (by decide +kernel)

end Registry

end OpenXJ380.Block
