/-
# Extents as byte ranges, and the invariant of the registry

The registry checks overlaps with four different predicates, one per public
function. Without wraparound they all speak about sets of physical bytes;
that translation comes first. `Registry.Sound` then states how the three
tables are related, and one inversion lemma per public function says everything
a successful call can do, so that later proofs never unfold a call again.
-/

import OpenXJ380.Block.Access

namespace OpenXJ380.Block

open Function

namespace BlockExtent

/-- The physical bytes an extent covers. -/
def span (extent : BlockExtent) : Set ℕ :=
  Set.Ico extent.start.toNat (extent.start.toNat + extent.bytes.toNat)

/-- The end of the extent is representable, so unsigned sums do not wrap. -/
def NoWrap (extent : BlockExtent) : Prop := extent.start.toNat + extent.bytes.toNat < 2 ^ 64

theorem NoWrap.toNat_end {extent : BlockExtent} (h : extent.NoWrap) :
    (extent.start + extent.bytes).toNat = extent.start.toNat + extent.bytes.toNat := by
  rw [UInt64.toNat_add, Nat.mod_eq_of_lt h]

end BlockExtent

theorem bytes_ne_zero_iff {bytes : UInt64} : (bytes != 0) = true ↔ bytes.toNat ≠ 0 := by
  rw [bne_iff_ne, ne_eq, ne_eq, ← UInt64.toNat_inj, UInt64.toNat_zero]

variable {a b : BlockExtent}

theorem sameDisk_iff : sameDisk a b = true ↔
    a.physicalDevice = b.physicalDevice ∧ a.physicalGeneration = b.physicalGeneration := by
  simp [sameDisk]

theorem sameDisk_symm (h : sameDisk a b = true) : sameDisk b a = true := by
  rw [sameDisk_iff] at h ⊢
  exact ⟨h.1.symm, h.2.symm⟩

/-- Without wraparound the unsigned comparisons of `overlaps` are comparisons of
natural numbers. -/
theorem overlaps_iff_nat (ha : a.NoWrap) (hb : b.NoWrap) :
    overlaps a b = true ↔ sameDisk a b = true ∧ a.bytes.toNat ≠ 0 ∧ b.bytes.toNat ≠ 0 ∧
      a.start.toNat < b.start.toNat + b.bytes.toNat ∧
      b.start.toNat < a.start.toNat + a.bytes.toNat := by
  simp only [overlaps, Bool.and_eq_true, bytes_ne_zero_iff, decide_eq_true_eq,
    UInt64.lt_iff_toNat_lt, ha.toNat_end, hb.toNat_end, and_assoc]

/-- `overlaps` decides whether two extents of one disk share a byte. -/
theorem overlaps_iff (ha : a.NoWrap) (hb : b.NoWrap) :
    overlaps a b = true ↔ sameDisk a b = true ∧ ¬ Disjoint a.span b.span := by
  rw [overlaps_iff_nat ha hb, BlockExtent.span, BlockExtent.span, Set.Ico_disjoint_Ico]
  refine and_congr_right fun _ => ?_
  omega

theorem overlaps_symm : overlaps a b = overlaps b a := by
  rw [Bool.eq_iff_iff]
  simp only [overlaps, sameDisk, Bool.and_eq_true, beq_iff_eq]
  constructor <;> rintro ⟨⟨⟨⟨⟨hd, hg⟩, ha⟩, hb⟩, h₁⟩, h₂⟩
  all_goals exact ⟨⟨⟨⟨⟨hd.symm, hg.symm⟩, hb⟩, ha⟩, h₂⟩, h₁⟩

/-- The test of the source is that of the bytes. -/
theorem span_subset_of_contains (h : contains a b = true) : b.span ⊆ a.span := by
  simp only [contains, Bool.and_eq_true, decide_eq_true_eq] at h
  obtain ⟨⟨⟨_, hstart⟩, hoffset⟩, hbytes⟩ := h
  have hsub : (b.start - a.start).toNat = b.start.toNat - a.start.toNat :=
    UInt64.toNat_sub_of_le _ _ hstart
  have hroom : (a.bytes - (b.start - a.start)).toNat = a.bytes.toNat - (b.start - a.start).toNat :=
    UInt64.toNat_sub_of_le _ _ hoffset
  rw [UInt64.le_iff_toNat_le] at hstart hoffset hbytes
  apply Set.Ico_subset_Ico <;> omega

theorem eq_of_exact (h : exact a b = true) : a = b := by
  simp only [exact, Bool.and_eq_true, sameDisk_iff] at h
  cases a
  cases b
  simp_all

variable {n : Nat} {table : Fin n → Access}

theorem firstConflict_eq_none {blocks : Access → Bool} :
    firstConflict table blocks = none ↔ ∀ i, blocks (table i) = false := by
  simp [firstConflict]

theorem freeSlot_free {slot : Fin n} (h : freeSlot table = some slot) :
    (table slot).live = false := by
  simpa using List.find?_some h

namespace Registry

variable {s : Registry}
  {device : UInt32} {generation bytes : UInt64} {extent : BlockExtent} {task : Option Task}
  {t : Registry} {token : BlockAccessToken}

@[simp]
theorem deviceAt_setDevice_self (h : device.toNat < kDevices) (entry : Registration) :
    (s.setDevice device entry).deviceAt device = entry := by
  simp [setDevice, deviceAt, h]

theorem deviceAt_setDevice_of_ne {other : UInt32} (hne : other ≠ device) (entry : Registration) :
    (s.setDevice device entry).deviceAt other = s.deviceAt other := by
  have hnat : other.toNat ≠ device.toNat := fun h => hne (UInt32.toNat_inj.mp h)
  by_cases hd : device.toNat < kDevices
  · by_cases ho : other.toNat < kDevices
    · simp [setDevice, deviceAt, hd, hnat]
    · simp [deviceAt, ho]
  · simp [setDevice, hd]

section

variable (device : UInt32)

@[simp]
theorem setDevice_leases (entry : Registration) : (s.setDevice device entry).leases = s.leases := by
  unfold setDevice; split <;> rfl

@[simp]
theorem setDevice_tickets (entry : Registration) :
    (s.setDevice device entry).tickets = s.tickets := by
  unfold setDevice; split <;> rfl

theorem identity_frame : s.identity.2.devices = s.devices ∧ s.identity.2.leases = s.leases ∧
    s.identity.2.tickets = s.tickets := by
  unfold identity; split <;> simp

theorem identity_deviceAt : s.identity.2.deviceAt device = s.deviceAt device := by
  simp [deviceAt, identity_frame.1]

end

theorem resolve_some (h : s.resolve device generation = some extent) :
    (s.deviceAt device).valid = true ∧ (s.deviceAt device).extent = extent ∧
      (s.deviceAt extent.physicalDevice).extent.generation = extent.physicalGeneration := by
  simp only [resolve] at h
  split at h
  · simp at h
  rename_i hvalid
  split at h
  · simp at h
  split at h
  · simp at h
  rename_i hphysical
  cases h
  simp only [Bool.or_eq_true, not_or] at hvalid hphysical
  refine ⟨by simpa using hvalid.1.2, rfl, by simpa using hphysical.2⟩

/-- An extent lies on a registration that is still current. -/
structure Anchored (s : Registry) (extent : BlockExtent) : Prop where
  valid : (s.deviceAt extent.device).valid = true
  generation : (s.deviceAt extent.device).extent.generation = extent.generation
  sameDisk : sameDisk (s.deviceAt extent.device).extent extent = true
  nonempty : extent.bytes.toNat ≠ 0
  first : (s.deviceAt extent.device).extent.start.toNat ≤ extent.start.toNat
  last : extent.start.toNat + extent.bytes.toNat ≤
    (s.deviceAt extent.device).extent.start.toNat + (s.deviceAt extent.device).extent.bytes.toNat

/-- A current registration describes a nonempty part of a whole disk that is
itself registered under the recorded physical generation. -/
structure Placed (s : Registry) (device : UInt32) (extent : BlockExtent) : Prop where
  device : extent.device = device
  nonempty : extent.bytes.toNat ≠ 0
  valid : (s.deviceAt extent.physicalDevice).valid = true
  whole : (s.deviceAt extent.physicalDevice).extent.physicalDevice = extent.physicalDevice
  generation : (s.deviceAt extent.physicalDevice).extent.generation = extent.physicalGeneration
  physicalGeneration :
    (s.deviceAt extent.physicalDevice).extent.physicalGeneration = extent.physicalGeneration
  origin : (s.deviceAt extent.physicalDevice).extent.start = 0
  inside : extent.start.toNat + extent.bytes.toNat ≤
    (s.deviceAt extent.physicalDevice).extent.bytes.toNat

/-- The relation between the three tables that every public call preserves. -/
structure Sound (s : Registry) : Prop where
  placed : ∀ device, (s.deviceAt device).valid = true →
    s.Placed device (s.deviceAt device).extent
  lease : ∀ i, (s.leases i).live = true → s.Anchored (s.leases i).extent
  ticket : ∀ i, (s.tickets i).live = true → (s.tickets i).extent.bytes.toNat ≠ 0 →
    s.Anchored (s.tickets i).extent
  ticketNoWrap : ∀ i, (s.tickets i).live = true → (s.tickets i).extent.NoWrap
  leaseExclusion : ∀ i j, i ≠ j → (s.leases i).live = true → (s.leases j).live = true →
    (s.leases i).exclusive = true →
    overlaps (s.leases i).extent (s.leases j).extent = false
  ticketExclusion : ∀ i j, (s.leases i).live = true → (s.leases i).exclusive = true →
    (s.tickets j).live = true → overlaps (s.leases i).extent (s.tickets j).extent = true →
    (s.tickets j).owner = (s.leases i).owner ∧ (s.tickets j).tid = (s.leases i).tid ∧
      contains (s.leases i).extent (s.tickets j).extent = true

theorem Placed.noWrap (h : s.Placed device extent) : extent.NoWrap :=
  lt_of_le_of_lt h.inside (UInt64.toNat_lt _)

section

variable (h : s.Sound)
include h

theorem Sound.noWrap (ha : s.Anchored extent) : extent.NoWrap :=
  lt_of_le_of_lt ha.last (h.placed _ ha.valid).noWrap

/-- A registered extent is anchored on its own registration. -/
theorem Sound.anchored_registration (hvalid : (s.deviceAt device).valid = true) :
    s.Anchored (s.deviceAt device).extent := by
  have hplaced := h.placed device hvalid
  have hdevice := hplaced.device
  constructor <;> simp [hdevice, hvalid, sameDisk_iff, hplaced.nonempty]

variable (ha : s.Anchored extent)
include ha

/-- Everything anchored on a disk overlaps the registration it is anchored on. -/
theorem Sound.overlaps_registration : overlaps extent (s.deviceAt extent.device).extent = true := by
  have hplaced := h.placed _ ha.valid
  rw [overlaps_iff_nat (h.noWrap ha) hplaced.noWrap]
  have hnonempty := ha.nonempty
  have hfirst := ha.first
  have hlast := ha.last
  refine ⟨sameDisk_symm ha.sameDisk, ha.nonempty, hplaced.nonempty, ?_, ?_⟩ <;> omega

/-- Everything anchored on a disk overlaps the whole disk. -/
theorem Sound.overlaps_whole :
    overlaps extent (s.deviceAt extent.physicalDevice).extent = true := by
  have hplaced := h.placed _ ha.valid
  have hdisk := sameDisk_iff.mp ha.sameDisk
  have hwhole := h.placed extent.physicalDevice (by rw [← hdisk.1]; exact hplaced.valid)
  rw [overlaps_iff_nat (h.noWrap ha) hwhole.noWrap, sameDisk_iff]
  have horigin : (s.deviceAt extent.physicalDevice).extent.start.toNat = 0 := by
    rw [← hdisk.1, hplaced.origin, UInt64.toNat_zero]
  have hinside : extent.start.toNat + extent.bytes.toNat ≤
      (s.deviceAt extent.physicalDevice).extent.bytes.toNat := by
    rw [← hdisk.1]
    exact le_trans ha.last hplaced.inside
  have hnonempty := ha.nonempty
  refine ⟨⟨?_, ?_⟩, ha.nonempty, hwhole.nonempty, ?_, ?_⟩
  · rw [← hdisk.1, hplaced.whole]
  · rw [← hdisk.1, ← hdisk.2, hplaced.physicalGeneration]
  all_goals omega

end

/-- What a registration of a whole disk has checked and done. -/
theorem registerWhole_ok {flushSupported : Bool}
    (h : s.registerWhole task device bytes flushSupported = .ok t) :
    device.toNat < kDevices ∧ bytes.toNat ≠ 0 ∧ (s.deviceAt device).valid = false ∧
      ∃ generation, t = s.identity.2.setDevice device
        { extent := ⟨device, device, generation, generation, 0, bytes⟩
          valid := true, published := false, flushSupported } := by
  simp only [registerWhole] at h
  split at h
  · simp at h
  rename_i harg
  simp only [Bool.or_eq_true, decide_eq_true_eq, beq_iff_eq, not_or, not_le] at harg
  split at h
  · split at h <;> simp at h
  rename_i hvalid
  split at h
  · simp at h
  · cases h
    exact ⟨harg.1, bytes_ne_zero_iff.mp (bne_iff_ne.mpr harg.2), by simpa using hvalid, _, rfl⟩

variable {offset : UInt64}

theorem toNat_add_le {limit : UInt64} (hoffset : offset ≤ limit) (hbytes : bytes ≤ limit - offset) :
    offset.toNat + bytes.toNat ≤ limit.toNat := by
  have hsub := UInt64.toNat_sub_of_le _ _ hoffset
  rw [UInt64.le_iff_toNat_le] at hoffset hbytes
  omega

/-- What a registration of a slice has checked and done. -/
theorem registerSlice_ok {parent : UInt32}
    (h : s.registerSlice task device parent offset bytes = .ok t) :
    ∃ base generation, device.toNat < kDevices ∧ bytes.toNat ≠ 0 ∧
      (s.deviceAt device).valid = false ∧ s.resolve parent 0 = some base ∧
      offset.toNat + bytes.toNat ≤ base.bytes.toNat ∧
      s.available task ⟨device, base.physicalDevice, 0, base.physicalGeneration,
        base.start + offset, bytes⟩ true = none ∧
      t = s.identity.2.setDevice device
        { extent := ⟨device, base.physicalDevice, generation, base.physicalGeneration,
            base.start + offset, bytes⟩
          valid := true, published := false, flushSupported := false } := by
  simp only [registerSlice] at h
  split at h
  · simp at h
  rename_i harg
  simp only [Bool.or_eq_true, decide_eq_true_eq, beq_iff_eq, not_or, not_le] at harg
  split at h
  · simp at h
  rename_i hvalid
  split at h
  · simp at h
  rename_i base hbase
  split at h
  · simp at h
  rename_i hroom
  simp only [Bool.or_eq_true, decide_eq_true_eq, not_or, UInt64.not_lt] at hroom
  split at h
  · simp at h
  rename_i havailable
  split at h
  · simp at h
  · cases h
    exact ⟨base, _, harg.1, bytes_ne_zero_iff.mp (bne_iff_ne.mpr harg.2),
      by simpa using hvalid, hbase, toNat_add_le hroom.1 hroom.2, havailable, rfl⟩

theorem publishDevice_ok (h : s.publishDevice device generation = .ok t) : device.toNat < kDevices ∧
      t = s.setDevice device { s.deviceAt device with published := true } := by
  simp only [publishDevice] at h
  split at h
  · simp at h
  rename_i harg
  simp only [Bool.or_eq_true, decide_eq_true_eq, not_or, not_le] at harg
  cases h
  exact ⟨harg.1.1, rfl⟩

theorem unregister_ok (h : s.unregister task device = .ok t) :
    device.toNat < kDevices ∧ (s.deviceAt device).valid = true ∧
      s.available task (s.deviceAt device).extent false = none ∧
      t.leases = s.leases ∧ t.tickets = s.tickets ∧
      ∀ other, t.deviceAt other =
        if other = device ∨
            ((s.deviceAt device).extent.device = (s.deviceAt device).extent.physicalDevice ∧
              (s.deviceAt other).valid = true ∧
              sameDisk (s.deviceAt other).extent (s.deviceAt device).extent = true) then
          (s.deviceAt other).retire
        else s.deviceAt other := by
  simp only [unregister] at h
  split at h
  · simp at h
  rename_i harg
  simp only [Bool.or_eq_true, decide_eq_true_eq, not_or, not_le, Bool.not_eq_true',
    Bool.not_eq_false] at harg
  obtain ⟨hlt, hvalid⟩ := harg
  have hself : (s.deviceAt device).retire.valid = false := rfl
  split at h
  · simp at h
  rename_i havailable
  refine ⟨hlt, hvalid, havailable, ?_⟩
  split at h
  · rename_i hwhole
    cases h
    refine ⟨by simp, by simp, fun other => ?_⟩
    by_cases hother : other.toNat < kDevices
    · by_cases heq : other = device
      · subst heq
        have := deviceAt_setDevice_self (s := s) hlt (s.deviceAt other).retire
        simp only [deviceAt, hother, dite_true] at this hself ⊢
        simp [this, hself]
      · have := deviceAt_setDevice_of_ne (s := s) heq (s.deviceAt device).retire
        simp only [deviceAt, hother, dite_true] at this ⊢
        simp only [this]
        simp [heq, deviceAt] at hwhole ⊢
        simp [hwhole]
    · have hne : other ≠ device := fun heq => hother (heq ▸ hlt)
      simp [deviceAt, hother, hne]
  · rename_i hslice
    rw [beq_iff_eq] at hslice
    cases h
    refine ⟨by simp, by simp, fun other => ?_⟩
    by_cases heq : other = device
    · subst heq
      simp [hlt]
    · simp [deviceAt_setDevice_of_ne heq, heq, hslice]

/-- What a lease has checked and done. -/
theorem claim_ok {exclusive scan : Bool} (h : s.claim task extent exclusive scan = .ok (token, t)) :
    s.resolve extent.device extent.generation = some extent ∧
      (∀ i, (s.leases i).live = true → overlaps (s.leases i).extent extent = false) ∧
      (∀ i, (s.tickets i).live = true → overlaps (s.tickets i).extent extent = false) ∧
      ∃ slot, (s.leases slot).live = false ∧
        t = { s.identity.2 with
          leases := update s.leases slot (leaseEntry task extent exclusive scan token) } := by
  simp only [claim] at h
  split at h
  · simp at h
  split at h
  · simp at h
  rename_i current hcurrent
  split at h
  · simp at h
  rename_i hexact
  have heq : extent = current := eq_of_exact (by simpa using hexact)
  subst heq
  split at h
  · simp at h
  split at h
  · simp at h
  rename_i hfree
  rw [Option.or_eq_none_iff, firstConflict_eq_none, firstConflict_eq_none] at hfree
  split at h
  · simp at h
  rename_i slot hslot
  split at h
  · simp at h
  obtain ⟨rfl, rfl⟩ := h
  refine ⟨hcurrent, fun i hlive => ?_, fun i hlive => ?_, slot, freeSlot_free hslot, ?_⟩
  · simpa [hlive] using hfree.1 i
  · simpa [hlive] using hfree.2 i
  · simp [identity_frame.2.1]

theorem scanBegin_ok (h : s.scanBegin task device = .ok (token, t)) :
    ∃ extent, s.resolve device 0 = some extent ∧
      s.claim task extent true true = .ok (token, t) := by
  simp only [scanBegin] at h
  split at h
  · simp at h
  rename_i extent hextent
  split at h
  · simp at h
  · exact ⟨extent, hextent, h⟩

/-- What the begin of a transfer has checked and done. -/
theorem ioBegin_ok (h : s.ioBegin task device generation offset bytes = .ok (token, t)) :
    ∃ base, s.resolve device generation = some base ∧
      offset.toNat + bytes.toNat ≤ base.bytes.toNat ∧
      (∀ i, (s.leases i).live = true →
        overlaps (s.leases i).extent { base with start := base.start + offset, bytes } = true →
        (s.leases i).poisoned = false ∧ ((s.leases i).exclusive = true →
          owner (s.leases i) task = true ∧
          contains (s.leases i).extent
            { base with start := base.start + offset, bytes } = true)) ∧
      (∀ i, (s.tickets i).live = true → (s.tickets i).poisoned = true →
        overlaps (s.tickets i).extent
          { base with start := base.start + offset, bytes } = false) ∧
      ∃ slot, (s.tickets slot).live = false ∧
        t = { s.identity.2 with
          tickets := update s.tickets slot (ticketEntry task
            { base with start := base.start + offset, bytes } token) } := by
  simp only [ioBegin] at h
  split at h
  · simp at h
  split at h
  · simp at h
  rename_i base hbase
  split at h
  · simp at h
  rename_i hroom
  simp only [Bool.or_eq_true, decide_eq_true_eq, not_or, UInt64.not_lt] at hroom
  split at h
  · simp at h
  rename_i hfree
  rw [Option.or_eq_none_iff, firstConflict_eq_none, firstConflict_eq_none] at hfree
  split at h
  · simp at h
  rename_i slot hslot
  split at h
  · simp at h
  obtain ⟨rfl, rfl⟩ := h
  refine ⟨base, hbase, toNat_add_le hroom.1 hroom.2, fun i hlive hover => ?_,
    fun i hlive hpoisoned => ?_, slot, freeSlot_free hslot, ?_⟩
  · have := hfree.1 i
    simp only [hlive, hover, Bool.true_and, Bool.or_eq_false_iff] at this
    refine ⟨this.1, fun hexclusive => ?_⟩
    simpa [hexclusive] using this.2
  · simpa [hlive, hpoisoned] using hfree.2 i
  · simp [identity_frame.2.2]

theorem flushBegin_ok (h : s.flushBegin task device generation = .ok (token, t)) :
    ∃ extent, s.resolve device generation = some extent ∧
      s.ioBegin task device extent.generation 0 extent.bytes = .ok (token, t) := by
  simp only [flushBegin] at h
  split at h
  · simp at h
  · rename_i extent hextent
    exact ⟨extent, hextent, h⟩

end Registry

end OpenXJ380.Block
