/-
# Exclusive leases really exclude

Every public function of the registry preserves `Registry.Sound`, so block
exclusion holds after every interleaving of calls. A ticket of zero length
covers no byte. It conflicts with nothing, so it does not pin its device: it
is the only entry that an unregistration can leave behind.
-/

import OpenXJ380.Block.Invariant
import OpenXJ380.Protocol.Run

namespace OpenXJ380.Block

open Function Protocol

namespace Registry

variable {s t : Registry}

/-- The two registries describe the same devices, up to publication. -/
def SameDevices (s t : Registry) : Prop :=
  ∀ device, (t.deviceAt device).valid = (s.deviceAt device).valid ∧
    (t.deviceAt device).extent = (s.deviceAt device).extent

theorem SameDevices.of_devices_eq (h : t.devices = s.devices) : SameDevices s t := by
  intro device
  simp [deviceAt, h]

variable {extent : BlockExtent} {device : UInt32} {task : Option Task} {token : BlockAccessToken}
  {bytes : UInt64}

/-- The two registries describe one device alike. -/
def SameAt (s t : Registry) (device : UInt32) : Prop :=
  (t.deviceAt device).valid = (s.deviceAt device).valid ∧
    (t.deviceAt device).extent = (s.deviceAt device).extent

theorem SameAt.of_eq (h : t.deviceAt device = s.deviceAt device) : SameAt s t device := by
  simp [SameAt, h]

theorem Anchored.congr (hd : SameAt s t extent.device) (h : s.Anchored extent) : t.Anchored extent := by
  obtain ⟨hvalid, hextent⟩ := hd
  constructor
  · rw [hvalid]; exact h.valid
  · rw [hextent]; exact h.generation
  · rw [hextent]; exact h.sameDisk
  · exact h.nonempty
  · rw [hextent]; exact h.first
  · rw [hextent]; exact h.last

theorem Placed.congr (hd : SameAt s t extent.physicalDevice) (h : s.Placed device extent) :
    t.Placed device extent := by
  obtain ⟨hvalid, hextent⟩ := hd
  constructor
  · exact h.device
  · exact h.nonempty
  · rw [hvalid]; exact h.valid
  · rw [hextent]; exact h.whole
  · rw [hextent]; exact h.generation
  · rw [hextent]; exact h.physicalGeneration
  · rw [hextent]; exact h.origin
  · rw [hextent]; exact h.inside

theorem Sound.placed_congr (h : s.Sound) (hd : SameDevices s t) (device : UInt32)
    (hvalid : (t.deviceAt device).valid = true) : t.Placed device (t.deviceAt device).extent := by
  obtain ⟨hv, he⟩ := hd device
  rw [he]
  exact (h.placed device (hv ▸ hvalid)).congr (hd _)

/-- A slot that is live afterwards was live before, with the same range, owner
and mode. -/
def Retains (before after : Access) : Prop :=
  after.live = true → before.live = true ∧ after.extent = before.extent ∧
    after.owner = before.owner ∧ after.tid = before.tid ∧ after.exclusive = before.exclusive

theorem Retains.refl (entry : Access) : Retains entry entry := fun h => ⟨h, rfl, rfl, rfl, rfl⟩

theorem Retains.empty (entry : Access) : Retains entry {} := by
  intro h
  simp [Access.live] at h

variable {n : Nat} {generation offset : UInt64}

section

variable (table : Fin n → Access)

theorem Retains.poisonWhere (test : Access → Bool) (i : Fin n) :
    Retains (table i) (poisonWhere table test i) := by
  unfold Block.poisonWhere
  split
  · exact fun h => ⟨h, rfl, rfl, rfl, rfl⟩
  · exact Retains.refl _

theorem Retains.update_empty (slot i : Fin n) :
    Retains (table i) (update table slot {} i) := by
  by_cases hi : i = slot
  · subst hi
    rw [update_self]
    exact Retains.empty _
  · rw [update_of_ne hi]
    exact Retains.refl _

end

/-- A call that keeps the devices and drops or poisons entries is harmless. -/
structure Keeps (s t : Registry) : Prop where
  device : SameDevices s t
  lease : ∀ i, Retains (s.leases i) (t.leases i)
  ticket : ∀ i, Retains (s.tickets i) (t.tickets i)

theorem Sound.of_keeps (h : s.Sound) (keeps : Keeps s t) : t.Sound := by
  constructor
  · exact h.placed_congr keeps.device
  · intro i hlive
    obtain ⟨hbefore, hextent, -⟩ := keeps.lease i hlive
    rw [hextent]
    exact (h.lease i hbefore).congr (keeps.device _)
  · intro i hlive hbytes
    obtain ⟨hbefore, hextent, -⟩ := keeps.ticket i hlive
    rw [hextent] at hbytes ⊢
    exact (h.ticket i hbefore hbytes).congr (keeps.device _)
  · intro i hlive
    obtain ⟨hbefore, hextent, -⟩ := keeps.ticket i hlive
    rw [hextent]
    exact h.ticketNoWrap i hbefore
  · intro i j hne hi hj hexclusive
    obtain ⟨hi', hei, -, -, hxi⟩ := keeps.lease i hi
    obtain ⟨hj', hej, -⟩ := keeps.lease j hj
    rw [hei, hej]
    exact h.leaseExclusion i j hne hi' hj' (hxi ▸ hexclusive)
  · intro i j hi hexclusive hj hover
    obtain ⟨hi', hei, hoi, hti, hxi⟩ := keeps.lease i hi
    obtain ⟨hj', hej, hoj, htj, -⟩ := keeps.ticket j hj
    rw [hei, hej] at hover ⊢
    rw [hoi, hti, hoj, htj]
    exact h.ticketExclusion i j hi' (hxi ▸ hexclusive) hj' hover

theorem keeps_publishDevice (h : s.publishDevice device generation = .ok t) : Keeps s t := by
  obtain ⟨hlt, rfl⟩ := publishDevice_ok h
  refine ⟨fun other => ?_, fun i => by simpa using Retains.refl _,
    fun i => by simpa using Retains.refl _⟩
  by_cases heq : other = device
  · subst heq
    simp [hlt]
  · simp [deviceAt_setDevice_of_ne heq]

theorem keeps_release (h : s.release task token = .ok t) : Keeps s t := by
  unfold release at h
  split at h
  · simp at h
  rename_i slot _
  split at h
  · simp at h
  split at h
  · simp at h
  · cases h
    exact ⟨.of_devices_eq rfl, Retains.update_empty s.leases slot, fun i => Retains.refl _⟩

section

variable (token : BlockAccessToken)

theorem keeps_poison : Keeps s (s.poison token) :=
  ⟨.of_devices_eq rfl, Retains.poisonWhere _ _, Retains.poisonWhere _ _⟩

theorem keeps_ioEnd : Keeps s (s.ioEnd token) := by
  unfold ioEnd
  split
  · exact ⟨.of_devices_eq rfl, fun i => Retains.refl _, fun i => Retains.refl _⟩
  · rename_i slot _
    exact ⟨.of_devices_eq rfl, fun i => Retains.refl _, Retains.update_empty s.tickets slot⟩

end

theorem keeps_abandonOwner (task : Option Nat) (tid : UInt64) :
    Keeps s (s.abandonOwner task tid) := by
  cases task with
  | none => exact ⟨.of_devices_eq rfl, fun i => Retains.refl _, fun i => Retains.refl _⟩
  | some task => exact ⟨.of_devices_eq rfl, Retains.poisonWhere _ _, Retains.poisonWhere _ _⟩

theorem keeps_reapAbandoned (stopped : Nat → Bool) : Keeps s (s.reapAbandoned stopped) :=
  ⟨.of_devices_eq rfl, Retains.poisonWhere _ _, Retains.poisonWhere _ _⟩

theorem keeps_managementBegin (h : s.managementBegin task = .ok (token, t)) : Keeps s t := by
  have same : t.devices = s.devices ∧ t.leases = s.leases ∧ t.tickets = s.tickets := by
    simp only [managementBegin] at h
    split at h
    · simp at h
    split at h
    · split at h
      · simp at h
      split at h
      · simp at h
      · cases h
        exact ⟨rfl, rfl, rfl⟩
    · split at h
      · simp at h
      · cases h
        exact identity_frame
  obtain ⟨hdevices, hleases, htickets⟩ := same
  exact ⟨.of_devices_eq hdevices, fun i => hleases ▸ Retains.refl _,
    fun i => htickets ▸ Retains.refl _⟩

theorem keeps_managementEnd (task : Option Task) (token : BlockAccessToken) :
    Keeps s (s.managementEnd task token) := by
  unfold managementEnd
  split
  · split <;>
      exact ⟨.of_devices_eq rfl, fun i => Retains.refl _, fun i => Retains.refl _⟩
  · exact ⟨.of_devices_eq rfl, fun i => Retains.refl _, fun i => Retains.refl _⟩

/-- Every slot of the new table is the new entry or an old one. -/
theorem update_split (table : Fin n → Access) (slot : Fin n) (entry : Access) (i : Fin n) :
    i = slot ∨ i ≠ slot ∧ update table slot entry i = table i := by
  by_cases hi : i = slot
  · exact Or.inl hi
  · exact Or.inr ⟨hi, update_of_ne hi _ _⟩

theorem Placed.start_add (h : s.Placed device extent)
    (hroom : offset.toNat + bytes.toNat ≤ extent.bytes.toNat) :
    (extent.start + offset).toNat = extent.start.toNat + offset.toNat := by
  have hnoWrap := h.noWrap
  rw [BlockExtent.NoWrap] at hnoWrap
  rw [UInt64.toNat_add]
  exact Nat.mod_eq_of_lt (by omega)

theorem Sound.claim {exclusive scan : Bool} (h : s.Sound)
    (hok : s.claim task extent exclusive scan = .ok (token, t)) : t.Sound := by
  obtain ⟨hresolve, hleases, htickets, slot, -, rfl⟩ := claim_ok hok
  obtain ⟨hvalid, hextent, -⟩ := resolve_some hresolve
  have hd : SameDevices s { s.identity.2 with
      leases := update s.leases slot (leaseEntry task extent exclusive scan token) } :=
    .of_devices_eq identity_frame.1
  have hanchored : s.Anchored extent := by
    have := h.anchored_registration hvalid
    rwa [hextent] at this
  have split := update_split s.leases slot (leaseEntry task extent exclusive scan token)
  constructor
  · exact h.placed_congr hd
  · intro i hlive
    apply Anchored.congr (hd _)
    obtain rfl | ⟨-, hold⟩ := split i
    · simpa [leaseEntry] using hanchored
    · simp only [hold] at hlive ⊢
      exact h.lease i hlive
  · intro i hlive hbytes
    simp only [identity_frame.2.2] at hlive hbytes ⊢
    exact (h.ticket i hlive hbytes).congr (hd _)
  · intro i hlive
    simp only [identity_frame.2.2] at hlive ⊢
    exact h.ticketNoWrap i hlive
  · intro i j hne hi hj hexclusive
    obtain rfl | ⟨-, hold⟩ := split i
    · obtain rfl | ⟨-, hold⟩ := split j
      · exact absurd rfl hne
      · simp only [hold, update_self] at hj ⊢
        rw [overlaps_symm]
        exact hleases j hj
    · simp only [hold] at hi hexclusive ⊢
      obtain rfl | ⟨-, hold'⟩ := split j
      · simpa [leaseEntry] using hleases i hi
      · simp only [hold'] at hj ⊢
        exact h.leaseExclusion i j hne hi hj hexclusive
  · intro i j hi hexclusive hj hover
    simp only [identity_frame.2.2] at hj hover ⊢
    obtain rfl | ⟨-, hold⟩ := split i
    · simp only [update_self, leaseEntry] at hover
      rw [overlaps_symm, htickets j hj] at hover
      cases hover
    · simp only [hold] at hi hexclusive hover ⊢
      exact h.ticketExclusion i j hi hexclusive hj hover

theorem Sound.ioBegin (h : s.Sound)
    (hok : s.ioBegin task device generation offset bytes = .ok (token, t)) : t.Sound := by
  obtain ⟨base, hresolve, hroom, hleases, -, slot, -, rfl⟩ := ioBegin_ok hok
  obtain ⟨hvalid, hbase, -⟩ := resolve_some hresolve
  have hplaced := h.placed device hvalid
  rw [hbase] at hplaced
  have hd : SameDevices s { s.identity.2 with
      tickets := update s.tickets slot (ticketEntry task
        { base with start := base.start + offset, bytes } token) } :=
    .of_devices_eq identity_frame.1
  have hnoWrap := hplaced.noWrap
  rw [BlockExtent.NoWrap] at hnoWrap
  have hstart := hplaced.start_add hroom
  have split := update_split s.tickets slot
    (ticketEntry task { base with start := base.start + offset, bytes } token)
  constructor
  · exact h.placed_congr hd
  · intro i hlive
    simp only [identity_frame.2.1] at hlive ⊢
    exact (h.lease i hlive).congr (hd _)
  · intro i hlive hbytes
    apply Anchored.congr (hd _)
    obtain rfl | ⟨-, hold⟩ := split i
    · simp only [update_self, ticketEntry] at hbytes ⊢
      have hdevice := hplaced.device
      constructor <;>
        simp only [hdevice, hbase, sameDisk_iff, and_self] <;> omega
    · simp only [hold] at hlive hbytes ⊢
      exact h.ticket i hlive hbytes
  · intro i hlive
    obtain rfl | ⟨-, hold⟩ := split i
    · simp only [update_self, ticketEntry, BlockExtent.NoWrap]
      omega
    · simp only [hold] at hlive ⊢
      exact h.ticketNoWrap i hlive
  · intro i j hne hi hj hexclusive
    simp only [identity_frame.2.1] at hi hj hexclusive ⊢
    exact h.leaseExclusion i j hne hi hj hexclusive
  · intro i j hi hexclusive hj hover
    simp only [identity_frame.2.1] at hi hexclusive hover ⊢
    obtain rfl | ⟨-, hold⟩ := split j
    · simp only [update_self] at hover ⊢
      obtain ⟨-, howned⟩ := hleases i hi hover
      obtain ⟨howner, hcontains⟩ := howned hexclusive
      simp only [owner, Bool.and_eq_true, beq_iff_eq] at howner
      exact ⟨howner.1.symm, howner.2.symm, hcontains⟩
    · simp only [hold] at hj hover ⊢
      exact h.ticketExclusion i j hi hexclusive hj hover

/-- Registering a free device number keeps every current registration. -/
theorem Sound.setDevice {entry : Registration} (h : s.Sound) (hlt : device.toNat < kDevices)
    (hfree : (s.deviceAt device).valid = false) (hdevices : t.devices = s.devices)
    (hleases : t.leases = s.leases) (htickets : t.tickets = s.tickets)
    (hplaced : (t.setDevice device entry).Placed device entry.extent) :
    (t.setDevice device entry).Sound := by
  have hat (other : UInt32) : t.deviceAt other = s.deviceAt other := by simp [deviceAt, hdevices]
  -- A device that was valid before is another one, so its slot is untouched.
  have hold {other : UInt32} (hother : (s.deviceAt other).valid = true) :
      (t.setDevice device entry).deviceAt other = s.deviceAt other := by
    have hne : other ≠ device := by
      rintro rfl
      rw [hfree] at hother
      cases hother
    rw [deviceAt_setDevice_of_ne hne, hat]
  have hanchored {extent : BlockExtent} (ha : s.Anchored extent) :
      (t.setDevice device entry).Anchored extent := ha.congr (.of_eq (hold ha.valid))
  constructor
  · intro other hother
    by_cases heq : other = device
    · subst heq
      rw [deviceAt_setDevice_self hlt]
      exact hplaced
    · rw [deviceAt_setDevice_of_ne heq, hat] at hother ⊢
      have hp := h.placed other hother
      exact hp.congr (.of_eq (hold hp.valid))
  · simp only [setDevice_leases, hleases]
    exact fun i hlive => hanchored (h.lease i hlive)
  · simp only [setDevice_tickets, htickets]
    exact fun i hlive hbytes => hanchored (h.ticket i hlive hbytes)
  · simp only [setDevice_tickets, htickets]
    exact h.ticketNoWrap
  · simp only [setDevice_leases, hleases]
    exact h.leaseExclusion
  · simp only [setDevice_leases, setDevice_tickets, hleases, htickets]
    exact h.ticketExclusion

theorem Sound.registerWhole {flushSupported : Bool} (h : s.Sound)
    (hok : s.registerWhole task device bytes flushSupported = .ok t) : t.Sound := by
  obtain ⟨hlt, hbytes, hfree, -, rfl⟩ := registerWhole_ok hok
  refine h.setDevice hlt hfree identity_frame.1 identity_frame.2.1 identity_frame.2.2 ?_
  constructor <;> simp [hlt, hbytes]

theorem Sound.registerSlice {parent : UInt32} (h : s.Sound)
    (hok : s.registerSlice task device parent offset bytes = .ok t) : t.Sound := by
  obtain ⟨base, generation, hlt, hbytes, hfree, hresolve, hroom, -, rfl⟩ := registerSlice_ok hok
  obtain ⟨hvalid, hbase, -⟩ := resolve_some hresolve
  have hplaced := h.placed parent hvalid
  rw [hbase] at hplaced
  refine h.setDevice hlt hfree identity_frame.1 identity_frame.2.1 identity_frame.2.2 ?_
  have hne : base.physicalDevice ≠ device := by
    intro heq
    rw [← heq, hplaced.valid] at hfree
    cases hfree
  have hstart := hplaced.start_add hroom
  have hinside := hplaced.inside
  constructor <;>
    simp only [deviceAt_setDevice_of_ne hne, identity_deviceAt, hplaced.valid, hplaced.whole,
      hplaced.generation, hplaced.physicalGeneration, hplaced.origin, ne_eq, hbytes,
      not_false_eq_true]
  omega

/-- No entry stands on a disk whose availability check succeeded. -/
theorem available_eq_none (h : s.available task extent false = none) :
    (∀ i, (s.leases i).live = true → overlaps (s.leases i).extent extent = false) ∧
      ∀ i, (s.tickets i).live = true → overlaps (s.tickets i).extent extent = false := by
  simp only [available, Option.or_eq_none_iff, firstConflict_eq_none] at h
  refine ⟨fun i hlive => ?_, fun i hlive => ?_⟩
  · simpa [hlive] using h.1 i
  · simpa [hlive] using h.2 i

/-- An anchored extent that does not overlap the withdrawn device survives the
withdrawal: neither its own registration nor its disk is touched. -/
theorem Sound.not_retired (h : s.Sound) (hvalid : (s.deviceAt device).valid = true)
    (hall : ∀ other, t.deviceAt other =
      if other = device ∨
          ((s.deviceAt device).extent.device = (s.deviceAt device).extent.physicalDevice ∧
            (s.deviceAt other).valid = true ∧
            sameDisk (s.deviceAt other).extent (s.deviceAt device).extent = true) then
        (s.deviceAt other).retire
      else s.deviceAt other) (ha : s.Anchored extent)
    (hfree : overlaps extent (s.deviceAt device).extent = false) :
    t.deviceAt extent.device = s.deviceAt extent.device := by
  rw [hall, if_neg]
  rintro (heq | ⟨hwhole, -, hdisk⟩)
  · rw [← heq, h.overlaps_registration ha] at hfree
    cases hfree
  · have hphysical : extent.physicalDevice = device := by
      rw [← (sameDisk_iff.mp ha.sameDisk).1, (sameDisk_iff.mp hdisk).1, ← hwhole]
      exact (h.placed device hvalid).device
    rw [← hphysical, h.overlaps_whole ha] at hfree
    cases hfree

theorem Sound.unregister (h : s.Sound) (hok : s.unregister task device = .ok t) : t.Sound := by
  obtain ⟨-, hvalid, havailable, hleases, htickets, hall⟩ := unregister_ok hok
  obtain ⟨hfreeLease, hfreeTicket⟩ := available_eq_none havailable
  have hplaced := h.placed device hvalid
  -- The entries that remain valid are untouched, and so are their disks.
  have hstill {other : UInt32} (hother : (t.deviceAt other).valid = true) :
      (s.deviceAt other).valid = true ∧ t.deviceAt other = s.deviceAt other ∧
        t.deviceAt (s.deviceAt other).extent.physicalDevice =
          s.deviceAt (s.deviceAt other).extent.physicalDevice := by
    rw [hall] at hother
    split at hother
    · simp [Registration.retire] at hother
    rename_i hkept
    refine ⟨hother, by rw [hall, if_neg hkept], ?_⟩
    have hp := h.placed other hother
    rw [hall, if_neg]
    rintro (heq | ⟨hwhole, -, hdisk⟩)
    · -- The disk of `other` would be the withdrawn device, hence whole.
      have hself : (s.deviceAt device).extent.physicalDevice = device := by
        rw [← heq]; exact hp.whole
      refine hkept (Or.inr ⟨by rw [hplaced.device, hself], hother, ?_⟩)
      rw [sameDisk_iff, hself, ← heq, hp.physicalGeneration]
      exact ⟨rfl, rfl⟩
    · refine hkept (Or.inr ⟨hwhole, hother, ?_⟩)
      rw [sameDisk_iff] at hdisk ⊢
      rw [hp.whole, hp.physicalGeneration] at hdisk
      exact hdisk
  have hanchored {extent : BlockExtent} (ha : s.Anchored extent)
      (hfree : overlaps extent (s.deviceAt device).extent = false) : t.Anchored extent :=
    ha.congr (.of_eq (h.not_retired hvalid hall ha hfree))
  constructor
  · intro other hother
    obtain ⟨hbefore, hsame, hdisk⟩ := hstill hother
    rw [hsame]
    exact (h.placed other hbefore).congr (.of_eq hdisk)
  · rw [hleases]
    exact fun i hlive => hanchored (h.lease i hlive) (hfreeLease i hlive)
  · rw [htickets]
    exact fun i hlive hbytes => hanchored (h.ticket i hlive hbytes) (hfreeTicket i hlive)
  · rw [htickets]
    exact h.ticketNoWrap
  · rw [hleases]
    exact h.leaseExclusion
  · rw [hleases, htickets]
    exact h.ticketExclusion

theorem sound_initial : Registry.initial.Sound := by
  constructor <;> simp [initial, deviceAt, Access.live]

theorem Sound.execute {step : Step} (h : s.Sound) (hok : s.execute step = .ok (token, t)) :
    t.Sound := by
  obtain ⟨task, call⟩ := step
  cases call <;> simp only [Registry.execute, Except.map] at hok
  case registerWhole device bytes flushSupported =>
    split at hok <;> cases hok
    exact h.registerWhole ‹_›
  case registerSlice device parent offset bytes =>
    split at hok <;> cases hok
    exact h.registerSlice ‹_›
  case publishDevice device generation =>
    split at hok <;> cases hok
    exact h.of_keeps (keeps_publishDevice ‹_›)
  case unregister device =>
    split at hok <;> cases hok
    exact h.unregister ‹_›
  case claim extent exclusive => exact h.claim hok
  case release token =>
    split at hok <;> cases hok
    exact h.of_keeps (keeps_release ‹_›)
  case poison token => cases hok; exact h.of_keeps (keeps_poison token)
  case ioBegin device generation offset bytes => exact h.ioBegin hok
  case flushBegin device generation =>
    obtain ⟨extent, -, hio⟩ := flushBegin_ok hok
    exact h.ioBegin hio
  case ioEnd token => cases hok; exact h.of_keeps (keeps_ioEnd token)
  case scanBegin device =>
    obtain ⟨extent, -, hclaim⟩ := scanBegin_ok hok
    exact h.claim hclaim
  case managementBegin => exact h.of_keeps (keeps_managementBegin hok)
  case managementEnd token => cases hok; exact h.of_keeps (keeps_managementEnd task token)
  case abandonOwner pointer tid => cases hok; exact h.of_keeps (keeps_abandonOwner pointer tid)
  case reapAbandoned stopped => cases hok; exact h.of_keeps (keeps_reapAbandoned stopped)

theorem Sound.step (h : s.Sound) (step : Step) : (s.step step).Sound := by
  unfold Registry.step
  split
  · exact h.execute ‹_›
  · exact h

theorem sound_run (schedule : List Step) : (run Registry.step Registry.initial schedule).Sound :=
  invariant_run_of_step Registry.step Registry.Sound (fun _ step h => h.step step)
    sound_initial schedule

/-- The registration an extent was resolved from, and the physical disk below
it, are still the current ones. -/
def Current (s : Registry) (extent : BlockExtent) : Prop :=
  (s.deviceAt extent.device).valid = true ∧
    (s.deviceAt extent.device).extent.generation = extent.generation ∧
    (s.deviceAt extent.physicalDevice).valid = true ∧
    (s.deviceAt extent.physicalDevice).extent.generation = extent.physicalGeneration

/-- Block exclusion as sets of physical bytes. `tracked` selects the tickets
that are required to pin their device. -/
structure LeaseExclusion (s : Registry) (tracked : Access → Prop) : Prop where
  /-- No other live lease shares a byte with a live exclusive lease. -/
  lease : ∀ i j, i ≠ j → (s.leases i).live = true → (s.leases i).exclusive = true →
    (s.leases j).live = true →
    (s.leases i).extent.physicalDevice = (s.leases j).extent.physicalDevice →
    Disjoint (s.leases i).extent.span (s.leases j).extent.span
  /-- A live ticket that shares a byte with a live exclusive lease was issued to
  the owner of that lease and stays inside the leased range. -/
  ticket : ∀ i j, (s.leases i).live = true → (s.leases i).exclusive = true →
    (s.tickets j).live = true →
    (s.leases i).extent.physicalDevice = (s.tickets j).extent.physicalDevice →
    ¬ Disjoint (s.leases i).extent.span (s.tickets j).extent.span →
    (s.tickets j).owner = (s.leases i).owner ∧ (s.tickets j).tid = (s.leases i).tid ∧
      (s.tickets j).extent.span ⊆ (s.leases i).extent.span
  /-- Every live lease stands on a current registration. -/
  leaseCurrent : ∀ i, (s.leases i).live = true → s.Current (s.leases i).extent
  /-- Every live tracked ticket stands on a current registration. -/
  ticketCurrent : ∀ i, (s.tickets i).live = true → tracked (s.tickets i) →
    s.Current (s.tickets i).extent

theorem Sound.current (h : s.Sound) (ha : s.Anchored extent) : s.Current extent := by
  have hplaced := h.placed _ ha.valid
  obtain ⟨hdisk, hgeneration⟩ := sameDisk_iff.mp ha.sameDisk
  exact ⟨ha.valid, ha.generation, hdisk ▸ hplaced.valid, hdisk ▸ hgeneration ▸ hplaced.generation⟩

/-- Two anchored extents of one physical device are on one disk: there is only
one current generation of it. -/
theorem Sound.sameDisk_of_physicalDevice_eq (h : s.Sound) {a b : BlockExtent}
    (ha : s.Anchored a) (hb : s.Anchored b) (heq : a.physicalDevice = b.physicalDevice) :
    sameDisk a b = true := by
  obtain ⟨-, -, -, hga⟩ := h.current ha
  obtain ⟨-, -, -, hgb⟩ := h.current hb
  rw [sameDisk_iff]
  exact ⟨heq, by rw [← hga, ← hgb, heq]⟩

theorem Sound.leaseExclusion_of_sound (h : s.Sound) :
    s.LeaseExclusion fun ticket => ticket.extent.bytes ≠ 0 := by
  constructor
  · intro i j hne hi hexclusive hj hphysical
    have ha := h.lease i hi
    have hb := h.lease j hj
    by_contra hover
    have hoverlaps : overlaps (s.leases i).extent (s.leases j).extent = true :=
      (overlaps_iff (h.noWrap ha) (h.noWrap hb)).mpr
        ⟨h.sameDisk_of_physicalDevice_eq ha hb hphysical, hover⟩
    rw [h.leaseExclusion i j hne hi hj hexclusive] at hoverlaps
    cases hoverlaps
  · intro i j hi hexclusive hj hphysical hover
    have ha := h.lease i hi
    have hbytes : (s.tickets j).extent.bytes.toNat ≠ 0 := by
      intro hzero
      exact hover (by simp [BlockExtent.span, hzero])
    have hb := h.ticket j hj hbytes
    have hoverlaps : overlaps (s.leases i).extent (s.tickets j).extent = true :=
      (overlaps_iff (h.noWrap ha) (h.noWrap hb)).mpr
        ⟨h.sameDisk_of_physicalDevice_eq ha hb hphysical, hover⟩
    obtain ⟨howner, htid, hcontains⟩ := h.ticketExclusion i j hi hexclusive hj hoverlaps
    exact ⟨howner, htid, span_subset_of_contains hcontains⟩
  · exact fun i hlive => h.current (h.lease i hlive)
  · intro i hlive hbytes
    exact h.current (h.ticket i hlive (bytes_ne_zero_iff.mp (bne_iff_ne.mpr hbytes)))

/-- **Block-lease exclusion.**  After every interleaving of public calls by any
tasks: exclusive leases exclude all other leases, tickets inside them belong to
their owner, and every lease and every ticket of nonzero length stands on a
registration that is still current. -/
theorem leaseExclusion_run (schedule : List Step) :
    (run Registry.step Registry.initial schedule).LeaseExclusion
      fun ticket => ticket.extent.bytes ≠ 0 :=
  (sound_run schedule).leaseExclusion_of_sound

/-- Register and publish disk 0, start a zero-byte request on it, unregister it. -/
def zeroByteSchedule : List Step := [⟨none, .registerWhole 0 512 false⟩, ⟨none, .publishDevice 0 1⟩,
    ⟨none, .ioBegin 0 0 0 0⟩, ⟨none, .unregister 0⟩]

/-- A zero-byte request is admitted and its ticket does survive the
unregistration of its device, so the length condition cannot be dropped. -/
theorem zeroByteTicket_survives_unregister :
    ¬ (run Registry.step Registry.initial zeroByteSchedule).LeaseExclusion fun _ => True := by
  intro h
  have hcurrent := h.ticketCurrent ⟨0, by decide⟩ (by decide +kernel) trivial
  exact absurd hcurrent.1 (by decide +kernel)

/-- **No access leaves its partition.** After every interleaving of public calls the bytes of a
live lease or ticket are bytes of the registration it was made for, and those are bytes of a whole
disk that is registered itself. -/
theorem confined_run (schedule : List Step) :
    let final := run Registry.step Registry.initial schedule
    (∀ i, (final.leases i).live = true → (final.leases i).extent.span ⊆
      (final.deviceAt (final.leases i).extent.device).extent.span) ∧
    (∀ i, (final.tickets i).live = true → (final.tickets i).extent.span ⊆
      (final.deviceAt (final.tickets i).extent.device).extent.span) ∧
    ∀ device, (final.deviceAt device).valid = true →
      let disk := final.deviceAt (final.deviceAt device).extent.physicalDevice
      disk.valid = true ∧ disk.extent.physicalDevice = (final.deviceAt device).extent.physicalDevice ∧
        (final.deviceAt device).extent.span ⊆ disk.extent.span := by
  intro final
  have hsound : final.Sound := sound_run schedule
  have hinside : ∀ {extent}, final.Anchored extent →
      extent.span ⊆ (final.deviceAt extent.device).extent.span := fun ha =>
    Set.Ico_subset_Ico ha.first ha.last
  refine ⟨fun i hlive => hinside (hsound.lease i hlive), fun i hlive => ?_, fun device hvalid => ?_⟩
  · by_cases hbytes : (final.tickets i).extent.bytes.toNat = 0
    · simp [BlockExtent.span, hbytes]
    · exact hinside (hsound.ticket i hlive hbytes)
  · have hplaced := hsound.placed device hvalid
    refine ⟨hplaced.valid, hplaced.whole, Set.Ico_subset_Ico ?_ ?_⟩
    · simp [hplaced.origin]
    · simpa [hplaced.origin] using hplaced.inside

end Registry

end OpenXJ380.Block
