/-
# No half-built system is exposed

A loader that finds the new partition table and a root binding in the new ESP boots the
disk. Until the activation write the disk must never show both. The argument goes by
stages. Once the withdrawn headers are flushed there is no table; once the cleared ESP is
flushed there is no binding, and from there on nothing is written that is one.

Before the first of these flushes the disk is what it was, apart from headers that are
already gone. A disk that held both when the installation began can therefore still be
found with both after a power failure, and only such a disk.
-/

import OpenXJ380.Installer.Factory
import OpenXJ380.Protocol.Log

namespace OpenXJ380.Installer

open List Data Storage Protocol
open Block (zeros)

/-- What a power failure may leave on the device. -/
def Medium.Leaves (medium : Medium) (contents : Nat → Sector) : Prop :=
  ∃ survivors, survivors.Sublist medium.pending ∧ contents = overlay survivors medium.durable

/-- The activation write has not reached the device. -/
def Unissued (trace : List Entry) : Prop :=
  ∀ entry ∈ trace, entry.activationAttempted = true → entry.outcome = .refused

theorem Unissued.of_append {earlier : List Entry} {entry : Entry}
    (h : Unissued (earlier ++ [entry])) : Unissued earlier :=
  fun other hmem => h other (mem_append_left _ hmem)

namespace FactoryContext

variable (context : FactoryContext) (env : Environment) (old : Medium)

section

variable (contents : Nat → Sector)

/-- A header of the new table is in its place. -/
def NewTable : Prop :=
  checkHeader context.layout (contents 1) (crc32Table context.gpt.entries) false = true ∨
    checkHeader context.layout (contents context.lastLba) (crc32Table context.gpt.entries) true = true

/-- A root binding is in the new ESP. -/
def Binding : Prop :=
  ∃ lba, context.layout.espFirstLba ≤ lba ∧ lba ≤ context.layout.espLastLba ∧
    rootBindingValid (contents lba) = true

def Exposed : Prop := context.NewTable contents ∧ context.Binding contents

end

/-- Both are found only before the second flush, on a disk that had both. -/
def Safe (medium : Medium) : Prop :=
  ∀ contents, medium.Leaves contents → context.Exposed contents →
    medium.flushes < old.flushes + 2 ∧ ∃ found, old.Leaves found ∧ context.Exposed found

/-- Nothing is issued after a failure, and the device is safe until the activation. -/
def Admissible (earlier : List Entry) (entry : Entry) : Prop :=
  (entry.direct = true → entry.outcome ≠ .refused →
    ∀ other ∈ earlier, other.direct = true → other.outcome = .done) ∧
  (Unissued (earlier ++ [entry]) → context.Safe old entry.medium)

structure Sound (machine : Machine) : Prop where
  trace : Justified (context.Admissible old) machine.trace
  /-- A context that has not failed has seen no failure. -/
  clean : machine.status.ioFailed = false →
    ∀ entry ∈ machine.trace, entry.direct = true → entry.outcome = .done
  safe : Unissued machine.trace → context.Safe old machine.medium

variable {context env old}

theorem Sound.status {machine machine' : Machine} (h : context.Sound old machine)
    (htrace : machine'.trace = machine.trace) (hmedium : machine'.medium = machine.medium)
    (hfailed : machine'.status.ioFailed = false → machine.status.ioFailed = false) :
    context.Sound old machine' where
  trace := htrace ▸ h.trace
  clean := fun hclean => htrace ▸ h.clean (hfailed hclean)
  safe := fun hunissued => hmedium ▸ h.safe (htrace ▸ hunissued)

theorem Sound.push {machine machine' : Machine} {entry : Entry} (h : context.Sound old machine)
    (htrace : machine'.trace = machine.trace ++ [entry])
    (hmedium : machine'.medium = entry.medium)
    (hissued : entry.direct = true → entry.outcome ≠ .refused → machine.status.ioFailed = false)
    (hclean : machine'.status.ioFailed = false →
      machine.status.ioFailed = false ∧ (entry.direct = true → entry.outcome = .done))
    (hsafe : Unissued (machine.trace ++ [entry]) → context.Safe old entry.medium) :
    context.Sound old machine' where
  trace := by
    rw [htrace]
    exact h.trace.push ⟨fun hdirect houtcome => h.clean (hissued hdirect houtcome), hsafe⟩
  clean := by
    intro hfailed other hmem hdirect
    rw [htrace] at hmem
    rcases mem_append.mp hmem with hold | hnew
    · exact h.clean (hclean hfailed).1 other hold hdirect
    · rw [mem_singleton.mp hnew] at hdirect ⊢
      exact (hclean hfailed).2 hdirect
  safe := by
    intro hunissued
    rw [hmedium]
    exact hsafe (htrace ▸ hunissued)

/-- A request of the context: when it succeeds it was performed. -/
theorem ends_issue {machine : Machine} {request : Request} {inRange : Bool}
    (h : context.Sound old machine)
    (hsafe : machine.status.activationAttempted = false →
      ∀ succeeds kept, context.Safe old (machine.medium.perform request succeeds kept)) :
    Ends (issue env request inRange)
      (fun done machine' => context.Sound old machine' ∧
        machine'.status.activationAttempted = machine.status.activationAttempted ∧
        (machine'.medium = machine.medium.perform request true (fun _ => true) ∨
          done = false ∧ (machine'.medium = machine.medium ∨
            ∃ kept, machine'.medium = machine.medium.perform request false kept)))
      (fun _ _ => False) machine := by
  rw [Ends, issue]
  generalize env.answers machine.clock = answer
  by_cases hadmitted : (!machine.status.ioFailed && answer.ready && inRange) = true
  · have hopen : machine.status.ioFailed = false := by
      simp only [Bool.and_eq_true, Bool.not_eq_true'] at hadmitted
      exact hadmitted.1.1
    refine ⟨h.push rfl rfl (fun _ _ => hopen) ?_ ?_, rfl, ?_⟩
    · simp only [hopen]
      cases answer.succeeds <;> simp
    · intro hunissued
      -- A request that is issued after the attempt is the activation.
      have hattempted : machine.status.activationAttempted = false := by
        by_contra hattempted
        have hrefused := hunissued _ (mem_append_right _ (mem_singleton_self _))
          (by simpa using hattempted)
        cases hs : answer.succeeds <;> simp [hadmitted, hs] at hrefused
      simpa [hadmitted] using hsafe hattempted answer.succeeds answer.kept
    · simp only [hadmitted]
      cases answer.succeeds with
      | false => exact .inr ⟨rfl, .inr ⟨answer.kept, rfl⟩⟩
      | true => exact .inl (by cases request <;> rfl)
  · refine ⟨h.push rfl rfl (by simp [hadmitted]) (by simp [hadmitted]) ?_, rfl,
      .inr (by simp [hadmitted])⟩
    intro hunissued
    simpa [hadmitted] using h.safe hunissued.of_append

/-- A stage of a run before the activation. -/
def At (context : FactoryContext) (old : Medium) (P : Medium → Prop) (machine : Machine) : Prop :=
  context.Sound old machine ∧ machine.status.activationAttempted = false ∧ P machine.medium

section Stages

variable {P Q : Medium → Prop} {machine : Machine} (h : context.At old P machine)
include h

theorem At.stay {machine' : Machine}
    (htrace : machine'.trace = machine.trace) (hmedium : machine'.medium = machine.medium)
    (hstatus : machine'.status = machine.status) : context.At old P machine' :=
  ⟨h.1.status htrace hmedium (by rw [hstatus]; exact id), by rw [hstatus]; exact h.2.1,
    hmedium ▸ h.2.2⟩

/-- What a builder or a verifier reports about its own requests. -/
theorem At.report (ioFailed : Bool) :
    context.At old P
      { machine with
        status := { machine.status with ioFailed := machine.status.ioFailed || ioFailed } } := by
  refine ⟨h.1.status rfl rfl ?_, h.2.1, h.2.2⟩
  simp only [Bool.or_eq_false_iff]
  exact And.left

theorem ends_phase {value : FactoryPhase} :
    Ends (phase value) (fun _ => context.At old P) (fun _ => context.Sound old) machine :=
  h.stay rfl rfl rfl

theorem ends_insist {error : Option Errno} {complete : Bool} :
    Ends (insist error complete) (fun _ => context.At old P) (fun _ => context.Sound old) machine := by
  unfold insist
  split
  next => exact h.1
  next => exact ends_ite.mpr ⟨fun _ => h, fun _ => h.1⟩

variable {lba : Nat}

/-- The rule for a write: what holds after it, and that its failure is safe. -/
theorem ends_write {data : List Sector}
    (hsafe : ∀ medium succeeds kept, P medium →
      context.Safe old (medium.perform (.write lba data) succeeds kept))
    (hdone : ∀ medium, P medium →
      Q { medium with pending := medium.pending ++ numbered lba data }) :
    Ends (demand (context.write env lba data)) (fun _ => context.At old Q)
      (fun _ => context.Sound old) machine := by
  rw [demand, write, ends_bind, ends_bind]
  refine (ends_issue h.1 fun _ succeeds kept => hsafe _ succeeds kept h.2.2).mono ?_ (by simp)
  rintro done machine' ⟨hsound, hattempted, hperformed⟩
  cases done with
  | false => exact hsound
  | true =>
    have hmedium := hperformed.resolve_right (by simp)
    have hstage : context.At old Q machine' :=
      ⟨hsound, hattempted.trans h.2.1, hmedium ▸ hdone _ h.2.2⟩
    exact hstage.stay rfl rfl rfl

/-- The rule for a flush, which leaves nothing pending. -/
theorem ends_flush
    (hdone : ∀ medium, P medium → Q ⟨medium.view, [], medium.flushes + 1⟩)
    (hsafe : ∀ medium, P medium → context.Safe old medium)
    (hsafe' : ∀ medium, Q medium → context.Safe old medium) :
    Ends (demand (flush env)) (fun _ => context.At old Q) (fun _ => context.Sound old) machine := by
  rw [demand, flush, ends_bind]
  refine (ends_issue h.1 ?_).mono ?_ (by simp)
  · rintro _ succeeds kept
    cases succeeds with
    | false => exact hsafe _ h.2.2
    | true => exact hsafe' _ (hdone _ h.2.2)
  · rintro done machine' ⟨hsound, hattempted, hperformed⟩
    cases done with
    | false => exact hsound
    | true =>
      have hmedium := hperformed.resolve_right (by simp)
      exact ⟨hsound, hattempted.trans h.2.1, hmedium ▸ hdone _ h.2.2⟩

theorem ends_issue_read {count : Nat} {inRange : Bool}
    (hsafe : ∀ medium, P medium → context.Safe old medium) :
    Ends (issue env (.read lba count) inRange) (fun _ => context.At old P)
      (fun _ => context.Sound old) machine := by
  have hsame : ∀ succeeds kept,
      machine.medium.perform (.read lba count) succeeds kept = machine.medium := by
    intro succeeds kept
    cases succeeds <;> rfl
  refine (ends_issue h.1 fun _ succeeds kept => hsame succeeds kept ▸ hsafe _ h.2.2).mono ?_ (by simp)
  rintro done machine' ⟨hsound, hattempted, hperformed⟩
  have hmedium : machine'.medium = machine.medium := by
    rcases hperformed with heq | ⟨-, heq | ⟨kept, heq⟩⟩
    · rw [heq, hsame]
    · exact heq
    · rw [heq, hsame]
  exact ⟨hsound, hattempted.trans h.2.1, hmedium ▸ h.2.2⟩

theorem ends_fetch {count : Nat}
    (hsafe : ∀ medium, P medium → context.Safe old medium) :
    Ends (context.fetch env lba count) (fun _ => context.At old P)
      (fun _ => context.Sound old) machine := by
  rw [fetch, read, ends_bind, ends_bind]
  refine (ends_issue_read h hsafe).mono ?_ fun _ _ => id
  intro done machine' hstage
  cases done with
  | false => exact hstage.1
  | true => exact hstage.stay rfl rfl rfl

end Stages

variable {lba count first sectors : Nat} {data : List Sector} {lbas : List Nat} {medium : Medium}

theorem mem_numbered {write : Nat × Sector} :
    write ∈ numbered lba data ↔ ∃ i, ∃ h : i < data.length, write = (lba + i, data.get ⟨i, h⟩) := by
  simp only [numbered, mem_mapIdx]
  exact ⟨fun ⟨i, h, heq⟩ => ⟨i, h, heq.symm⟩, fun ⟨i, h, heq⟩ => ⟨i, h, heq.symm⟩⟩

theorem mem_numbered_replicate {sector : Sector} {write : Nat × Sector} :
    write ∈ numbered lba (List.replicate count sector) ↔
      lba ≤ write.1 ∧ write.1 < lba + count ∧ write.2 = sector := by
  rw [mem_numbered]
  constructor
  · rintro ⟨i, hi, rfl⟩
    simp only [length_replicate] at hi
    simp [hi]
  · rintro ⟨hlow, hhigh, rfl⟩
    refine ⟨write.1 - lba, by simp; omega, ?_⟩
    ext1
    · omega
    · simp

/-- The writes that a request adds to the cache, all of them or a part. -/
theorem pending_perform_write (medium : Medium) (lba : Nat) (data : List Sector)
    (succeeds : Bool) (kept : Nat → Bool) :
    ∃ part, part ⊆ numbered lba data ∧
      medium.perform (.write lba data) succeeds kept =
        { medium with pending := medium.pending ++ part } := by
  cases succeeds with
  | false => exact ⟨_, filter_subset_self _, rfl⟩
  | true => exact ⟨_, List.Subset.refl _, rfl⟩

/-- The old headers are being cleared; those named were. -/
structure Withdrawing (context : FactoryContext) (old : Medium) (lbas : List Nat)
    (medium : Medium) : Prop where
  durable : medium.durable = old.view
  flushes : medium.flushes = old.flushes + 1
  pending : ∀ write ∈ medium.pending, write.2 = zeros ∧
    (write.1 = 0 ∨ write.1 = 1 ∨ write.1 = context.lastLba)
  cleared : ∀ lba ∈ lbas, ∃ write ∈ medium.pending, write.1 = lba

theorem leaves_view (medium : Medium) : medium.Leaves medium.view :=
  ⟨medium.pending, List.Sublist.refl _, rfl⟩

/-- The ESP lies between the two ends of the disk. -/
theorem esp_apart (context : FactoryContext) (hlow : context.layout.espFirstLba ≤ lba)
    (hhigh : lba ≤ context.layout.espLastLba) :
    sectorsPerMiB < lba ∧ lba + sectorsPerMiB < context.layout.totalSectors := by
  have hlayout := planned_of_plan context.planned
  have hroot := hlayout.root
  have hfirst := hlayout.root_lt
  have hlast := hlayout.esp_last
  have hbefore := hlayout.root_last
  omega

theorem safe_old : context.Safe old old :=
  fun contents hleaves hexposed => ⟨by omega, contents, hleaves, hexposed⟩

section

variable (h : context.Withdrawing old lbas medium)
include h

/-- The old system may be seen until the headers are flushed. -/
theorem Withdrawing.safe : context.Safe old medium := by
  rintro contents ⟨survivors, hsub, rfl⟩ ⟨htable, lba, hlow, hhigh, hbinding⟩
  rw [h.durable] at htable hbinding
  -- A place holds what it held, or was cleared.
  have hcases : ∀ place, overlay survivors old.view place = old.view place ∨
      overlay survivors old.view place = zeros ∧
        (place = 0 ∨ place = 1 ∨ place = context.lastLba) := by
    intro place
    rcases overlay_cases survivors old.view place with hsame | hmem
    · exact .inl hsame
    · exact .inr (h.pending _ (hsub.subset hmem))
  have hheader : ∀ place backup,
      checkHeader context.layout (overlay survivors old.view place)
        (crc32Table context.gpt.entries) backup = true →
      overlay survivors old.view place = old.view place := by
    intro place backup hcheck
    rcases hcases place with hsame | ⟨hzeros, -⟩
    · exact hsame
    · rw [hzeros, checkHeader_zeros] at hcheck
      cases hcheck
  refine ⟨by have := h.flushes; omega, old.view, leaves_view old, ?_, lba, hlow, hhigh, ?_⟩
  · exact htable.imp (fun hcheck => hheader 1 _ hcheck ▸ hcheck) fun hcheck =>
      hheader context.lastLba _ hcheck ▸ hcheck
  · rcases hcases lba with hsame | ⟨-, hplace⟩
    · rwa [hsame] at hbinding
    · have hapart := esp_apart context hlow hhigh
      simp only [sectorsPerMiB, lastLba] at hapart hplace
      omega

variable (hlba : lba = 0 ∨ lba = 1 ∨ lba = context.lastLba)
include hlba

theorem Withdrawing.clear (succeeds : Bool) (kept : Nat → Bool) :
    context.Withdrawing old lbas (medium.perform (.write lba [zeros]) succeeds kept) := by
  obtain ⟨part, hpart, heq⟩ := pending_perform_write medium lba [zeros] succeeds kept
  rw [heq]
  refine ⟨h.durable, h.flushes, ?_, ?_⟩
  · intro write hmem
    rcases mem_append.mp hmem with hold | hnew
    · exact h.pending write hold
    · have hone : write ∈ numbered lba (List.replicate 1 zeros) := hpart hnew
      obtain ⟨hlow, hhigh, hzeros⟩ := mem_numbered_replicate.mp hone
      exact ⟨hzeros, by omega⟩
  · intro place hplace
    obtain ⟨write, hmem, hwrite⟩ := h.cleared place hplace
    exact ⟨write, mem_append_left _ hmem, hwrite⟩

theorem Withdrawing.cleared_cons :
    context.Withdrawing old (lba :: lbas)
      { medium with pending := medium.pending ++ numbered lba [zeros] } := by
  have hclear := h.clear hlba true fun _ => true
  refine ⟨hclear.durable, hclear.flushes, hclear.pending, ?_⟩
  intro place hplace
  rcases mem_cons.mp hplace with rfl | hplace
  · exact ⟨(place, zeros), mem_append_right _ (by simp [numbered]), rfl⟩
  · exact hclear.cleared place hplace

end

/-- There is no header, and the first sectors of the ESP are being cleared. -/
structure Hidden (context : FactoryContext) (count : Nat) (medium : Medium) : Prop where
  primary : medium.durable 1 = zeros
  backup : medium.durable context.lastLba = zeros
  pending : ∀ write ∈ medium.pending, write.2 = zeros ∧
    context.layout.espFirstLba ≤ write.1 ∧ write.1 ≤ context.layout.espLastLba
  cleared : ∀ lba, context.layout.espFirstLba ≤ lba → lba < context.layout.espFirstLba + count →
    ∃ write ∈ medium.pending, write.1 = lba

theorem view_cleared (hpending : ∀ write ∈ medium.pending, write.2 = zeros)
    (hcleared : ∃ write ∈ medium.pending, write.1 = lba) : medium.view lba = zeros :=
  hpending _ (overlay_named hcleared)

theorem Withdrawing.hidden (h : context.Withdrawing old [0, context.lastLba, 1] medium) :
    context.Hidden 0 ⟨medium.view, [], medium.flushes + 1⟩ where
  primary := view_cleared (fun write hmem => (h.pending write hmem).1) (h.cleared 1 (by simp))
  backup := view_cleared (fun write hmem => (h.pending write hmem).1)
    (h.cleared context.lastLba (by simp))
  pending := by simp
  cleared := fun lba hlow hhigh => by omega

/-- Without a header no system is seen. -/
theorem Hidden.safe (h : context.Hidden count medium) :
    context.Safe old medium := by
  rintro contents ⟨survivors, hsub, rfl⟩ ⟨htable, -⟩
  have hends : ∀ place, (place = 1 ∨ place = context.lastLba) →
      overlay survivors medium.durable place = medium.durable place := by
    intro place hplace
    refine overlay_other fun write hmem heq => ?_
    obtain ⟨-, hlow, hhigh⟩ := h.pending write (hsub.subset hmem)
    have hapart := esp_apart context hlow hhigh
    simp only [sectorsPerMiB, lastLba] at hapart hplace
    omega
  rw [NewTable, hends 1 (.inl rfl), hends _ (.inr rfl), h.primary, h.backup, checkHeader_zeros,
    checkHeader_zeros] at htable
  simp at htable

theorem Hidden.clear (h : context.Hidden count medium) (hlow : context.layout.espFirstLba ≤ lba)
    (hhigh : lba + 127 ≤ context.layout.espLastLba) (succeeds : Bool) (kept : Nat → Bool) :
    context.Hidden count
      (medium.perform (.write lba (List.replicate 128 zeros)) succeeds kept) := by
  obtain ⟨part, hpart, heq⟩ :=
    pending_perform_write medium lba (List.replicate 128 zeros) succeeds kept
  rw [heq]
  refine ⟨h.primary, h.backup, ?_, ?_⟩
  · intro write hmem
    rcases mem_append.mp hmem with hold | hnew
    · exact h.pending write hold
    · obtain ⟨hfrom, hto, hzeros⟩ := mem_numbered_replicate.mp (hpart hnew)
      exact ⟨hzeros, by omega, by omega⟩
  · intro place hfrom hto
    obtain ⟨write, hmem, hwrite⟩ := h.cleared place hfrom hto
    exact ⟨write, mem_append_left _ hmem, hwrite⟩

theorem Hidden.cleared_next {k : Nat} (h : context.Hidden (128 * k) medium)
    (hhigh : context.layout.espFirstLba + 128 * k + 127 ≤ context.layout.espLastLba) :
    context.Hidden (128 * (k + 1))
      { medium with
        pending := medium.pending ++ numbered (context.layout.espFirstLba + 128 * k)
          (List.replicate 128 zeros) } := by
  have hclear := h.clear (Nat.le_add_right _ _) hhigh true fun _ => true
  refine ⟨hclear.primary, hclear.backup, hclear.pending, ?_⟩
  intro lba hfrom hto
  by_cases hold : lba < context.layout.espFirstLba + 128 * k
  · exact hclear.cleared lba hfrom hold
  · refine ⟨(lba, zeros), mem_append_right _ ?_, rfl⟩
    exact mem_numbered_replicate.mpr ⟨by omega, by omega, rfl⟩

/-- No sector of the ESP is a binding, on the device or on its way. -/
structure Unbound (context : FactoryContext) (medium : Medium) : Prop where
  durable : ∀ lba, context.layout.espFirstLba ≤ lba → lba ≤ context.layout.espLastLba →
    rootBindingValid (medium.durable lba) = false
  pending : ∀ write ∈ medium.pending, context.layout.espFirstLba ≤ write.1 →
    write.1 ≤ context.layout.espLastLba → rootBindingValid write.2 = false

theorem rootBindingValid_zeros : rootBindingValid zeros = false := by
  have hmagic : (zeros : Sector).equal 0 rootBindingMagic = false := by decide
  simp [rootBindingValid, hmagic]

theorem Hidden.unbound (h : context.Hidden count medium)
    (hcount : context.layout.espLastLba < context.layout.espFirstLba + count) :
    context.Unbound ⟨medium.view, [], medium.flushes + 1⟩ where
  durable := by
    intro lba hlow hhigh
    have hzeros := view_cleared (fun write hmem => (h.pending write hmem).1)
      (h.cleared lba hlow (by omega))
    show rootBindingValid (medium.view lba) = false
    rw [hzeros, rootBindingValid_zeros]
  pending := by simp

section

variable (h : context.Unbound medium)
include h

/-- Whatever part of the cache is kept, no binding appears. -/
theorem Unbound.overlay {survivors : List (Nat × Sector)}
    (hsub : survivors ⊆ medium.pending) (hlow : context.layout.espFirstLba ≤ lba)
    (hhigh : lba ≤ context.layout.espLastLba) :
    rootBindingValid (Storage.overlay survivors medium.durable lba) = false := by
  rcases overlay_cases survivors medium.durable lba with hsame | hmem
  · rw [hsame]
    exact h.durable lba hlow hhigh
  · exact h.pending _ (hsub hmem) hlow hhigh

theorem Unbound.safe : context.Safe old medium := by
  rintro contents ⟨survivors, hsub, rfl⟩ ⟨-, lba, hlow, hhigh, hbinding⟩
  rw [h.overlay hsub.subset hlow hhigh] at hbinding
  cases hbinding

theorem Unbound.flush :
    context.Unbound ⟨medium.view, [], medium.flushes + 1⟩ :=
  ⟨fun _ hlow hhigh => h.overlay (List.Subset.refl _) hlow hhigh, by simp⟩

/-- A write of no valid binding keeps the new ESP without one. -/
theorem Unbound.write
    (hdata : ∀ write ∈ numbered lba data, context.layout.espFirstLba ≤ write.1 →
      write.1 ≤ context.layout.espLastLba → rootBindingValid write.2 = false) (succeeds : Bool)
    (kept : Nat → Bool) :
    context.Unbound (medium.perform (.write lba data) succeeds kept) := by
  obtain ⟨part, hpart, heq⟩ := pending_perform_write medium lba data succeeds kept
  rw [heq]
  refine ⟨h.durable, fun write hmem => ?_⟩
  rcases mem_append.mp hmem with hold | hnew
  · exact h.pending write hold
  · exact hdata write (hpart hnew)

end

variable {machine : Machine}

/-- The stage that withdraws the old headers. -/
theorem ends_withdraw (h : context.At old (· = old) machine) :
    Ends (context.withdraw env) (fun _ => context.At old (context.Hidden 0))
      (fun _ => context.Sound old) machine := by
  have hsafe : ∀ medium, medium = old → context.Safe old medium := by
    rintro _ rfl
    exact safe_old
  have hwrite : ∀ lbas lba, lba = 0 ∨ lba = 1 ∨ lba = context.lastLba →
      ∀ medium succeeds kept, context.Withdrawing old lbas medium →
        context.Safe old (medium.perform (.write lba [zeros]) succeeds kept) :=
    fun lbas lba hlba medium succeeds kept hstage => (hstage.clear hlba succeeds kept).safe
  have hstart : ∀ medium, medium = old →
      context.Withdrawing old [] ⟨medium.view, [], medium.flushes + 1⟩ := by
    rintro _ rfl
    exact ⟨rfl, rfl, by simp, by simp⟩
  refine (ends_phase h).bind fun _ _ h => ?_
  refine (ends_flush h hstart hsafe fun _ => Withdrawing.safe).bind fun _ _ h => ?_
  refine (ends_write h (hwrite _ 1 (by simp)) fun _ hstage =>
    hstage.cleared_cons (by simp)).bind fun _ _ h => ?_
  refine (ends_write h (hwrite _ context.lastLba (by simp)) fun _ hstage =>
    hstage.cleared_cons (by simp)).bind fun _ _ h => ?_
  refine (ends_write h (hwrite _ 0 (by simp)) fun _ hstage =>
    hstage.cleared_cons (by simp)).bind fun _ _ h => ?_
  refine (ends_flush h (fun _ => Withdrawing.hidden) (fun _ => Withdrawing.safe)
    fun _ => Hidden.safe).bind fun _ _ h => ?_
  iterate 3 refine (ends_fetch h fun _ => Hidden.safe).bind fun _ _ h => ?_
  exact ends_ite.mpr ⟨fun _ => h.1, fun _ => h⟩

theorem ends_clearEsp (h : context.At old (context.Hidden 0) machine) :
    Ends (context.clearEsp env) (fun _ => context.At old context.Unbound)
      (fun _ => context.Sound old) machine := by
  have hlayout := planned_of_plan context.planned
  have hlt := hlayout.esp_lt
  obtain ⟨parts, hparts⟩ := hlayout.aligned
  -- The ESP is a whole number of pieces.
  have hsectors : context.espSectors = 128 * (16 * parts) := by
    simp only [sectorsPerMiB] at hparts
    rw [espSectors]
    omega
  have hrounds : (context.espSectors + 127) / 128 = 16 * parts := by omega
  rw [clearEsp, hrounds]
  refine (ends_forM_range (fun k => context.At old (context.Hidden (128 * k))) ?_ h).bind
    fun _ _ h => ?_
  · intro k machine' hk hstage
    have hfits : context.layout.espFirstLba + 128 * k + 127 ≤ context.layout.espLastLba := by
      rw [espSectors] at hsectors
      omega
    refine ends_write hstage (fun medium succeeds kept hidden => ?_) fun medium hidden => ?_
    · exact (hidden.clear (Nat.le_add_right _ _) hfits succeeds kept).safe
    · exact hidden.cleared_next hfits
  · have hall : context.layout.espLastLba < context.layout.espFirstLba + 128 * (16 * parts) := by
      rw [espSectors] at hsectors
      omega
    refine (ends_flush h (fun _ hidden => hidden.unbound hall) (fun _ => Hidden.safe)
      fun _ => Unbound.safe).bind fun _ _ h => ?_
    exact ends_phase h

section

variable (h : context.At old context.Unbound machine)
include h

theorem ends_write_unbound
    (hapart : lba + data.length ≤ context.layout.espFirstLba ∨ context.layout.espLastLba < lba) :
    Ends (demand (context.write env lba data)) (fun _ => context.At old context.Unbound)
      (fun _ => context.Sound old) machine := by
  have hdata : ∀ write ∈ numbered lba data, context.layout.espFirstLba ≤ write.1 →
      write.1 ≤ context.layout.espLastLba → rootBindingValid write.2 = false := by
    intro write hmem hlow hhigh
    obtain ⟨i, hi, rfl⟩ := mem_numbered.mp hmem
    omega
  exact ends_write h (fun medium succeeds kept hunbound => (hunbound.write hdata succeeds kept).safe)
    fun medium hunbound => hunbound.write hdata true fun _ => true

/-- The stage that publishes the new table, while there is no binding. -/
theorem ends_publishTable :
    Ends (context.publishTable env) (fun _ => context.At old context.Unbound)
      (fun _ => context.Sound old) machine := by
  have hlayout := planned_of_plan context.planned
  have hprimary := hlayout.primary
  have hbackup := hlayout.backup
  have hesp := hlayout.esp_last
  have hlt := hlayout.esp_lt
  obtain ⟨hfirst, -⟩ := esp_apart context le_rfl hlt.le
  have hlength : (tableToSectors context.gpt.entries).length = 32 :=
    (length_map _).trans length_range
  simp only [sectorsPerMiB, tableSectors] at hfirst hesp hbackup
  refine (ends_write_unbound h (.inr (by omega))).bind fun _ _ h => ?_
  refine (ends_write_unbound h (.inr (by rw [lastLba]; omega))).bind fun _ _ h => ?_
  refine (ends_write_unbound h (.inl (by omega))).bind fun _ _ h => ?_
  iterate 2 refine (ends_write_unbound h (.inl (by simp; omega))).bind fun _ _ h => ?_
  refine (ends_flush h (fun _ => Unbound.flush) (fun _ => Unbound.safe)
    fun _ => Unbound.safe).bind fun _ _ h => ?_
  refine (ends_phase h).bind fun _ _ h => ?_
  iterate 5 refine (ends_fetch h fun _ => Unbound.safe).bind fun _ _ h => ?_
  dsimp only
  split
  next => exact h.1
  next => exact ends_phase h

end

/-- A builder writes no binding, wherever it writes. -/
theorem At.buildStep (step : BuildStep) (h : context.At old context.Unbound machine) :
    context.At old context.Unbound (buildStep first sectors machine step) := by
  have hunbound : context.Unbound (FactoryContext.buildStep first sectors machine step).medium := by
    rw [FactoryContext.buildStep]
    cases step.request with
    | write offset data =>
      dsimp only
      split
      next =>
        refine h.2.2.write (fun write hmem _ _ => ?_) _ _
        obtain ⟨i, hi, rfl⟩ := mem_numbered.mp hmem
        simp only [get_eq_getElem, getElem_map]
        exact (data.get ⟨i, by simpa using hi⟩).2
      next => exact h.2.2
    | flush =>
      cases step.succeeds with
      | false => exact h.2.2
      | true => exact h.2.2.flush
  refine ⟨h.1.push rfl rfl (by simp) (fun hopen => ⟨hopen, by simp⟩) fun _ => hunbound.safe, h.2.1,
    hunbound⟩

section

variable (h : context.At old context.Unbound machine)
include h

theorem ends_runBuilder {build : Build} :
    Ends (runBuilder first sectors build) (fun _ => context.At old context.Unbound)
      (fun _ => context.Sound old) machine := by
  have hbuilt : context.At old context.Unbound
      (build.steps.foldl (FactoryContext.buildStep first sectors) machine) := by
    generalize build.steps = steps
    induction steps generalizing machine with
    | nil => exact h
    | cons step steps ih => exact ih (h.buildStep step)
  exact ends_insist (hbuilt.report build.ioFailed)

theorem ends_build :
    Ends (context.build env) (fun _ => context.At old context.Unbound)
      (fun _ => context.Sound old) machine := by
  refine (ends_runBuilder h).bind fun _ _ h => ?_
  refine (ends_phase h).bind fun _ _ h => ?_
  refine (ends_runBuilder h).bind fun _ _ h => ?_
  exact ends_phase h

theorem ends_runReads {reads : List (Nat × Nat)} {ioFailed : Bool} :
    Ends (context.runReads env first sectors reads ioFailed)
      (fun _ => context.At old context.Unbound) (fun _ => context.Sound old) machine := by
  refine (ends_forM (context.At old context.Unbound) ?_ h).bind fun _ machine' h => ?_
  · intro span _ machine' h
    exact (ends_issue_read h fun _ => Unbound.safe).bind fun _ _ h => h
  · exact h.report ioFailed

theorem ends_verify :
    Ends (context.verify env) (fun _ => context.At old context.Unbound)
      (fun _ => context.Sound old) machine := by
  refine (ends_runReads h).bind fun _ _ h => ?_
  refine (ends_insist h).bind fun _ _ h => ?_
  refine (ends_phase h).bind fun _ _ h => ?_
  refine (ends_runReads h).bind fun _ _ h => ?_
  refine (ends_insist h).bind fun _ _ h => ?_
  exact ends_ite.mpr ⟨fun _ => h.1, fun _ => ends_phase h⟩

end

/-- The activation was attempted; from now on only the record has to be in order. -/
def Attempted (context : FactoryContext) (old : Medium) (machine : Machine) : Prop :=
  context.Sound old machine ∧ machine.status.activationAttempted = true

theorem ends_issue_attempted {request : Request} {inRange : Bool}
    (h : context.Attempted old machine) :
    Ends (issue env request inRange) (fun _ => context.Attempted old)
      (fun _ => context.Sound old) machine := by
  have hattempted : ¬ machine.status.activationAttempted = false := by simp [h.2]
  refine (ends_issue h.1 fun hfalse => absurd hfalse hattempted).mono ?_ (by simp)
  rintro _ machine' ⟨hsound, hsame, -⟩
  exact ⟨hsound, hsame.trans h.2⟩

section

variable (h : context.Attempted old machine)
include h

theorem ends_write_attempted :
    Ends (demand (context.write env lba data)) (fun _ => context.Attempted old)
      (fun _ => context.Sound old) machine := by
  rw [demand, write, ends_bind, ends_bind]
  refine (ends_issue_attempted h).mono ?_ fun _ _ => id
  intro done machine' h
  cases done with
  | false => exact h.1
  | true => exact ⟨h.1.status rfl rfl id, h.2⟩

theorem ends_flush_attempted :
    Ends (demand (flush env)) (fun _ => context.Attempted old)
      (fun _ => context.Sound old) machine := by
  rw [demand, flush, ends_bind]
  refine (ends_issue_attempted h).mono ?_ fun _ _ => id
  intro done machine' h
  cases done with
  | false => exact h.1
  | true => exact h

theorem ends_fetch_attempted :
    Ends (context.fetch env lba count) (fun _ => context.Attempted old)
      (fun _ => context.Sound old) machine := by
  rw [fetch, read, ends_bind, ends_bind]
  refine (ends_issue_attempted h).mono ?_ fun _ _ => id
  intro done machine' h
  cases done with
  | false => exact h.1
  | true => exact ⟨h.1.status rfl rfl id, h.2⟩

end

/-- The stage that writes the binding, with everything in place. -/
theorem ends_activate (h : context.At old context.Unbound machine) :
    Ends (context.activate env) (fun _ => context.Sound old)
      (fun _ => context.Sound old) machine := by
  refine (ends_flush h (fun _ => Unbound.flush) (fun _ => Unbound.safe)
    fun _ => Unbound.safe).bind fun _ _ h => ?_
  refine (ends_phase h).bind fun _ machine' h => ?_
  have hattempted : context.Attempted old
      { machine' with status := { machine'.status with activationAttempted := true } } :=
    ⟨h.1.status rfl rfl id, rfl⟩
  refine (ends_write_attempted hattempted).bind fun _ _ h => ?_
  refine (ends_flush_attempted h).bind fun _ _ h => ?_
  refine (ends_fetch_attempted h).bind fun _ _ h => ?_
  refine ends_ite.mpr ⟨fun _ => h.1, fun _ => ?_⟩
  exact (h.1.status rfl rfl id).status rfl rfl id

theorem sound_installed (context : FactoryContext) (env : Environment) (old : Medium) :
    context.Sound old (context.installed env old) := by
  have hstart : context.At old (· = old) ⟨old, {}, .published, 0, 0, 0, []⟩ :=
    ⟨⟨justified_nil, by simp, fun _ => safe_old⟩, rfl, rfl⟩
  have hrun : Ends (context.execute env) (fun _ => context.Sound old) (fun _ => context.Sound old)
      ⟨old, {}, .published, 0, 0, 0, []⟩ := by
    refine (ends_withdraw hstart).bind fun _ _ h => ?_
    refine (ends_clearEsp h).bind fun _ _ h => ?_
    refine (ends_publishTable h).bind fun _ _ h => ?_
    refine (ends_build h).bind fun _ _ h => ?_
    refine (ends_verify h).bind fun _ _ h => ?_
    exact ends_activate h
  rw [installed]
  split
  next hresult => exact hrun.of_ok hresult
  next hresult => exact hrun.of_error hresult

/-- Until the activation write is issued, a power failure shows the new table together with
a binding only where both were found, and only before the withdrawn headers are flushed.
After a request that failed nothing is issued. -/
theorem installation_not_exposed (context : FactoryContext) (env : Environment) (old : Medium) :
    (∀ (i : Nat) (entry : Entry), (context.installed env old).trace[i]? = some entry →
      Unissued ((context.installed env old).trace.take (i + 1)) →
      ∀ contents, entry.medium.Leaves contents → context.Exposed contents →
        entry.medium.flushes < old.flushes + 2 ∧ ∃ found, old.Leaves found ∧ context.Exposed found) ∧
    (∀ (i k : Nat) (earlier later : Entry), (context.installed env old).trace[i]? = some earlier →
      (context.installed env old).trace[k]? = some later → i < k → earlier.direct = true →
      earlier.outcome ≠ .done → later.direct = true → later.outcome = .refused) := by
  have h := sound_installed context env old
  constructor
  · intro i entry hentry hunissued
    refine (h.trace i entry hentry).2 ?_
    rwa [take_add_one, hentry] at hunissued
  · intro i k earlier later hearlier hlater hlt hdirect hfailed hdirect'
    by_contra hissued
    have hmem : earlier ∈ (context.installed env old).trace.take k :=
      mem_of_getElem? (logged_take.mpr ⟨hlt, hearlier⟩)
    exact hfailed ((h.trace k later hlater).1 hdirect' hissued earlier hmem hdirect)

def smallBinding : Sector :=
  let sector : Sector := zeros
  let sector := sector.splice 0 rootBindingMagic
  let sector := sector.putLittle 8 4 1
  let sector := sector.putLittle 12 4 rootBindingSize
  let sector := sector.putLittle 80 8 1
  sector.putLittle 92 4 (rootBindingCrc32c (sector.slice 0 92)).toNat

theorem valid_smallBinding : rootBindingValid smallBinding = true := by decide +kernel

/-- The device goes away after the first flush. -/
def stopping : Environment where
  answers clock := ⟨clock == 0, true, fun _ => true⟩
  rootBuild := ⟨[], none, true, false, false⟩
  espBuild := ⟨[], none, true, false, false⟩
  rootVerification := ⟨[], none, true, false, 0, 0⟩
  espVerification := ⟨[], none, true, false, true, 0, zeros⟩

/-- A disk that holds both is found with both until the flush of the withdrawn headers. -/
theorem withdrawal_cut_shows_old_system :
    ∃ (context : FactoryContext) (env : Environment) (old : Medium) (i : Nat) (entry : Entry),
      (context.installed env old).trace[i]? = some entry ∧
      Unissued ((context.installed env old).trace.take (i + 1)) ∧
      ∃ contents, entry.medium.Leaves contents ∧ context.Exposed contents := by
  obtain ⟨gpt, hbuilt⟩ : ∃ gpt, diskLayoutBuild smallLayout = .ok gpt := ⟨_, if_pos valid_small⟩
  let context : FactoryContext := ⟨smallOptions, smallLayout, plan_small, gpt, hbuilt, 0, 0⟩
  let old : Medium :=
    ⟨fun lba => if lba = 1 then gpt.primaryHeader
      else if lba = 67584 then smallBinding else zeros, [], 0⟩
  have htake : (context.installed stopping old).trace.take 1 =
      [⟨true, .flush, .done, ⟨old.view, [], 1⟩, false⟩] := rfl
  refine ⟨context, stopping, old, 0, _, rfl, ?_, old.durable, ⟨[], nil_sublist _, rfl⟩, ?_, ?_⟩
  · rw [htake]
    simp [Unissued]
  · left
    show checkHeader smallLayout gpt.primaryHeader (crc32Table gpt.entries) false = true
    rw [(headers_of_build hbuilt).1]
    exact checkHeader_makeHeader _ _ (by decide) (by decide) (by decide) (by decide) (by decide)
  · have hlast : 67584 ≤ smallLayout.espLastLba := by decide
    exact ⟨67584, le_rfl, hlast, valid_smallBinding⟩

end FactoryContext

end OpenXJ380.Installer
