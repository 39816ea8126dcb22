/-
# Handles are finished once, and never under a user

Two facts carry the argument. A handle is in one place at a time: in one entry of one
table, loose, or given up. And the flag on a record says whether its handle has been
given up: only handles in a table get new records, so every record of a handle that has
been given up was there to be marked. The last record of such a handle therefore knows
that it is the last, and a handle without records is finished by whoever gives it up.

The task that has found this out finishes the handle after it has left the lock. If it is
killed in between, nobody does.
-/

import OpenXJ380.Data.Places
import OpenXJ380.Descriptor.Model

namespace OpenXJ380.Descriptor

open List Function Data

variable {τ π η : Type}

/-- Where a handle can be. -/
inductive Place
  | table (table : ℕ)
  | loose
  | retired
  deriving DecidableEq

/-- The handles in a place. -/
def System.handles (system : System τ π η) : Place → List η
  | .table table => (system.tables table).map Entry.handle
  | .loose => system.loose
  | .retired => system.retired

/-- What holds of the records, given the handles that have been given up and those that
somebody has taken on to finish. -/
structure Registry (layout : Layout η) (operations : Fin buckets → List (OperationRecord τ η))
    (nextRecord : ℕ) (retired : List η) (decided : η → Prop) : Prop where
  bucket : ∀ index, ∀ record ∈ operations index, layout.bucket record.handle = index
  fresh : ∀ index, ∀ record ∈ operations index, record.number < nextRecord
  numbers : ∀ index, ((operations index).map OperationRecord.number).Nodup
  marks : ∀ index, ∀ record ∈ operations index, record.retired = true ↔ record.handle ∈ retired
  decided : ∀ handle, decided handle ↔
    handle ∈ retired ∧ ∀ index, ∀ record ∈ operations index, record.handle ≠ handle

namespace Registry

variable {layout : Layout η} {operations : Fin buckets → List (OperationRecord τ η)}
  {nextRecord : ℕ} {retired : List η} {decided : η → Prop}

/-- The records of a handle are in its bucket. -/
theorem none_iff (registry : Registry layout operations nextRecord retired decided) (handle : η) :
    (∀ index, ∀ record ∈ operations index, record.handle ≠ handle) ↔
      ∀ record ∈ operations (layout.bucket handle), record.handle ≠ handle := by
  refine ⟨fun none => none _, fun none index record member same => ?_⟩
  have here := registry.bucket index record member
  rw [same] at here
  subst here
  exact none record member same

variable {handle : η} {record : OperationRecord τ η} {index : Fin buckets}

section

variable (registry : Registry layout operations nextRecord retired decided)
include registry

theorem register (live : handle ∉ retired) (owner : Option τ) :
    Registry layout (update operations (layout.bucket handle)
        (⟨nextRecord, handle, owner, false⟩ :: operations (layout.bucket handle)))
      (nextRecord + 1) retired decided := by
  set record : OperationRecord τ η := ⟨nextRecord, handle, owner, false⟩
  have members : ∀ index, ∀ other ∈ update operations (layout.bucket handle)
      (record :: operations (layout.bucket handle)) index,
      other ∈ operations index ∨ index = layout.bucket handle ∧ other = record := by
    intro index other member
    by_cases same : index = layout.bucket handle
    · subst same
      rw [update_self] at member
      exact (mem_cons.mp member).symm.imp_right fun eq => ⟨rfl, eq⟩
    · rw [update_of_ne same] at member
      exact .inl member
  refine ⟨?_, ?_, ?_, ?_, ?_⟩
  · intro index other member
    rcases members index other member with old | ⟨rfl, rfl⟩
    · exact registry.bucket index other old
    · rfl
  · intro index other member
    rcases members index other member with old | ⟨rfl, rfl⟩
    · exact (registry.fresh index other old).trans (Nat.lt_succ_self _)
    · exact Nat.lt_succ_self _
  · intro index
    by_cases same : index = layout.bucket handle
    · subst same
      rw [update_self, map_cons, nodup_cons]
      refine ⟨fun clash => ?_, registry.numbers _⟩
      obtain ⟨other, member, equal⟩ := mem_map.mp clash
      exact absurd equal (registry.fresh _ other member).ne
    · rw [update_of_ne same]
      exact registry.numbers index
  · intro index other member
    rcases members index other member with old | ⟨rfl, rfl⟩
    · exact registry.marks index other old
    · simpa using live
  · intro other
    rw [registry.decided other]
    refine and_congr_right fun given =>
      ⟨fun none index found member => ?_, fun none index found member => ?_⟩
    · rcases members index found member with old | ⟨rfl, rfl⟩
      · exact none index found old
      · rintro rfl
        exact live given
    · refine none index found ?_
      by_cases same : index = layout.bucket handle
      · subst same
        rw [update_self]
        exact mem_cons_of_mem _ member
      · rw [update_of_ne same]
        exact member

/-- A change of records that keeps their numbers, handles and marks. -/
theorem map (change : OperationRecord τ η → OperationRecord τ η)
    (number : ∀ record, (change record).number = record.number)
    (handle : ∀ record, (change record).handle = record.handle)
    (mark : ∀ record, (change record).retired = record.retired) :
    Registry layout (fun index => (operations index).map change) nextRecord retired decided := by
  refine ⟨?_, ?_, ?_, ?_, ?_⟩
  · intro index
    simpa [handle] using registry.bucket index
  · intro index
    simpa [number] using registry.fresh index
  · intro index
    have same : (OperationRecord.number ∘ change : OperationRecord τ η → ℕ) =
        OperationRecord.number := funext number
    rw [map_map, same]
    exact registry.numbers index
  · intro index
    simpa [handle, mark] using registry.marks index
  · intro other
    rw [registry.decided other]
    simp [handle]

theorem mem_unlinked
    (member : record ∈ operations index) (place : Fin buckets) (other : OperationRecord τ η) :
    other ∈ update operations (layout.bucket record.handle)
        (unlinked layout operations record) place ↔
      other ∈ operations place ∧ other ≠ record := by
  obtain rfl := registry.bucket index record member
  by_cases same : place = layout.bucket record.handle
  · subst same
    rw [update_self, unlinked]
    have numbers := registry.numbers (layout.bucket record.handle)
    by_cases equal : other.number = record.number
    · -- the number of the record is gone, and no other record has it
      have gone : record.number ∉ ((operations (layout.bucket record.handle)).eraseP
          (·.number = record.number)).map OperationRecord.number := by
        have test : (fun found : OperationRecord τ η => decide (found.number = record.number)) =
            (fun number => record.number == number) ∘ OperationRecord.number := by
          funext found
          rw [comp_apply, Bool.eq_iff_iff, decide_eq_true_iff, beq_iff_eq, eq_comm]
        rw [test, ← eraseP_map, ← erase_eq_eraseP]
        exact numbers.not_mem_erase
      refine iff_of_false (fun found => gone ?_) ?_
      · exact mem_map.mpr ⟨other, found, equal⟩
      rintro ⟨found, different⟩
      exact different (inj_on_of_nodup_map numbers found member equal)
    · rw [mem_eraseP_of_neg (by simpa using equal)]
      exact (and_iff_left fun eq => equal (congrArg _ eq)).symm
  · rw [update_of_ne same]
    refine (and_iff_left_of_imp ?_).symm
    rintro found rfl
    exact same (registry.bucket place other found).symm

end

theorem not_decided (registry : Registry layout operations nextRecord retired decided)
    (member : record ∈ operations index) : ¬decided record.handle := fun finished =>
  ((registry.decided record.handle).mp finished).2 index record member rfl

/-- A record is removed, and its handle is left to be finished if it was the last one of a
handle that has been given up. -/
theorem remove [DecidableEq η] (registry : Registry layout operations nextRecord retired decided)
    (member : record ∈ operations index) :
    Registry layout (update operations (layout.bucket record.handle)
        (unlinked layout operations record))
      nextRecord retired fun handle => decided handle ∨
        (if record.retired && !(unlinked layout operations record).any (·.handle = record.handle) then
          some record.handle else none) = some handle := by
  have members := registry.mem_unlinked member
  set rest := unlinked layout operations record with rest_def
  set after := update operations (layout.bucket record.handle) rest with after_def
  have own : after (layout.bucket record.handle) = rest := update_self ..
  refine ⟨?_, ?_, ?_, ?_, ?_⟩
  · intro place other found
    exact registry.bucket place other ((members place other).mp found).1
  · intro place other found
    exact registry.fresh place other ((members place other).mp found).1
  · intro place
    by_cases same : place = layout.bucket record.handle
    · rw [same, own]
      exact ((eraseP_sublist.map _).nodup (registry.numbers _))
    · rw [after_def, update_of_ne same]
      exact registry.numbers place
  · intro place other found
    exact registry.marks place other ((members place other).mp found).1
  · intro handle
    rw [Option.ite_none_right_eq_some, Option.some_inj]
    by_cases same : handle = record.handle
    · subst same
      -- nothing refers to the handle any more exactly if its bucket has no other record of it
      have none : (∀ place, ∀ other ∈ after place, other.handle ≠ record.handle) ↔
          rest.any (·.handle = record.handle) = false := by
        rw [any_eq_false]
        refine ⟨fun none other found => by simpa using none _ other (own ▸ found), ?_⟩
        intro none place other found equal
        have here := registry.bucket place other ((members place other).mp found).1
        rw [equal] at here
        subst here
        exact none other (own ▸ found) (by simpa using equal)
      rw [none, ← registry.marks index record member, or_iff_right (registry.not_decided member)]
      simp
    · rw [or_iff_left fun both => same both.2.symm, registry.decided handle]
      refine and_congr_right fun _ => forall_congr' fun place => ?_
      refine ⟨fun none other found => none other ((members place other).mp found).1, ?_⟩
      intro none other found equal
      refine none other ((members place other).mpr ⟨found, ?_⟩) equal
      rintro rfl
      exact same equal.symm

@[simp]
theorem mark_handle [DecidableEq η] (handle : η) (record : OperationRecord τ η) :
    (mark handle record).handle = record.handle := by
  unfold mark
  split <;> rfl

@[simp]
theorem mark_number [DecidableEq η] (handle : η) (record : OperationRecord τ η) :
    (mark handle record).number = record.number := by
  unfold mark
  split <;> rfl

/-- Only the bucket of a handle has records to mark. -/
theorem update_mark [DecidableEq η] (registry : Registry layout operations nextRecord retired decided)
    (handle : η) :
    update operations (layout.bucket handle)
        ((operations (layout.bucket handle)).map (mark handle)) =
      fun index => (operations index).map (mark handle) := by
  funext index
  by_cases same : index = layout.bucket handle
  · rw [same, update_self]
  rw [update_of_ne same]
  symm
  refine (map_congr_left fun record member => ?_).trans (map_id _)
  have elsewhere : record.handle ≠ handle := by
    rintro rfl
    exact same (registry.bucket index record member).symm
  simp [mark, elsewhere]

/-- A handle is given up: its records are marked, or, if it has none, it is left to be finished. -/
theorem retire [DecidableEq η] (registry : Registry layout operations nextRecord retired decided)
    (live : handle ∉ retired) :
    Registry layout (update operations (layout.bucket handle)
        ((operations (layout.bucket handle)).map (mark handle)))
      nextRecord (handle :: retired) fun other => decided other ∨
        (if (operations (layout.bucket handle)).any (·.handle = handle) then none
          else some handle) = some other := by
  have undecided : ¬decided handle := fun decided => live ((registry.decided handle).mp decided).1
  rw [registry.update_mark handle]
  refine ⟨?_, ?_, ?_, ?_, ?_⟩
  · intro index
    simpa using registry.bucket index
  · intro index
    simpa using registry.fresh index
  · intro index
    have same : (OperationRecord.number ∘ mark handle : OperationRecord τ η → ℕ) =
        OperationRecord.number := funext (mark_number handle)
    rw [map_map, same]
    exact registry.numbers index
  · intro index record member
    obtain ⟨before, found, rfl⟩ := mem_map.mp member
    by_cases same : before.handle = handle
    · simp [mark, same]
    · simpa [mark, same] using registry.marks index before found
  · intro other
    simp only [mem_map, forall_exists_index, and_imp, forall_apply_eq_imp_iff₂, mark_handle]
    rw [Option.ite_none_left_eq_some, Option.some_inj]
    by_cases same : other = handle
    · subst same
      rw [registry.none_iff other, or_iff_right undecided, Bool.not_eq_true, any_eq_false]
      simp
    · rw [or_iff_left fun both => same both.2.symm, registry.decided other]
      simp [same]

end Registry

/-- Somebody has taken the handle on: it is finished, or a task owes it. -/
def Decided (finished : List η) (owes : τ → Option η) (handle : η) : Prop :=
  handle ∈ finished ∨ ∃ task, owes task = some handle

/-- Nothing is finished twice or owed twice. -/
structure Duties (finished : List η) (owes : τ → Option η) : Prop where
  nodup : finished.Nodup
  unfinished : ∀ task handle, owes task = some handle → handle ∉ finished
  single : ∀ task other handle, owes task = some handle → owes other = some handle → task = other

namespace Duties

variable [DecidableEq τ] {finished : List η} {owes : τ → Option η} {task other : τ} {handle : η}

theorem update_eq_some (owed : Option η) : update owes task owed other = some handle ↔
    other = task ∧ owed = some handle ∨ other ≠ task ∧ owes other = some handle := by
  by_cases same : other = task
  · subst same
    simp
  · simp [same]

/-- A task that owes nothing takes on a handle. -/
theorem decided_take (idle : owes task = none) (owed : Option η) :
    Decided finished (update owes task owed) =
      fun handle => Decided finished owes handle ∨ owed = some handle := by
  funext handle
  have different : ∀ other, owes other = some handle → other ≠ task := by
    rintro other owes rfl
    rw [idle] at owes
    cases owes
  simp only [Decided, update_eq_some, eq_iff_iff]
  grind

theorem take (duties : Duties finished owes) (owed : Option η)
    (undecided : ∀ handle, owed = some handle → ¬Decided finished owes handle) :
    Duties finished (update owes task owed) := by
  obtain ⟨nodup, unfinished, single⟩ := duties
  refine ⟨nodup, ?_, ?_⟩
  · simp only [update_eq_some]
    rintro other handle (⟨-, owes⟩ | ⟨-, owes⟩)
    · exact fun finished => undecided handle owes (.inl finished)
    · exact unfinished other handle owes
  · simp only [update_eq_some]
    rintro other another handle (⟨rfl, owes⟩ | ⟨-, owes⟩) (⟨rfl, owes'⟩ | ⟨-, owes'⟩)
    · rfl
    · exact absurd (.inr ⟨another, owes'⟩) (undecided handle owes)
    · exact absurd (.inr ⟨other, owes⟩) (undecided handle owes')
    · exact single other another handle owes owes'

/-- A task finishes what it owes. -/
theorem decided_finish (owed : owes task = some handle) :
    Decided (handle :: finished) (update owes task none) = Decided finished owes := by
  funext other
  simp only [Decided, update_eq_some, mem_cons, eq_iff_iff]
  grind

theorem finish (duties : Duties finished owes) (owed : owes task = some handle) :
    Duties (handle :: finished) (update owes task none) := by
  obtain ⟨nodup, unfinished, single⟩ := duties
  refine ⟨nodup_cons.mpr ⟨unfinished task handle owed, nodup⟩, ?_, ?_⟩
  · simp only [update_eq_some, mem_cons, not_or]
    rintro other another (⟨-, owes⟩ | ⟨different, owes⟩)
    · cases owes
    · refine ⟨?_, unfinished other another owes⟩
      rintro rfl
      exact different (single other task another owes owed)
  · simp only [update_eq_some]
    rintro other another token (⟨-, owes⟩ | ⟨-, owes⟩) (⟨-, owes'⟩ | ⟨-, owes'⟩)
    · cases owes
    · cases owes
    · cases owes'
    · exact single other another token owes owes'

end Duties

/-- The task that may have to finish a handle after its section. -/
def Action.closer : Action τ π η → Option τ
  | .release task _ | .retire task _ => some task
  | _ => none

namespace System

/-- The invariant of the tables and the registry. -/
structure Sound (layout : Layout η) (system : System τ π η) : Prop where
  arranged : Arranged system.handles
  created : ∀ place, ∀ handle ∈ system.handles place, handle ∈ system.created
  registry : Registry layout system.operations system.nextRecord system.retired
    (Decided system.finished system.owes)
  duties : Duties system.finished system.owes

theorem sound_initial (layout : Layout η) (fileOpen : π → Option ℕ) (referenced : τ → Bool) :
    (initial fileOpen referenced : System τ π η).Sound layout := by
  have empty : ∀ place, (initial fileOpen referenced : System τ π η).handles place = [] := by
    intro place
    cases place <;> rfl
  refine ⟨⟨fun place => ?_, fun {place other token} member => ?_⟩, fun place handle member => ?_, ?_, ?_⟩
  · rw [empty place]
    exact nodup_nil
  · rw [empty place] at member
    exact absurd member not_mem_nil
  · rw [empty place] at member
    exact absurd member not_mem_nil
  · exact ⟨fun _ _ member => absurd member not_mem_nil,
      fun _ _ member => absurd member not_mem_nil, fun _ => nodup_nil,
      fun _ _ member => absurd member not_mem_nil, by simp [initial, Decided]⟩
  · exact ⟨nodup_nil, fun _ _ owed => (by cases owed), fun _ _ _ owed => (by cases owed)⟩

variable {layout : Layout η} {system : System τ π η} {handle : η}

theorem detachLocked_perm {entries rest : List (Entry η)} {test : Entry η → Bool}
    (found : detachLocked entries test = some (handle, rest)) :
    (entries.map Entry.handle).Perm (handle :: rest.map Entry.handle) := by
  obtain ⟨entry, first, equal⟩ := Option.map_eq_some_iff.mp found
  obtain ⟨rfl, rfl⟩ := Prod.mk.inj equal
  obtain ⟨passes, before, behind, rfl, earlier⟩ := List.find?_eq_some_iff_append.mp first
  have rest : (before ++ entry :: behind).eraseP test = before ++ behind := by
    rw [eraseP_append_right _ fun other member => by simpa using earlier other member,
      eraseP_cons_of_pos passes]
  rw [rest, ← map_cons]
  exact perm_middle.map _

variable {after : System τ π η}

section

variable (sound : system.Sound layout)
include sound

/-- A handle moves between two places, and nothing else about handles changes. -/
theorem Sound.move (source target : Place) (handle : η)
    (moved : Moved system.handles after.handles source target handle) (created : after.created = system.created)
    (registry : Registry layout after.operations after.nextRecord after.retired
      (Decided after.finished after.owes))
    (duties : Duties after.finished after.owes) : after.Sound layout where
  arranged := sound.arranged.move moved
  created := created ▸ forall_move moved sound.created
  registry := registry
  duties := duties

theorem Sound.records (handles : after.handles = system.handles)
    (created : after.created = system.created)
    (registry : Registry layout after.operations after.nextRecord after.retired
      (Decided after.finished after.owes))
    (duties : Duties after.finished after.owes) : after.Sound layout :=
  ⟨handles ▸ sound.arranged, fun place token member =>
    created ▸ sound.created place token (handles ▸ member), registry, duties⟩

theorem Sound.detach (table : ℕ) (test : Entry η → Bool) :
    (system.detach table test).Sound layout := by
  unfold System.detach
  split
  · exact sound
  next handle rest found =>
    refine sound.move (.table table) .loose handle ⟨by simp, ?_, .refl _, ?_⟩ rfl sound.registry
      sound.duties
    · simpa [handles] using detachLocked_perm found
    intro place leaving arriving
    cases place with
    | table other =>
      have different : other ≠ table := fun same => leaving (congrArg _ same)
      simp [handles, different]
    | loose => exact absurd rfl arriving
    | retired => rfl

theorem Sound.create (new : handle ∉ system.created) : System.Sound layout
      { system with created := handle :: system.created, loose := handle :: system.loose } := by
  have others : ∀ place ≠ .loose, System.handles
      { system with created := handle :: system.created, loose := handle :: system.loose } place =
      system.handles place := by
    intro place different
    cases place <;> first | rfl | exact absurd rfl different
  have absent : ∀ place, handle ∉ system.handles place :=
    fun place member => new (sound.created place handle member)
  refine ⟨sound.arranged.add .loose absent (List.Perm.refl _) others, ?_, sound.registry, sound.duties⟩
  intro place token member
  by_cases same : place = .loose
  · subst same
    rcases mem_cons.mp member with rfl | old
    · exact mem_cons_self
    · exact mem_cons_of_mem _ (sound.created .loose token old)
  · rw [others place same] at member
    exact mem_cons_of_mem _ (sound.created place token member)

theorem Sound.not_retired {place : Place}
    (elsewhere : place ≠ .retired) (member : handle ∈ system.handles place) :
    handle ∉ system.retired := by
  intro given
  have there : handle ∈ system.handles .retired := given
  exact elsewhere (sound.arranged.apart member there)

end

theorem Sound.transferToKernel [DecidableEq τ] (sound : system.Sound layout) (task : τ)
    (number : ℕ) : (system.transferToKernel task number).Sound layout := by
  unfold System.transferToKernel
  split_ifs
  · exact sound
  · refine sound.records rfl rfl (sound.registry.map _ ?_ ?_ ?_) sound.duties <;>
      · intro record
        split_ifs <;> rfl

theorem Sound.register (sound : system.Sound layout) (table : ℕ)
    (member : handle ∈ system.handles (.table table)) (owner : Option τ) :
    (system.register layout handle owner).Sound layout :=
  sound.records rfl rfl (sound.registry.register (sound.not_retired (by simp) member) owner)
    sound.duties

theorem Sound.acquire (sound : system.Sound layout) (task : τ) (process : π) (descriptor : ℕ) :
    (system.acquire layout task process descriptor).Sound layout := by
  simp only [System.acquire]
  split
  · exact sound
  next table _ =>
    split
    · exact sound
    next entry found =>
      split_ifs
      · have member := mem_of_find?_eq_some found
        exact sound.register table (mem_map_of_mem member) (some task)
      · exact sound

section Steps

theorem Sound.finish [DecidableEq τ] (sound : system.Sound layout) (task : τ) :
    (system.finish task).Sound layout := by
  unfold System.finish
  split
  · exact sound
  next handle owed =>
    refine sound.records rfl rfl ?_ (sound.duties.finish owed)
    have same := @Duties.decided_finish _ _ _ system.finished system.owes _ _ owed
    exact same ▸ sound.registry

theorem owes_of_free {task : τ} (free : system.free task = true) : system.owes task = none := by
  simpa [System.free] using (Bool.and_eq_true_iff.mp free).2

variable [DecidableEq η]

theorem Sound.removeFirst [DecidableEq τ] (sound : system.Sound layout) {task : τ}
    (idle : system.owes task = none) (test : OperationRecord τ η → Bool) :
    (system.removeFirst layout task test).Sound layout := by
  unfold System.removeFirst
  split
  · exact sound
  next record found =>
    obtain ⟨index, _, first⟩ := exists_of_findSome?_eq_some found
    have member := mem_of_find?_eq_some first
    refine sound.records rfl rfl ?_ (sound.duties.take _ fun handle owed => ?_)
    · exact Duties.decided_take idle _ ▸ sound.registry.remove member
    · rw [removeRecord, Option.ite_none_right_eq_some, Option.some_inj] at owed
      exact owed.2 ▸ sound.registry.not_decided member

theorem Sound.retire [DecidableEq τ] [DecidableEq π] (sound : system.Sound layout) {task : τ}
    (idle : system.owes task = none) (handle : η) :
    (system.act layout (.retire task handle)).Sound layout := by
  by_cases loose : handle ∈ system.loose
  · have there : handle ∈ system.handles .loose := loose
    have live := sound.not_retired (by simp) there
    simp only [System.act, if_pos loose]
    refine sound.move .loose .retired handle ⟨by simp, perm_cons_erase loose, .refl _, ?_⟩ rfl
      (Duties.decided_take idle _ ▸ sound.registry.retire live) (sound.duties.take _ fun token owed => ?_)
    · intro place leaving arriving
      cases place with
      | table => rfl
      | loose => exact absurd rfl leaving
      | retired => exact absurd rfl arriving
    · rw [Option.ite_none_left_eq_some, Option.some_inj] at owed
      exact owed.2 ▸ fun decided => live ((sound.registry.decided handle).mp decided).1
  · simpa only [System.act, if_neg loose] using sound

section

variable (sound : system.Sound layout)
include sound

/-- A loose handle is put at the end of a table. -/
theorem Sound.place (table number : ℕ) {handle : η} (loose : handle ∈ system.loose) :
    System.Sound layout
      { system with
        tables := update system.tables table (system.tables table ++ [⟨number, handle⟩])
        loose := system.loose.erase handle } := by
  refine sound.move .loose (.table table) handle ⟨by simp, perm_cons_erase loose, ?_, ?_⟩ rfl
    sound.registry sound.duties
  · simp [handles]
  intro place leaving arriving
  cases place with
  | table other =>
    have different : other ≠ table := fun same => arriving (congrArg _ same)
    simp [handles, different]
  | loose => exact absurd rfl leaving
  | retired => rfl

variable (task : τ)

theorem Sound.append (table number : ℕ) {handle : η}
    (loose : handle ∈ system.loose) (publisher : Bool) :
    (system.append layout task table number handle publisher).Sound layout := by
  have placed := sound.place table number loose
  simp only [System.append]
  split_ifs
  · exact placed.register table (by simp [handles]) (some task)
  · exact placed

theorem Sound.install (process : π) (handle : η) (minimum : ℕ) (exact publisher : Bool) :
    (system.install layout task process handle minimum exact publisher).Sound layout := by
  simp only [System.install]
  split
  · exact sound
  next table _ =>
    split_ifs with loose replaces used
    · have still : handle ∈ (system.detach table (matching system.cloexec minimum minimum
          false)).loose := by
        unfold System.detach
        split
        · exact loose
        · exact mem_cons_of_mem _ loose
      exact (sound.detach table _).append task table minimum still publisher
    · exact sound
    · exact sound.append task table _ loose publisher
    · exact sound

end

theorem Sound.act [DecidableEq τ] [DecidableEq π] (sound : system.Sound layout) (action : Action τ π η)
    (idle : ∀ task, action.closer = some task → system.owes task = none) :
    (system.act layout action).Sound layout := by
  cases action with
  | acquire task process descriptor => exact sound.acquire task process descriptor
  | transfer task number => exact sound.transferToKernel task number
  | release task number => exact sound.removeFirst (idle task rfl) _
  | install task process handle minimum exact publisher =>
    exact sound.install task process handle minimum exact publisher
  | retire task handle => exact sound.retire (idle task rfl) handle
  | detachMatching task process first last onlyCloexec =>
    simp only [System.act]
    split
    · exact sound
    · exact sound.detach _ _
  | detachIf task process descriptor expected =>
    simp only [System.act]
    split
    · exact sound
    · split_ifs
      · exact sound.detach _ _
      · exact sound
  | detachTable task process => exact sound.records rfl rfl sound.registry sound.duties
  | detachFirst task table => exact sound.detach table _
  | markCloexec task process first last =>
    simp only [System.act, System.markCloexec]
    split
    · exact sound
    · exact sound.records rfl rfl sound.registry sound.duties
  | _ => exact sound

theorem Sound.step [DecidableEq τ] [DecidableEq π] (sound : system.Sound layout)
    (action : Action τ π η) : (system.step layout action).Sound layout := by
  cases action with
  | create handle =>
    simp only [System.step]
    split_ifs with known
    · exact sound
    · exact sound.create known
  | finish task =>
    simp only [System.step]
    split_ifs
    · exact sound.finish task
    · exact sound
  | reap runner scanned =>
    simp only [System.step]
    split_ifs with free
    · exact sound.removeFirst (owes_of_free free) _
    · exact sound
  | threadExit runner task scanned =>
    simp only [System.step]
    split_ifs with free
    · exact sound.removeFirst (owes_of_free (Bool.and_eq_true_iff.mp free).1) _
    · exact sound
  | die | exit | deschedule => exact sound.records rfl rfl sound.registry sound.duties
  | schedule task =>
    simp only [System.step]
    split_ifs
    · exact sound
    · exact sound.records rfl rfl sound.registry sound.duties
  | _ =>
    simp only [System.step]
    split_ifs with free
    · exact sound.act _ fun task closes => by cases closes <;> exact owes_of_free free
    · exact sound

end Steps

/-- A section changes what a task owes only if the task runs. -/
structure Tasks (system after : System τ π η) : Prop where
  terminal : after.terminal = system.terminal
  referenced : after.referenced = system.referenced
  owes : ∀ task, system.referenced task = false → after.owes task = system.owes task

theorem Tasks.of_eq (terminal : after.terminal = system.terminal)
    (referenced : after.referenced = system.referenced) (owes : after.owes = system.owes) :
    Tasks system after := ⟨terminal, referenced, fun _ _ => owes ▸ rfl⟩

theorem running_of_free {task : τ} (free : system.free task = true) :
    system.referenced task = true := (Bool.and_eq_true_iff.mp free).1

section Tasks

variable [DecidableEq τ]

/-- What a task owes changes only while it runs. -/
theorem tasks_owe {task : τ} (runs : system.referenced task = true) (owed : Option η) :
    ∀ other, system.referenced other = false → update system.owes task owed other = system.owes other := by
  intro other stopped
  apply update_of_ne
  rintro rfl
  exact absurd (runs.symm.trans stopped) (by simp)

variable [DecidableEq η]

theorem tasks_removeFirst {task : τ} (runs : system.referenced task = true)
    (test : OperationRecord τ η → Bool) : Tasks system (system.removeFirst layout task test) := by
  unfold System.removeFirst
  split
  · exact .of_eq rfl rfl rfl
  · exact ⟨rfl, rfl, tasks_owe runs _⟩

theorem tasks_act [DecidableEq π] (action : Action τ π η)
    (runs : ∀ task, action.closer = some task → system.referenced task = true) :
    Tasks system (system.act layout action) := by
  cases action with
  | release task number => exact tasks_removeFirst (runs task rfl) _
  | retire task handle =>
    simp only [System.act]
    split
    · exact ⟨rfl, rfl, tasks_owe (runs task rfl) _⟩
    · exact .of_eq rfl rfl rfl
  | _ =>
    simp only [System.act, System.acquire, System.transferToKernel, System.install, System.append,
      System.detach, System.register, System.markCloexec]
    repeat' split
    all_goals exact .of_eq rfl rfl rfl

/-- Only the scheduler starts, stops or kills a task. -/
theorem tasks_step [DecidableEq π] (action : Action τ π η) (die : ∀ task, action ≠ .die task)
    (deschedule : ∀ task, action ≠ .deschedule task) (schedule : ∀ task, action ≠ .schedule task) :
    Tasks system (system.step layout action) := by
  cases action with
  | die task => exact absurd rfl (die task)
  | deschedule task => exact absurd rfl (deschedule task)
  | schedule task => exact absurd rfl (schedule task)
  | exit => exact .of_eq rfl rfl rfl
  | create handle =>
    simp only [System.step]
    split_ifs <;> exact .of_eq rfl rfl rfl
  | finish task =>
    simp only [System.step, System.finish]
    split_ifs with runs
    · split
      · exact .of_eq rfl rfl rfl
      · exact ⟨rfl, rfl, tasks_owe runs _⟩
    · exact .of_eq rfl rfl rfl
  | reap runner scanned =>
    simp only [System.step]
    split_ifs with free
    · exact tasks_removeFirst (running_of_free free) _
    · exact .of_eq rfl rfl rfl
  | threadExit runner task scanned =>
    simp only [System.step]
    split_ifs with free
    · exact tasks_removeFirst (running_of_free (Bool.and_eq_true_iff.mp free).1) _
    · exact .of_eq rfl rfl rfl
  | _ =>
    simp only [System.step]
    split_ifs with free
    · exact tasks_act _ fun task closes => by cases closes <;> exact running_of_free free
    · exact .of_eq rfl rfl rfl

end Tasks

/-- No task is killed for good while it has a handle to finish: neither killed when it does not run
nor taken from its CPU when it has been killed. -/
def Unbroken (system : System τ π η) : Action τ π η → Prop
  | .die task => system.owes task = none ∨ system.referenced task = true
  | .deschedule task => system.owes task = none ∨ system.terminal task = false
  | _ => True

/-- A task that has a handle to finish can still run. -/
def Unlost (system : System τ π η) : Prop := ∀ task handle, system.owes task = some handle →
    system.referenced task = true ∨ system.terminal task = false

/-- A task that has been killed before it could finish a handle. -/
structure Lost (system : System τ π η) (task : τ) (handle : η) : Prop where
  owes : system.owes task = some handle
  terminal : system.terminal task = true
  stopped : system.referenced task = false

theorem Unlost.of_tasks (unlost : system.Unlost) (tasks : Tasks system after) : after.Unlost := by
  intro task handle owes
  rw [tasks.referenced, tasks.terminal]
  cases runs : system.referenced task with
  | true => exact .inl rfl
  | false => exact runs ▸ unlost task handle (tasks.owes task runs ▸ owes)

theorem Lost.of_tasks {task : τ} (lost : system.Lost task handle) (tasks : Tasks system after) :
    after.Lost task handle :=
  ⟨(tasks.owes task lost.stopped).trans lost.owes, tasks.terminal ▸ lost.terminal,
    tasks.referenced ▸ lost.stopped⟩

section Kill

variable [DecidableEq τ] [DecidableEq π] [DecidableEq η]

theorem Unlost.step (action : Action τ π η) (unbroken : Unbroken system action)
    (unlost : system.Unlost) : (system.step layout action).Unlost := by
  cases action with
  | die task =>
    intro other handle owes
    have before : system.owes other = some handle := owes
    by_cases same : other = task
    · subst same
      exact .inl (unbroken.resolve_left (by simp [before]))
    · simpa [System.step, same] using unlost other handle before
  | deschedule task =>
    intro other handle owes
    have before : system.owes other = some handle := owes
    by_cases same : other = task
    · subst same
      exact .inr (unbroken.resolve_left (by simp [before]))
    · simpa [System.step, same] using unlost other handle before
  | schedule task =>
    simp only [System.step]
    split_ifs
    · exact unlost
    · intro other handle owes
      by_cases same : other = task
      · exact .inl (by simp [same])
      · simpa [same] using unlost other handle owes
  | _ => exact unlost.of_tasks (tasks_step _ (by simp) (by simp) (by simp))

theorem Lost.step {task : τ} (lost : system.Lost task handle) (action : Action τ π η) :
    (system.step layout action).Lost task handle := by
  cases action with
  | die other => exact ⟨lost.owes, by simp [System.step, update_apply, lost.terminal], lost.stopped⟩
  | deschedule other => exact ⟨lost.owes, lost.terminal, by simp [System.step, update_apply, lost.stopped]⟩
  | schedule other =>
    simp only [System.step]
    split_ifs with terminal
    · exact lost
    · refine ⟨lost.owes, lost.terminal, ?_⟩
      have different : task ≠ other := by
        rintro rfl
        exact terminal lost.terminal
      simpa [different] using lost.stopped
  | _ => exact lost.of_tasks (tasks_step _ (by simp) (by simp) (by simp))

theorem sound_run (layout : Layout η) (fileOpen : π → Option ℕ) (referenced : τ → Bool)
    (schedule : List (Action τ π η)) : (Protocol.run (System.step layout)
      (initial fileOpen referenced) schedule).Sound layout :=
  Protocol.invariant_run_of_step (System.step layout) (Sound layout)
    (fun _ action sound => sound.step action) (sound_initial layout fileOpen referenced) schedule

/-- In every schedule a handle is finished at most once, and a finished handle is in no table
and no record refers to it. Where no task is killed between a section and what it has to finish,
a handle that has been given up and has no record left is finished, or a task that can still run
has nothing else to do before it finishes it. -/
theorem finished_run (layout : Layout η)
    (fileOpen : π → Option ℕ) (referenced : τ → Bool) (schedule : List (Action τ π η)) :
    let final := Protocol.run (System.step layout) (initial fileOpen referenced) schedule
    final.finished.Nodup ∧ (∀ handle ∈ final.finished,
        (∀ table, ∀ entry ∈ final.tables table, entry.handle ≠ handle) ∧
          ∀ record, final.Registered record → record.handle ≠ handle) ∧
      (Protocol.Along (System.step layout) Unbroken (initial fileOpen referenced) schedule →
        ∀ handle ∈ final.retired, (∀ record, final.Registered record → record.handle ≠ handle) →
          handle ∈ final.finished ∨ ∃ task, final.owes task = some handle ∧
            (final.referenced task = true ∨ final.terminal task = false)) := by
  intro final
  have sound : final.Sound layout := sound_run layout fileOpen referenced schedule
  refine ⟨sound.duties.nodup, fun handle finished => ?_, fun unbroken handle given none => ?_⟩
  · obtain ⟨given, none⟩ := (sound.registry.decided handle).mp (.inl finished)
    refine ⟨fun table entry member same => ?_, fun record ⟨index, found⟩ => none index record found⟩
    have there : handle ∈ final.handles (.table table) := mem_map.mpr ⟨entry, member, same⟩
    exact sound.not_retired (by simp) there given
  · have unlost : final.Unlost := Protocol.invariant_run (System.step layout) Unlost
      (fun _ => Unlost.step) unbroken fun _ _ owes => by cases owes
    refine ((sound.registry.decided handle).mpr
      ⟨given, fun index record found => none record ⟨index, found⟩⟩).imp_right ?_
    exact fun ⟨task, owes⟩ => ⟨task, owes, unlost task handle owes⟩

end Kill

/-- All handles have a node and fall into one bucket. -/
def oneBucket : Layout Unit := ⟨fun _ => 0, fun _ => true⟩

/-- A thread uses a descriptor that another one closes, and is the last to let go of it. -/
def closedInUse : List (Action Bool Unit Unit) :=
  [.create (), .install false () () 0 false false, .acquire true () 0,
    .detachMatching false () 0 0 false, .retire false (), .release true 0]

/-- The thread is killed while it runs, and stopped when it has finished the handle. -/
theorem finished_run_closedInUse :
    let final := Protocol.run (System.step oneBucket) (initial (fun _ => some 0) fun _ => true)
      (closedInUse ++ [.die true, .finish true, .deschedule true])
    () ∈ final.retired ∧ final.terminal true = true ∧ () ∈ final.finished := by
  intro final
  have unbroken : Protocol.Along (System.step oneBucket) Unbroken
      (initial (fun _ => some 0) fun _ => true)
      (closedInUse ++ [.die true, .finish true, .deschedule true]) := by
    refine ⟨trivial, trivial, trivial, trivial, trivial, trivial, .inr ?_, trivial, .inl ?_, trivial⟩ <;>
      decide +kernel
  have empty : ∀ index, final.operations index = [] := by decide +kernel
  have idle : ∀ task, final.owes task = none := by decide +kernel
  have given : () ∈ final.retired := by decide +kernel
  refine ⟨given, by decide +kernel, ?_⟩
  rcases (finished_run oneBucket (fun _ => some 0) (fun _ => true) _).2.2 unbroken () given
    (fun record ⟨index, found⟩ => by simp [final, empty] at found) with finished | ⟨task, owes, -⟩
  · exact finished
  · exact absurd ((idle task).symm.trans owes) (by simp)

/-- The thread is killed before it finishes the handle, and nobody ever does. -/
theorem killed_release_leaks :
    let final := Protocol.run (System.step oneBucket) (initial (fun _ => some 0) fun _ => true)
      (closedInUse ++ [.die true, .deschedule true])
    () ∈ final.retired ∧ (∀ record, ¬final.Registered record) ∧
      ∀ later, () ∉ (Protocol.run (System.step oneBucket) final later).finished := by
  intro final
  have lost : final.Lost true () := ⟨by decide +kernel, by decide +kernel, by decide +kernel⟩
  have empty : ∀ index, final.operations index = [] := by decide +kernel
  refine ⟨by decide +kernel, fun record ⟨index, found⟩ => by simp [empty] at found, fun later => ?_⟩
  have still := Protocol.invariant_run_of_step (System.step oneBucket) (Lost · true ())
    (fun _ action lost => lost.step action) lost later
  have sound : (Protocol.run (System.step oneBucket) final later).Sound oneBucket :=
    Protocol.invariant_run_of_step (System.step oneBucket) (Sound oneBucket)
      (fun _ action sound => sound.step action) (sound_run oneBucket ..) later
  exact sound.duties.unfinished true () still.owes

end System

end OpenXJ380.Descriptor
