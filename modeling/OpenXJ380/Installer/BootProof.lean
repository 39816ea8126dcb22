/-
# Checks of the boot translation

`src/kernel/installer/boot_proof.cpp` reads the page tables that the loader has left.
`verify_direct_span` walks them for a span of the direct map, from leaf to leaf.
`verify_table_closure` visits every table once and records it with its level; a table that it
meets again must have the level that was recorded.

The reader may refuse any entry. Addresses are numbers: no sum of the source wraps.
-/

import Mathlib

namespace OpenXJ380.Installer

open List

def addressMask : UInt64 := 0x000ffffffffff000
def presentBit : UInt64 := 1
def userBit : UInt64 := 4
def hugeBit : UInt64 := 128
def directMapBase : Nat := 0xffff800000000000
def directMapBytes : Nat := 2 ^ 47
def tableWorkspaceCapacity : Nat := 8192

structure TableReader where
  readEntry : UInt64 → Nat → Option UInt64
  physicalBits : Nat
  nxEnabled : Bool
  gigabytePages : Bool

section

variable (reader : TableReader)

/-- The bits of the page addresses that the processor has. -/
def TableReader.physicalMask : UInt64 := UInt64.ofNat (2 ^ reader.physicalBits - 1) &&& addressMask

/-- `reader_root_valid`, with the physical mask. -/
def readerRootValid (root : UInt64) : Option UInt64 :=
  if reader.physicalBits < 32 ∨ reader.physicalBits > 52 ∨ root = 0 ∨
      root &&& ~~~addressMask ≠ 0 then none
  else if root &&& ~~~reader.physicalMask ≠ 0 then none
  else some reader.physicalMask

section

variable (level : Nat)

def levelShift : Nat := 12 + 9 * (level - 1)

def lowMask : UInt64 := UInt64.ofNat (2 ^ levelShift level - 1)

/-- The answer that `present_entry_valid` gives in `leaf`. -/
def isLeaf (entry : UInt64) : Bool := level == 1 || entry &&& hugeBit != 0

end

variable (mask : UInt64) (level : Nat)

def presentEntryValid (entry : UInt64) : Bool :=
  if entry &&& addressMask &&& ~~~mask ≠ 0 ∨ (!reader.nxEnabled ∧ entry >>> 63 ≠ 0) then false
  else if level = 4 ∧ entry &&& hugeBit ≠ 0 then false
  else if level = 3 ∧ entry &&& hugeBit ≠ 0 ∧ !reader.gigabytePages then false
  else if isLeaf level entry ∧ level ≠ 1 ∧
      entry &&& addressMask &&& lowMask level &&& ~~~0x1000 ≠ 0 then false
  else true

/-- An entry that is read, present and valid. -/
def TableReader.Has (table : UInt64) (index : Nat) (entry : UInt64) : Prop :=
  reader.readEntry table index = some entry ∧ entry &&& presentBit ≠ 0 ∧
    presentEntryValid reader mask level entry = true

end

structure Mapping where
  physical : Nat
  remaining : Nat
  supervisor : Bool
deriving DecidableEq

/-- The loop of `resolve_mapping`. -/
def resolveLoop (reader : TableReader) (mask : UInt64) (address : Nat) :
    (level : Nat) → (table : UInt64) → (user : Bool) → Option Mapping
  | 0, _, _ => none
  | level + 1, table, user =>
    let shift := levelShift (level + 1)
    match reader.readEntry table (address / 2 ^ shift % 512) with
    | none => none
    | some entry =>
      if entry &&& presentBit = 0 then none
      else if !presentEntryValid reader mask (level + 1) entry then none
      else
        let user := user && entry &&& userBit != 0
        if isLeaf (level + 1) entry then
          some ⟨(entry &&& addressMask &&& ~~~lowMask (level + 1)).toNat + address % 2 ^ shift,
            2 ^ shift - address % 2 ^ shift, !user⟩
        else if entry &&& addressMask = 0 then none
        else resolveLoop reader mask address level (entry &&& addressMask) user

def resolveMapping (reader : TableReader) (root : UInt64) (address : Nat) : Option Mapping :=
  if address < 2 ^ 47 ∨ address ≥ directMapBase then
    match readerRootValid reader root with
    | none => none
    | some mask => resolveLoop reader mask address 4 root true
  else none

/-- The loop of `verify_direct_span`; a round takes at least one byte. -/
def verifySpan (reader : TableReader) (root : UInt64) : (fuel physical bytes : Nat) → Bool
  | 0, _, bytes => bytes == 0
  | fuel + 1, physical, bytes =>
    if bytes = 0 then true
    else
      match resolveMapping reader root (directMapBase + physical) with
      | none => false
      | some mapping =>
        if !mapping.supervisor ∨ mapping.physical ≠ physical then false
        else
          let step := min bytes mapping.remaining
          verifySpan reader root fuel (physical + step) (bytes - step)

def verifyDirectSpan (reader : TableReader) (root physical bytes : UInt64) : Bool :=
  if physical = 0 ∨ bytes = 0 ∨ physical.toNat ≥ directMapBytes ∨
      bytes.toNat > directMapBytes - physical.toNat then false
  else verifySpan reader root bytes.toNat physical.toNat bytes.toNat

/-- The walk of the processor from a table: it leads through further tables to a leaf with a
physical address, and gives user access if every entry on the way does. -/
inductive Walk (reader : TableReader) (mask : UInt64) (address : Nat) :
    (level : Nat) → (table : UInt64) → (further : List UInt64) → (physical : Nat) → (user : Bool) → Prop
  | leaf {level : Nat} {table entry : UInt64}
      (hentry : reader.Has mask (level + 1) table (address / 2 ^ levelShift (level + 1) % 512) entry)
      (hleaf : isLeaf (level + 1) entry = true) :
      Walk reader mask address (level + 1) table []
        ((entry &&& addressMask &&& ~~~lowMask (level + 1)).toNat +
          address % 2 ^ levelShift (level + 1)) (entry &&& userBit != 0)
  | table {level physical : Nat} {table entry : UInt64} {further : List UInt64} {user : Bool}
      (hentry : reader.Has mask (level + 1) table (address / 2 ^ levelShift (level + 1) % 512) entry)
      (hleaf : isLeaf (level + 1) entry = false)
      (hrest : Walk reader mask address level (entry &&& addressMask) further physical user) :
      Walk reader mask address (level + 1) table ((entry &&& addressMask) :: further) physical
        (entry &&& userBit != 0 && user)

/-- The byte is mapped in the direct map through these tables, for the supervisor only. -/
def DirectMapped (reader : TableReader) (root : UInt64) (further : List UInt64) (physical : Nat) : Prop :=
  Walk reader reader.physicalMask (directMapBase + physical) 4 root further physical false

/-- A root that can be loaded: page aligned, and with no more bits than the processor has. -/
def TableReader.Accepts (reader : TableReader) (root : UInt64) : Prop :=
  32 ≤ reader.physicalBits ∧ reader.physicalBits ≤ 52 ∧ root &&& ~~~reader.physicalMask = 0

section Direct

variable {reader : TableReader} {root mask : UInt64} {address physical : Nat}
  {size level : Nat} {table : UInt64} {mapping : Mapping}

/-- An address that stays in its block has the same index at that level. -/
theorem div_mod_of_stays {d : Nat} (h : address % size + d < size) :
    (address + d) / size = address / size ∧ (address + d) % size = address % size + d := by
  refine (Nat.div_mod_unique (by omega)).mpr ⟨?_, h⟩
  rw [Nat.add_right_comm, Nat.mod_add_div]

/-- The bytes that remain in a block are in the block above it. -/
theorem stays_above {remaining : Nat} (h : address % size + remaining ≤ size) :
    address % (size * 512) + remaining ≤ size * 512 := by
  have hindex : address / size % 512 ≤ 511 := by omega
  have hblocks := Nat.mul_le_mul_left size hindex
  rw [Nat.mod_mul]
  omega

/-- What the loop finds is what the walk reaches, and so for the bytes that remain. -/
theorem resolveLoop_walks {user : Bool}
    (h : resolveLoop reader mask address level table user = some mapping) :
    0 < mapping.remaining ∧ address % 2 ^ levelShift level + mapping.remaining ≤ 2 ^ levelShift level ∧
      ∃ further access, 0 ∉ further ∧ mapping.supervisor = !(user && access) ∧ ∀ d < mapping.remaining,
        Walk reader mask (address + d) level table further (mapping.physical + d) access := by
  induction level generalizing table user with
  | zero => cases h
  | succ level ih =>
    simp only [resolveLoop] at h
    split at h
    · cases h
    rename_i entry hread
    split at h
    · cases h
    rename_i hpresent
    split at h
    · cases h
    rename_i hvalid
    have hhas : reader.Has mask (level + 1) table
        (address / 2 ^ levelShift (level + 1) % 512) entry := ⟨hread, hpresent, by simpa using hvalid⟩
    split at h
    · rename_i hleaf
      cases h
      refine ⟨by dsimp only; omega, by dsimp only; omega, [], _, not_mem_nil, rfl, fun d hd => ?_⟩
      have hstays : address % 2 ^ levelShift (level + 1) + d < 2 ^ levelShift (level + 1) := by
        dsimp only at hd
        omega
      rcases div_mod_of_stays hstays with ⟨hindex, hoffset⟩
      rw [← hindex] at hhas
      have hwalk := Walk.leaf hhas hleaf
      rwa [hoffset, ← Nat.add_assoc] at hwalk
    · rename_i hleaf
      split at h
      · cases h
      rename_i hnext
      rcases ih h with ⟨hpos, hlow, further, access, hfurther, hsupervisor, hwalks⟩
      have habove := stays_above hlow
      cases level with
      | zero => cases h
      | succ level =>
      rw [show 2 ^ levelShift (level + 1) * 512 = 2 ^ levelShift (level + 2) from
        (Nat.pow_add 2 (levelShift (level + 1)) 9).symm] at habove
      refine ⟨hpos, habove, (entry &&& addressMask) :: further, _, by simp [Ne.symm hnext, hfurther],
        hsupervisor.trans (by rw [Bool.and_assoc]), fun d hd => ?_⟩
      rw [← (div_mod_of_stays (Nat.lt_of_lt_of_le (Nat.add_lt_add_left hd _) habove)).1] at hhas
      exact .table hhas (by simpa using hleaf) (hwalks d hd)

theorem Walk.resolves {further : List UInt64} {access : Bool}
    (h : Walk reader mask address level table further physical access) (hfurther : 0 ∉ further)
    (user : Bool) :
    ∃ mapping, resolveLoop reader mask address level table user = some mapping ∧
      mapping.physical = physical ∧ mapping.supervisor = !(user && access) := by
  induction h generalizing user with
  | leaf hentry hleaf =>
    obtain ⟨hread, hpresent, hvalid⟩ := hentry
    simp only [resolveLoop, hread, if_neg hpresent, hvalid, hleaf]
    exact ⟨_, rfl, rfl, rfl⟩
  | @table level physical table entry further access hentry hleaf hrest ih =>
    obtain ⟨hread, hpresent, hvalid⟩ := hentry
    rw [mem_cons, not_or] at hfurther
    rcases ih hfurther.2 (user && entry &&& userBit != 0) with ⟨mapping, hloop, hphysical, hsupervisor⟩
    simp only [resolveLoop, hread, if_neg hpresent, hvalid, hleaf, if_neg (Ne.symm hfurther.1)]
    exact ⟨mapping, hloop, hphysical, hsupervisor.trans (by rw [Bool.and_assoc])⟩

theorem readerRootValid_eq_some : readerRootValid reader root = some mask ↔
    (reader.Accepts root ∧ root ≠ 0) ∧ reader.physicalMask = mask := by
  have hbelow (h : root &&& ~~~reader.physicalMask = 0) : root &&& ~~~addressMask = 0 := by
    have hbits : ~~~addressMask = ~~~reader.physicalMask &&& ~~~addressMask := by
      unfold TableReader.physicalMask
      apply UInt64.toBitVec_inj.mp
      ext i
      simp only [UInt64.toBitVec_not, UInt64.toBitVec_and, BitVec.getElem_not, BitVec.getElem_and]
      grind
    rw [hbits, ← UInt64.and_assoc, h, UInt64.zero_and]
  rw [readerRootValid, TableReader.Accepts]
  split
  · rename_i hrefused
    simp only [reduceCtorEq, false_iff, not_and]
    rintro ⟨⟨hlow, hhigh, hroot⟩, hzero⟩
    rcases hrefused with h | h | h | h
    · omega
    · omega
    · exact absurd h hzero
    · exact absurd (hbelow hroot) h
  rename_i hchecked
  split
  · rename_i hrefused
    simp only [reduceCtorEq, false_iff, not_and]
    exact fun hroot => absurd hroot.1.2.2 hrefused
  · rename_i hroot
    simp only [Option.some.injEq, iff_and_self]
    exact fun _ => ⟨⟨by omega, by omega, not_not.mp hroot⟩, by tauto⟩

/-- The byte is mapped, and no table on the way is at physical address 0. -/
def Proved (reader : TableReader) (root : UInt64) (physical : Nat) : Prop :=
  ∃ further, DirectMapped reader root further physical ∧ 0 ∉ root :: further

theorem resolveMapping_direct
    (h : resolveMapping reader root (directMapBase + physical) = some mapping)
    (hsupervisor : mapping.supervisor = true) (hphysical : mapping.physical = physical) :
    reader.Accepts root ∧ 0 < mapping.remaining ∧
      ∀ d < mapping.remaining, Proved reader root (physical + d) := by
  rw [resolveMapping, if_pos (.inr (Nat.le_add_right ..))] at h
  split at h
  · cases h
  rename_i mask hmask
  obtain ⟨⟨haccepts, hroot⟩, rfl⟩ := readerRootValid_eq_some.mp hmask
  rcases resolveLoop_walks h with ⟨hpos, -, further, access, hfurther, haccess, hwalks⟩
  obtain rfl : access = false := by simpa [hsupervisor] using haccess.symm
  refine ⟨haccepts, hpos, fun d hd => ⟨further, ?_, by simp [Ne.symm hroot, hfurther]⟩⟩
  rw [DirectMapped, ← Nat.add_assoc, ← hphysical]
  exact hphysical ▸ hwalks d hd

theorem Proved.resolves (h : Proved reader root physical) (haccepts : reader.Accepts root) :
    ∃ mapping, resolveMapping reader root (directMapBase + physical) = some mapping ∧
      mapping.supervisor = true ∧ mapping.physical = physical := by
  obtain ⟨further, hwalk, hzero⟩ := h
  rw [mem_cons, not_or] at hzero
  rcases Walk.resolves hwalk hzero.2 true with ⟨mapping, hloop, hphysical, hsupervisor⟩
  refine ⟨mapping, ?_, hsupervisor, hphysical⟩
  rw [resolveMapping, if_pos (.inr (Nat.le_add_right ..)),
    readerRootValid_eq_some.mpr ⟨⟨haccepts, Ne.symm hzero.1⟩, rfl⟩]
  exact hloop

theorem verifySpan_iff {fuel bytes : Nat} (hfuel : bytes ≤ fuel) :
    verifySpan reader root fuel physical bytes = true ↔
      (bytes ≠ 0 → reader.Accepts root) ∧ ∀ d < bytes, Proved reader root (physical + d) := by
  induction fuel generalizing physical bytes with
  | zero =>
    obtain rfl := Nat.le_zero.mp hfuel
    simp [verifySpan]
  | succ fuel ih =>
    rw [verifySpan]
    split
    · rename_i hzero
      simp [hzero]
    constructor
    · intro h
      split at h
      · cases h
      rename_i mapping hmapping
      split at h
      · cases h
      rename_i hchecks
      simp only [Bool.not_eq_true', not_or, Bool.not_eq_false, not_not] at hchecks
      rcases resolveMapping_direct hmapping hchecks.1 hchecks.2 with ⟨haccepts, hpos, hhere⟩
      have hthere := ((ih (by omega)).mp h).2
      refine ⟨fun _ => haccepts, fun d hd => ?_⟩
      by_cases hstep : d < mapping.remaining
      · exact hhere d hstep
      · have hmore := hthere (d - min bytes mapping.remaining) (by omega)
        rwa [show physical + min bytes mapping.remaining + (d - min bytes mapping.remaining) =
          physical + d by omega] at hmore
    · rintro ⟨haccepts, h⟩
      rcases (h 0 (by omega)).resolves (haccepts ‹_›) with ⟨mapping, hmapping, hsupervisor, hphysical⟩
      have hpos := (resolveMapping_direct hmapping hsupervisor hphysical).2.1
      simp only [Nat.add_zero] at hmapping hphysical
      rw [hmapping]
      dsimp only
      rw [if_neg (by simp [hsupervisor, hphysical])]
      refine (ih (by omega)).mpr ⟨fun _ => haccepts ‹_›, fun d hd => ?_⟩
      rw [Nat.add_assoc]
      exact h _ (by omega)

end Direct

/-- The recorded tables, each with its level. -/
abbrev Workspace := List (UInt64 × Nat)

/-- The loop of `visit_table` over the entries; `none` stands for false. -/
def visitEntries (reader : TableReader) (mask table : UInt64) (level : Nat)
    (visit : UInt64 → Workspace → Option Workspace) : List Nat → Workspace → Option Workspace
  | [], workspace => some workspace
  | index :: rest, workspace =>
    match reader.readEntry table index with
    | none => none
    | some entry =>
      if entry &&& presentBit = 0 then visitEntries reader mask table level visit rest workspace
      else if !presentEntryValid reader mask level entry then none
      else if isLeaf level entry then visitEntries reader mask table level visit rest workspace
      else
        match visit (entry &&& addressMask) workspace with
        | none => none
        | some after => visitEntries reader mask table level visit rest after

/-- `visit_table`; an entry of level 1 is a leaf, so that level 0 is not reached. -/
def visitTable (reader : TableReader) (mask : UInt64) :
    (level : Nat) → UInt64 → Workspace → Option Workspace
  | 0, _, _ => none
  | level + 1, table, workspace =>
    if table = 0 ∨ table &&& ~~~mask ≠ 0 then none
    else
      match workspace.find? (·.1 == table) with
      | some found => if found.2 = level + 1 then some workspace else none
      | none =>
        if workspace.length = tableWorkspaceCapacity then none
        else visitEntries reader mask table (level + 1) (visitTable reader mask level)
          (List.range 512) (workspace ++ [(table, level + 1)])

section

variable (reader : TableReader) (root : UInt64)

def verifyTableClosure : Option Workspace :=
  match readerRootValid reader root with
  | none => none
  | some mask => visitTable reader mask 4 root []

/-- A present entry of a table that is no leaf leads to a table of the level below. -/
def LeadsAt (table : UInt64 × Nat) (index : Nat) (next : UInt64 × Nat) : Prop :=
  ∃ entry, reader.readEntry table.1 index = some entry ∧ entry &&& presentBit ≠ 0 ∧
    isLeaf table.2 entry = false ∧ next = (entry &&& addressMask, table.2 - 1)

def Leads (table next : UInt64 × Nat) : Prop :=
  ∃ index ∈ List.range 512, LeadsAt reader table index next

/-- The tables that the walks from the root can come to. -/
def Reachable : UInt64 × Nat → Prop := Relation.ReflTransGen (Leads reader) (root, 4)

end

/-- What a visit adds: tables that can be reached from `table`, with all that they lead to. -/
structure Grown (reader : TableReader) (table : UInt64 × Nat) (before after : Workspace) :
    Prop where
  kept : ∀ other ∈ before, other ∈ after
  reached : ∀ other ∈ after, other ∈ before ∨ Relation.ReflTransGen (Leads reader) table other
  closed : ∀ other ∈ after, other ∉ before → ∀ next, Leads reader other next → next ∈ after
  single : (before.map Prod.fst).Nodup → (after.map Prod.fst).Nodup

section Closure

variable {reader : TableReader} {mask : UInt64} {level : Nat} {table : UInt64}
  {workspace after : Workspace}

theorem Grown.refl (table : UInt64 × Nat) (workspace : Workspace) :
    Grown reader table workspace workspace :=
  ⟨fun _ => id, fun _ => .inl, fun _ hmem hnot => absurd hmem hnot, id⟩

theorem Grown.trans {table next : UInt64 × Nat} {first second third : Workspace}
    (h : Grown reader next first second) (hnext : Relation.ReflTransGen (Leads reader) table next)
    (h' : Grown reader table second third) : Grown reader table first third where
  kept other hmem := h'.kept other (h.kept other hmem)
  reached other hmem := by
    rcases h'.reached other hmem with hsecond | hreach
    · exact (h.reached other hsecond).imp_right hnext.trans
    · exact .inr hreach
  closed other hmem hnot following hleads := by
    by_cases hsecond : other ∈ second
    · exact h'.kept _ (h.closed other hsecond hnot following hleads)
    · exact h'.closed other hmem hsecond following hleads
  single hnodup := h'.single (h.single hnodup)

theorem visitEntries_grown {visit : UInt64 → Workspace → Option Workspace}
    (hvisit : ∀ {next workspace after}, visit next workspace = some after →
      Grown reader (next, level) workspace after ∧ (next, level) ∈ after)
    {indices : List Nat} (hindices : ∀ index ∈ indices, index ∈ List.range 512)
    (h : visitEntries reader mask table (level + 1) visit indices workspace = some after) :
    Grown reader (table, level + 1) workspace after ∧ ∀ index ∈ indices, ∀ next,
      LeadsAt reader (table, level + 1) index next → next ∈ after := by
  induction indices generalizing workspace with
  | nil =>
    cases h
    exact ⟨.refl _ _, by simp⟩
  | cons index rest ih =>
    rw [forall_mem_cons] at hindices
    rw [visitEntries] at h
    split at h
    · cases h
    rename_i entry hread
    -- The entry leads nowhere, or to a table that is recorded first.
    have hskip : (entry &&& presentBit ≠ 0 → isLeaf (level + 1) entry ≠ false) →
        visitEntries reader mask table (level + 1) visit rest workspace = some after →
        Grown reader (table, level + 1) workspace after ∧ ∀ i ∈ index :: rest, ∀ next,
          LeadsAt reader (table, level + 1) i next → next ∈ after := by
      intro hnone hrest
      rcases ih hindices.2 hrest with ⟨hgrown, hchildren⟩
      refine ⟨hgrown, forall_mem_cons.mpr ⟨fun next hleads => ?_, hchildren⟩⟩
      obtain ⟨other, hother, hpresent, hleaf, -⟩ := hleads
      cases hread.symm.trans hother
      exact absurd hleaf (hnone hpresent)
    split at h
    · rename_i habsent
      exact hskip (fun hpresent => absurd habsent hpresent) h
    rename_i hpresent
    split at h
    · cases h
    split at h
    · rename_i hleaf
      exact hskip (fun _ => by simp [hleaf]) h
    rename_i hleaf
    rw [Bool.not_eq_true] at hleaf
    split at h
    · cases h
    rename_i middle hmiddle
    rcases hvisit hmiddle with ⟨hgrown, hmem⟩
    rcases ih hindices.2 h with ⟨hrest, hchildren⟩
    have hleads : LeadsAt reader (table, level + 1) index (entry &&& addressMask, level) :=
      ⟨entry, hread, hpresent, hleaf, rfl⟩
    refine ⟨hgrown.trans (.single ⟨index, hindices.1, hleads⟩) hrest,
      forall_mem_cons.mpr ⟨fun next hnext => ?_, hchildren⟩⟩
    obtain ⟨other, hother, -, -, rfl⟩ := hnext
    cases hread.symm.trans hother
    exact hrest.kept _ hmem

theorem visitTable_grown (h : visitTable reader mask level table workspace = some after) :
    Grown reader (table, level) workspace after ∧ (table, level) ∈ after := by
  induction level generalizing table workspace after with
  | zero => cases h
  | succ level ih =>
    rw [visitTable] at h
    split at h
    · cases h
    split at h
    · rename_i found hfound
      split at h
      · rename_i hlevel
        cases h
        have hsame : found = (table, level + 1) :=
          Prod.ext (by simpa using List.find?_some hfound) hlevel
        exact ⟨.refl _ _, hsame ▸ mem_of_find?_eq_some hfound⟩
      · cases h
    rename_i hnew
    split at h
    · cases h
    rcases visitEntries_grown (fun hvisit => ih hvisit) (fun _ => id) h with ⟨hgrown, hchildren⟩
    have hmem : (table, level + 1) ∈ after := hgrown.kept _ (by simp)
    refine ⟨⟨fun other hother => hgrown.kept other (by simp [hother]), fun other hother => ?_,
      fun other hother hnot next hleads => ?_, fun hnodup => hgrown.single ?_⟩, hmem⟩
    · rcases hgrown.reached other hother with hold | hreach
      · rcases mem_append.mp hold with hold | hself
        · exact .inl hold
        · exact .inr (mem_singleton.mp hself ▸ .refl)
      · exact .inr hreach
    · by_cases hself : other = (table, level + 1)
      · obtain ⟨index, hindex, hnext⟩ := hleads
        exact hchildren index hindex next (hself ▸ hnext)
      · exact hgrown.closed other hother (by simp [hnot, hself]) next hleads
    · rw [map_append, map_singleton]
      refine nodup_append.mpr ⟨hnodup, nodup_singleton _, ?_⟩
      rintro first hfirst second hsecond rfl
      obtain ⟨old, hold, rfl⟩ := mem_map.mp hfirst
      exact List.find?_eq_none.mp hnew old hold (by simpa using hsecond)

theorem verifyTableClosure_exact {root : UInt64} {workspace : Workspace}
    (h : verifyTableClosure reader root = some workspace) :
    (∀ table, table ∈ workspace ↔ Reachable reader root table) ∧
      (workspace.map Prod.fst).Nodup := by
  rw [verifyTableClosure] at h
  split at h
  · cases h
  rcases visitTable_grown h with ⟨hgrown, hroot⟩
  refine ⟨fun table => ⟨fun hmem => ?_, fun hreach => ?_⟩, hgrown.single nodup_nil⟩
  · exact (hgrown.reached table hmem).resolve_left not_mem_nil
  · induction hreach with
    | refl => exact hroot
    | tail _ hleads hmem => exact hgrown.closed _ hmem not_mem_nil _ hleads

end Closure

/-- `verify_direct_span` says yes exactly for the spans of at least one byte, inside the direct map
and without address 0, of which every byte is mapped at its own address for the supervisor, from a
root that can be loaded and through tables that are not at address 0.
What `verify_table_closure` has recorded when it says yes are exactly the tables that can be
reached, so that none is reached on two levels. -/
theorem boot_translation_exact (reader : TableReader) (root : UInt64) :
    (∀ physical bytes : UInt64, verifyDirectSpan reader root physical bytes = true ↔
      0 < physical.toNat ∧ 0 < bytes.toNat ∧ physical.toNat + bytes.toNat ≤ directMapBytes ∧
        reader.Accepts root ∧
        ∀ p, physical.toNat ≤ p → p < physical.toNat + bytes.toNat →
          ∃ further, DirectMapped reader root further p ∧ 0 ∉ root :: further) ∧
    ∀ workspace, verifyTableClosure reader root = some workspace →
      (∀ table, table ∈ workspace ↔ Reachable reader root table) ∧
      (workspace.map Prod.fst).Nodup ∧
      ∀ table level level', Reachable reader root (table, level) →
        Reachable reader root (table, level') → level = level' := by
  refine ⟨fun physical bytes => ?_, fun workspace h => ?_⟩
  · have hphysical : physical = 0 ↔ physical.toNat = 0 := UInt64.toNat_inj.symm
    have hbytes : bytes = 0 ↔ bytes.toNat = 0 := UInt64.toNat_inj.symm
    rw [verifyDirectSpan]
    split
    · rename_i hrefused
      rw [hphysical, hbytes] at hrefused
      simp only [Bool.false_eq_true, false_iff]
      omega
    rename_i hchecked
    rw [hphysical, hbytes] at hchecked
    rw [verifySpan_iff (Nat.le_refl _)]
    constructor
    · intro h
      refine ⟨by omega, by omega, by omega, h.1 (by omega), fun p hfrom hto => ?_⟩
      have hbyte := h.2 (p - physical.toNat) (by omega)
      rwa [Nat.add_sub_cancel' hfrom] at hbyte
    · rintro ⟨-, -, -, haccepts, h⟩
      exact ⟨fun _ => haccepts, fun d hd => h _ (Nat.le_add_right ..) (Nat.add_lt_add_left hd _)⟩
  · rcases verifyTableClosure_exact h with ⟨hexact, hsingle⟩
    refine ⟨hexact, hsingle, fun table level level' hlevel hlevel' => ?_⟩
    exact congrArg Prod.snd (inj_on_of_nodup_map hsingle ((hexact _).mpr hlevel)
      ((hexact _).mpr hlevel') rfl)

/-- The first gigabyte of the direct map, below a root at 0x2000 and, through a table at 0, below
one at 0x1000. -/
def lowTables : TableReader where
  readEntry table index :=
    if table = 0x1000 then some 3 else if table = 0x2000 then some 0x3003
    else if index = 0 then some 0x83 else none
  physicalBits := 52
  nxEnabled := true
  gigabytePages := true

theorem lowTables_directMapped {root entry : UInt64} {p : Nat} (hp : p < 2 ^ 30)
    (hroot : ∀ index, lowTables.Has lowTables.physicalMask 4 root index entry)
    (hnext : lowTables.Has lowTables.physicalMask 3 (entry &&& addressMask) 0 0x83)
    (hleaf : isLeaf 4 entry = false) (huser : entry &&& userBit = 0) :
    DirectMapped lowTables root [entry &&& addressMask] p := by
  have hindex : (directMapBase + p) / 2 ^ levelShift 3 % 512 = 0 := by
    simp only [directMapBase, levelShift]
    omega
  have hoffset : (directMapBase + p) % 2 ^ levelShift 3 = p := by
    simp only [directMapBase, levelShift]
    omega
  have hlast := @Walk.leaf lowTables lowTables.physicalMask (directMapBase + p) 2
    (entry &&& addressMask) 0x83 (by rw [hindex]; exact hnext) (by decide)
  rw [hoffset, show ((0x83 : UInt64) &&& addressMask &&& ~~~lowMask 3).toNat = 0 by decide,
    Nat.zero_add] at hlast
  have hwalk := Walk.table (hroot _) hleaf hlast
  rwa [huser] at hwalk

/-- A span without a byte, a span with address 0 and a span below a table at address 0 are refused,
though every byte of them is mapped at its own address for the supervisor. -/
theorem verifyDirectSpan_refuses_zero :
    (verifyDirectSpan lowTables 0x2000 0x1000 0 = false ∧
      ∀ p, 0x1000 ≤ p → p < 0x1000 + 0 → DirectMapped lowTables 0x2000 [0x3000] p) ∧
    (verifyDirectSpan lowTables 0x2000 0 0x1000 = false ∧
      ∀ p < 0x1000, DirectMapped lowTables 0x2000 [0x3000] p) ∧
    (verifyDirectSpan lowTables 0x1000 0x1000 0x1000 = false ∧
      ∀ p, 0x1000 ≤ p → p < 0x2000 → DirectMapped lowTables 0x1000 [0] p) := by
  have hlow {p : Nat} (hp : p < 2 ^ 30) : DirectMapped lowTables 0x2000 [0x3000] p :=
    @lowTables_directMapped 0x2000 0x3003 p hp (fun index => ⟨rfl, by decide, by decide⟩)
      ⟨rfl, by decide, by decide⟩ (by decide) (by decide)
  have hzero {p : Nat} (hp : p < 2 ^ 30) : DirectMapped lowTables 0x1000 [0] p :=
    @lowTables_directMapped 0x1000 3 p hp (fun index => ⟨rfl, by decide, by decide⟩)
      ⟨rfl, by decide, by decide⟩ (by decide) (by decide)
  refine ⟨⟨by decide, fun p _ hto => hlow (by omega)⟩, ⟨by decide, fun p hto => hlow (by omega)⟩,
    ⟨by decide +kernel, fun p _ hto => hzero (by omega)⟩⟩

end OpenXJ380.Installer
