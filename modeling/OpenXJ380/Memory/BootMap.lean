/-
# The memory map of the firmware

`src/kernel/memory/boot_memory.cpp` reads the descriptors that the firmware hands over, refuses
a map whose regions overlap, and answers two questions about an accepted one: whether a span of
physical memory lies in regions of the permitted types, and where the frame bitmaps can go.

The descriptors are not sorted, so a span is followed region by region from its first page.
The regions are apart, so the region of a page is the only one; and each region ends behind
the page it was found for, so the walk comes to an end.
-/

import OpenXJ380.Data.LittleEndian

namespace OpenXJ380.Memory.Boot

open Data

def pageBytes : Nat := 4096
def descriptorPrefixBytes : Nat := 40
def maximumDescriptors : Nat := 16384
def conventionalMemory : Nat := 7
def minimumAllocatable : Nat := 0x100000
def uint64Max : Nat := 2 ^ 64 - 1

/-- The buffer: its address, its bytes by offset, and the sizes the firmware reported. -/
structure MapView where
  address : Nat
  bytes : Nat → UInt8
  bufferBytes : Nat
  mapBytes : Nat
  descriptorBytes : Nat

structure Descriptor where
  type : Nat
  physicalStart : Nat
  virtualStart : Nat
  pages : Nat
  attributes : Nat
deriving DecidableEq

structure Summary where
  descriptorCount : Nat
  totalBytes : Nat
  conventionalTop : Nat
  allocatablePages : Nat
deriving DecidableEq

inductive SpanPolicy
  | loaderDataOnly
  | loaderAndBootServices
deriving DecidableEq

structure PhysicalSpan where
  start : Nat
  stop : Nat
deriving DecidableEq

structure FrameBitmapLayout where
  bitmapBytes : Nat
  storageBytes : Nat
  first : Nat
  second : Nat
  reservedEnd : Nat
deriving DecidableEq

section

variable (map : MapView)

def structuralBounds : Bool :=
  if map.address = 0 ∨ map.descriptorBytes < descriptorPrefixBytes ∨ map.mapBytes = 0 ∨
      map.mapBytes > map.bufferBytes ∨ map.mapBytes % map.descriptorBytes ≠ 0 ∨
      map.mapBytes / map.descriptorBytes > maximumDescriptors then false
  else map.bufferBytes ≤ uint64Max ∧ map.address ≤ uint64Max - map.bufferBytes

def copyField (source width : Nat) : Nat :=
  decodeLE ((List.range width).map fun i => map.bytes (source + i))

def readDescriptor (index : Nat) : Option Descriptor :=
  let record := index * map.descriptorBytes
  let descriptor : Descriptor :=
    ⟨copyField map record 4, copyField map (record + 8) 8, copyField map (record + 16) 8,
      copyField map (record + 24) 8, copyField map (record + 32) 8⟩
  if descriptor.pages = 0 ∨ descriptor.physicalStart % pageBytes ≠ 0 ∨
      descriptor.virtualStart % pageBytes ≠ 0 ∨ descriptor.pages > uint64Max / pageBytes ∨
      descriptor.physicalStart > uint64Max - descriptor.pages * pageBytes then none
  else some descriptor

end

def regionEnd (descriptor : Descriptor) : Nat :=
  descriptor.physicalStart + descriptor.pages * pageBytes

def permitted (type : Nat) : SpanPolicy → Bool
  | .loaderDataOnly => type = 2
  | .loaderAndBootServices => type ≥ 1 ∧ type ≤ 4

/-- The inner loop of `validate_map`: the region against those of the indices. -/
def apartFrom (map : MapView) (descriptor : Descriptor) : List Nat → Bool
  | [] => true
  | previous :: rest =>
    match readDescriptor map previous with
    | none => false
    | some other =>
      if descriptor.physicalStart < regionEnd other ∧
          other.physicalStart < regionEnd descriptor then false
      else apartFrom map descriptor rest

/-- What one descriptor adds to the summary. -/
def Summary.add (summary : Summary) (descriptor : Descriptor) : Summary :=
  let counted := { summary with totalBytes := summary.totalBytes + descriptor.pages * pageBytes }
  if descriptor.type ≠ conventionalMemory then counted
  else
    { counted with
      conventionalTop :=
        if regionEnd descriptor > summary.conventionalTop then regionEnd descriptor
        else summary.conventionalTop
      allocatablePages :=
        if descriptor.physicalStart ≥ minimumAllocatable then
          summary.allocatablePages + descriptor.pages
        else summary.allocatablePages }

def validateLoop (map : MapView) : (remaining index : Nat) → Summary → Option Summary
  | 0, _, summary => some summary
  | remaining + 1, index, summary =>
    match readDescriptor map index with
    | none => none
    | some descriptor =>
      if summary.totalBytes > uint64Max - descriptor.pages * pageBytes then none
      else if apartFrom map descriptor (List.range index) then
        validateLoop map remaining (index + 1) (summary.add descriptor)
      else none

def validateMap (map : MapView) : Option Summary :=
  if structuralBounds map then
    let count := map.mapBytes / map.descriptorBytes
    validateLoop map count 0 ⟨count, 0, 0, 0⟩
  else none

/-- The loops of `covered_span` and `plan_frame_bitmaps` over the descriptors: the first
that meets the condition. The outer `none` is a descriptor that cannot be read. -/
def firstWhere (map : MapView) (condition : Descriptor → Bool) :
    List Nat → Option (Option Descriptor)
  | [] => some none
  | index :: rest =>
    match readDescriptor map index with
    | none => none
    | some descriptor =>
      if condition descriptor then some (some descriptor) else firstWhere map condition rest

def contains (current : Nat) (descriptor : Descriptor) : Bool :=
  ¬ (current < descriptor.physicalStart ∨ current ≥ regionEnd descriptor)

/-- The loop of `covered_span`; `none` if it is not done after `fuel` rounds. -/
def spanLoop (map : MapView) (count : Nat) (policy : SpanPolicy) (stop : Nat) :
    (fuel current : Nat) → Option Bool
  | fuel, current =>
    if current < stop then
      match fuel with
      | 0 => none
      | fuel + 1 =>
        match firstWhere map (contains current) (List.range count) with
        | some (some descriptor) =>
          if permitted descriptor.type policy then
            spanLoop map count policy stop fuel
              (if regionEnd descriptor < stop then regionEnd descriptor else stop)
          else some false
        | _ => some false
    else some true

/-- `x & ~(page_bytes - 1)` in 64 bits. -/
def pageFloor (x : Nat) : Nat := x &&& (2 ^ 64 - 1 - (pageBytes - 1))

/-- `covered_span`; the outer `none` stands for a loop that is not done. -/
def coveredSpan (fuel : Nat) (map : MapView) (physical bytes : UInt64) (policy : SpanPolicy) :
    Option (Option PhysicalSpan) :=
  match validateMap map with
  | none => some none
  | some summary =>
    if bytes = 0 ∨ physical.toNat > uint64Max - bytes.toNat then some none
    else if physical.toNat + bytes.toNat > uint64Max - (pageBytes - 1) then some none
    else
      let stop := pageFloor (physical.toNat + bytes.toNat + pageBytes - 1)
      let start := pageFloor physical.toNat
      match spanLoop map summary.descriptorCount policy stop fuel start with
      | none => none
      | some true => some (some ⟨start, stop⟩)
      | some false => some none

def planFrameBitmaps (map : MapView) : Option FrameBitmapLayout :=
  match validateMap map with
  | none => none
  | some summary =>
    if summary.conventionalTop = 0 then none
    else
      let frames := summary.conventionalTop / pageBytes
      let bitmapBytes := (frames + 7) / 8
      if bitmapBytes > uint64Max - (pageBytes - 1) then none
      else
        let storageBytes := pageFloor (bitmapBytes + pageBytes - 1)
        if storageBytes > uint64Max / 2 then none
        else
          match firstWhere map (fun descriptor =>
              descriptor.type = conventionalMemory ∧ descriptor.physicalStart ≥ minimumAllocatable ∧
                descriptor.pages * pageBytes ≥ storageBytes * 2)
              (List.range summary.descriptorCount) with
          | some (some descriptor) =>
            some ⟨bitmapBytes, storageBytes, descriptor.physicalStart,
              descriptor.physicalStart + storageBytes,
              descriptor.physicalStart + storageBytes + storageBytes⟩
          | _ => none

/-- The first `count` descriptors as the checks leave them. -/
structure Checked (map : MapView) (count top : Nat) : Prop where
  readable : ∀ i < count, ∃ d, readDescriptor map i = some d
  apart : ∀ i j, i < j → j < count → ∀ d e, readDescriptor map i = some d →
    readDescriptor map j = some e →
    ¬ (e.physicalStart < regionEnd d ∧ d.physicalStart < regionEnd e)
  top : ∀ i < count, ∀ d, readDescriptor map i = some d → d.type = conventionalMemory →
    regionEnd d ≤ top

variable {map : MapView} {d : Descriptor} {indices : List Nat} {summary : Summary}
  {index count top i : Nat} {condition : Descriptor → Bool}

theorem readDescriptor_aligned (h : readDescriptor map index = some d) :
    pageBytes ∣ d.physicalStart ∧ pageBytes ∣ regionEnd d ∧ regionEnd d ≤ uint64Max := by
  rw [readDescriptor] at h
  split at h
  · cases h
  rename_i hchecks
  cases h
  simp only [not_or, not_not, not_lt] at hchecks
  obtain ⟨-, hstart, -, hpages, hend⟩ := hchecks
  have hdvd := Nat.dvd_of_mod_eq_zero hstart
  have hbytes := (Nat.le_div_iff_mul_le (by decide : 0 < pageBytes)).mp hpages
  refine ⟨hdvd, (Nat.dvd_add_right hdvd).mpr (Nat.dvd_mul_left ..), ?_⟩
  simp only [regionEnd]
  omega

theorem apartFrom_spec (h : apartFrom map d indices = true) :
    ∀ j ∈ indices, ∀ e, readDescriptor map j = some e →
      ¬ (d.physicalStart < regionEnd e ∧ e.physicalStart < regionEnd d) := by
  induction indices with
  | nil => simp
  | cons previous rest ih =>
    rw [apartFrom] at h
    split at h
    · cases h
    rename_i other hother
    split at h
    · cases h
    rename_i hapart
    intro j hj e he
    rcases List.mem_cons.mp hj with rfl | hj
    · cases hother.symm.trans he
      exact hapart
    · exact ih h j hj e he

theorem Summary.le_add_top (summary : Summary) (d : Descriptor) :
    summary.conventionalTop ≤ (summary.add d).conventionalTop ∧
      (d.type = conventionalMemory → regionEnd d ≤ (summary.add d).conventionalTop) ∧
      (summary.add d).descriptorCount = summary.descriptorCount := by
  rw [add]
  split
  · rename_i hother
    exact ⟨le_rfl, fun htype => absurd htype hother, rfl⟩
  · dsimp only
    split
    · exact ⟨by omega, fun _ => le_rfl, rfl⟩
    · exact ⟨le_rfl, fun _ => by omega, rfl⟩

theorem validateLoop_checked {remaining : Nat} {result : Summary}
    (h : validateLoop map remaining index summary = some result)
    (hchecked : Checked map index summary.conventionalTop) :
    Checked map (index + remaining) result.conventionalTop ∧
      result.descriptorCount = summary.descriptorCount := by
  induction remaining generalizing index summary with
  | zero =>
    cases h
    exact ⟨hchecked, rfl⟩
  | succ remaining ih =>
    rw [validateLoop] at h
    split at h
    · cases h
    rename_i descriptor hread
    split at h
    · cases h
    split at h
    · rename_i hapart
      obtain ⟨hle, htop, hcount⟩ := summary.le_add_top descriptor
      have hnext : Checked map (index + 1) (summary.add descriptor).conventionalTop := by
        refine ⟨fun i hi => ?_, fun i j hij hj d e hd he => ?_, fun i hi d hd htype => ?_⟩
        · rcases Nat.lt_succ_iff_lt_or_eq.mp hi with hi | rfl
          · exact hchecked.readable i hi
          · exact ⟨descriptor, hread⟩
        · rcases Nat.lt_succ_iff_lt_or_eq.mp hj with hj | rfl
          · exact hchecked.apart i j hij hj d e hd he
          · cases hread.symm.trans he
            exact apartFrom_spec hapart i (List.mem_range.mpr hij) d hd
        · rcases Nat.lt_succ_iff_lt_or_eq.mp hi with hi | rfl
          · exact Nat.le_trans (hchecked.top i hi d hd htype) hle
          · cases hread.symm.trans hd
            exact htop htype
      obtain ⟨hdone, hsame⟩ := ih h hnext
      refine ⟨?_, hsame.trans hcount⟩
      rwa [Nat.add_right_comm] at hdone
    · cases h

theorem validateMap_checked (h : validateMap map = some summary) :
    Checked map summary.descriptorCount summary.conventionalTop := by
  rw [validateMap] at h
  split at h
  · obtain ⟨hchecked, hcount⟩ := validateLoop_checked h ⟨by simp, by simp, by simp⟩
    rw [hcount]
    simpa using hchecked
  · cases h

theorem Checked.unique {j address : Nat} {e : Descriptor} (h : Checked map count top)
    (hi : i < count) (hj : j < count) (hd : readDescriptor map i = some d)
    (he : readDescriptor map j = some e) (hin : contains address d = true)
    (hin' : contains address e = true) : d = e := by
  simp only [contains, decide_eq_true_eq] at hin hin'
  rcases Nat.lt_trichotomy i j with hlt | rfl | hgt
  · exact absurd ⟨by omega, by omega⟩ (h.apart i j hlt hj d e hd he)
  · exact Option.some.inj (hd.symm.trans he)
  · exact absurd ⟨by omega, by omega⟩ (h.apart j i hgt hi e d he hd)

theorem firstWhere_some (h : firstWhere map condition indices = some (some d)) :
    (∃ i ∈ indices, readDescriptor map i = some d) ∧ condition d = true := by
  induction indices with
  | nil => cases h
  | cons index rest ih =>
    rw [firstWhere] at h
    split at h
    · cases h
    rename_i descriptor hread
    split at h
    · rename_i hmeets
      cases h
      exact ⟨⟨index, List.mem_cons_self, hread⟩, hmeets⟩
    · obtain ⟨⟨i, hi, hd⟩, hmeets⟩ := ih h
      exact ⟨⟨i, List.mem_cons_of_mem _ hi, hd⟩, hmeets⟩

/-- Where all can be read, one that meets the condition is not missed. -/
theorem firstWhere_found (hread : ∀ i ∈ indices, ∃ d, readDescriptor map i = some d)
    (hi : i ∈ indices) (hd : readDescriptor map i = some d) (hmeets : condition d = true) :
    ∃ e, firstWhere map condition indices = some (some e) := by
  induction indices with
  | nil => cases hi
  | cons index rest ih =>
    obtain ⟨first, hfirst⟩ := hread index List.mem_cons_self
    rw [firstWhere, hfirst]
    dsimp only
    split
    · exact ⟨first, rfl⟩
    · rename_i hnot
      rcases List.mem_cons.mp hi with rfl | hi
      · cases hfirst.symm.trans hd
        exact absurd hmeets hnot
      · exact ih (fun j hj => hread j (List.mem_cons_of_mem _ hj)) hi

/-- The page lies in a region of a permitted type. -/
def PagePermitted (map : MapView) (count : Nat) (policy : SpanPolicy) (page : Nat) : Prop :=
  ∃ i < count, ∃ d, readDescriptor map i = some d ∧ permitted d.type policy = true ∧
    d.physicalStart ≤ page * pageBytes ∧ page * pageBytes + pageBytes ≤ regionEnd d

/-- A region that holds the first byte of a page holds the page. -/
theorem page_within {page stop : Nat} (hstop : pageBytes ∣ stop) (h : page * pageBytes < stop) :
    page * pageBytes + pageBytes ≤ stop := by
  obtain ⟨k, rfl⟩ := hstop
  rw [Nat.mul_comm] at h ⊢
  have hlt := Nat.lt_of_mul_lt_mul_left h
  calc pageBytes * page + pageBytes = pageBytes * (page + 1) := (Nat.mul_succ ..).symm
    _ ≤ pageBytes * k := Nat.mul_le_mul_left _ hlt

/-- The loop ends, and says yes for the pages from `current` on that are all permitted. -/
theorem spanLoop_spec (hchecked : Checked map count top) (policy : SpanPolicy) (stop : Nat)
    (hstop : pageBytes ∣ stop) (fuel current : Nat) (hcurrent : pageBytes ∣ current)
    (hfuel : stop - current ≤ fuel) :
    ∃ answer, spanLoop map count policy stop fuel current = some answer ∧
      (answer = true ↔ ∀ page, current ≤ page * pageBytes → page * pageBytes < stop →
        PagePermitted map count policy page) := by
  induction fuel generalizing current with
  | zero =>
    refine ⟨true, ?_, by simp only [true_iff]; intro page; omega⟩
    rw [spanLoop, if_neg (by omega)]
  | succ fuel ih =>
    rw [spanLoop]
    split
    case isFalse hdone => exact ⟨true, rfl, by simp only [true_iff]; intro page; omega⟩
    rename_i hless
    obtain ⟨page, rfl⟩ := hcurrent
    rw [Nat.mul_comm] at *
    -- The region of the current page, if it is permitted, is the one found.
    have hfound : PagePermitted map count policy page → ∃ d,
        firstWhere map (contains (page * pageBytes)) (List.range count) = some (some d) ∧
          permitted d.type policy = true := by
      rintro ⟨i, hi, d, hd, htype, hfrom, hto⟩
      have hpos : 0 < pageBytes := by decide
      have hin : contains (page * pageBytes) d = true := by
        simp only [contains, decide_eq_true_eq]
        omega
      obtain ⟨e, he⟩ := firstWhere_found
        (fun j hj => hchecked.readable j (List.mem_range.mp hj)) (List.mem_range.mpr hi) hd hin
      obtain ⟨⟨j, hj, hread⟩, hin'⟩ := firstWhere_some he
      have hsame := hchecked.unique hi (List.mem_range.mp hj) hd hread hin hin'
      exact ⟨e, he, hsame ▸ htype⟩
    have hrefuse : (¬ ∃ d, firstWhere map (contains (page * pageBytes)) (List.range count) =
        some (some d) ∧ permitted d.type policy = true) →
        (false = true ↔ ∀ other, page * pageBytes ≤ other * pageBytes →
          other * pageBytes < stop → PagePermitted map count policy other) := by
      intro hnone
      simp only [Bool.false_eq_true, false_iff]
      exact fun hall => hnone (hfound (hall page le_rfl hless))
    split
    · rename_i descriptor hfirst
      obtain ⟨⟨i, hi, hread⟩, hin⟩ := firstWhere_some hfirst
      simp only [contains, decide_eq_true_eq] at hin
      obtain ⟨-, hend, -⟩ := readDescriptor_aligned hread
      split
      · rename_i htype
        obtain ⟨answer, hanswer, hiff⟩ := ih
          (if regionEnd descriptor < stop then regionEnd descriptor else stop)
          (by split <;> assumption) (by split <;> omega)
        refine ⟨answer, hanswer, hiff.trans ⟨fun hall other hfrom hto => ?_,
          fun hall other hfrom hto => hall other (by split at hfrom <;> omega) hto⟩⟩
        by_cases hinside : other * pageBytes < regionEnd descriptor
        · exact ⟨i, List.mem_range.mp hi, descriptor, hread, htype, by omega,
            page_within hend hinside⟩
        · exact hall other (by split <;> omega) hto
      · rename_i htype
        refine ⟨false, rfl, hrefuse ?_⟩
        rintro ⟨d, hd, hpermitted⟩
        cases hfirst.symm.trans hd
        exact htype hpermitted
    · rename_i hnone
      exact ⟨false, rfl, hrefuse fun ⟨d, hd, _⟩ => hnone d hd⟩

theorem pageFloor_eq {x : Nat} (hx : x < 2 ^ 64) : pageFloor x = x / pageBytes * pageBytes :=
  and_high_bits (k := 12) hx (by decide)

/-- The page-rounded span of the bytes, before any wrap. -/
def spanStart (physical : UInt64) : Nat := physical.toNat / pageBytes * pageBytes

def spanStop (physical bytes : UInt64) : Nat :=
  (physical.toNat + bytes.toNat + pageBytes - 1) / pageBytes * pageBytes

/-- The rounded span does not wrap, and all its pages are in permitted regions. -/
def SpanPermitted (map : MapView) (count : Nat) (physical bytes : UInt64) (policy : SpanPolicy) :
    Prop :=
  spanStop physical bytes < 2 ^ 64 ∧ ∀ page, spanStart physical ≤ page * pageBytes →
    page * pageBytes < spanStop physical bytes → PagePermitted map count policy page

theorem coveredSpan_spec (hvalid : validateMap map = some summary) (physical bytes : UInt64)
    (policy : SpanPolicy) (fuel : Nat) (hbytes : bytes ≠ 0)
    (hfuel : spanStop physical bytes - spanStart physical ≤ fuel) :
    ∃ answer, coveredSpan fuel map physical bytes policy = some answer ∧
      (answer.isSome ↔ SpanPermitted map summary.descriptorCount physical bytes policy) ∧
      ∀ span, answer = some span → span = ⟨spanStart physical, spanStop physical bytes⟩ := by
  have hphysical := physical.toNat_lt
  rw [coveredSpan, hvalid]
  dsimp only
  by_cases hwrap : spanStop physical bytes < 2 ^ 64
  · have hfits : physical.toNat + bytes.toNat ≤ uint64Max - (pageBytes - 1) := by
      simp only [spanStop, pageBytes, uint64Max] at hwrap ⊢
      omega
    have hsum : physical.toNat + bytes.toNat + pageBytes - 1 < 2 ^ 64 := by
      simp only [uint64Max, pageBytes] at hfits ⊢
      omega
    have hstop : pageFloor (physical.toNat + bytes.toNat + pageBytes - 1) =
      spanStop physical bytes := pageFloor_eq hsum
    have hstart : pageFloor physical.toNat = spanStart physical := pageFloor_eq hphysical
    rw [if_neg (not_or.mpr ⟨hbytes, by omega⟩), if_neg (by omega), hstop, hstart]
    obtain ⟨answer, hanswer, hiff⟩ := spanLoop_spec (validateMap_checked hvalid) policy
      (spanStop physical bytes) (Nat.dvd_mul_left ..) fuel (spanStart physical)
      (Nat.dvd_mul_left ..) hfuel
    rw [hanswer]
    cases answer with
    | true =>
      refine ⟨some _, rfl, ⟨fun _ => ⟨hwrap, hiff.mp rfl⟩, fun _ => rfl⟩, fun span hspan => ?_⟩
      exact (Option.some.inj hspan).symm
    | false =>
      exact ⟨none, rfl,
        ⟨fun hsome => (by cases hsome), fun hall => absurd (hiff.mpr hall.2) (by simp)⟩,
        fun span hspan => by cases hspan⟩
  · refine ⟨none, ?_, ⟨fun hsome => (by cases hsome), fun hall => absurd hall.1 hwrap⟩,
      fun span hspan => by cases hspan⟩
    split
    · rfl
    rename_i hchecks
    rw [if_pos]
    simp only [spanStop, pageBytes, uint64Max] at hwrap hchecks ⊢
    omega

/-- Both bitmaps are in one conventional region from 1 MiB on, one behind the other, and have a
bit for each page up to the end of every conventional region. -/
structure BitmapsFit (map : MapView) (count : Nat) (layout : FrameBitmapLayout) : Prop where
  inside : ∃ i < count, ∃ d, readDescriptor map i = some d ∧
    d.type = conventionalMemory ∧ minimumAllocatable ≤ d.physicalStart ∧
    d.physicalStart ≤ layout.first ∧ layout.first + layout.storageBytes ≤ layout.second ∧
    layout.second + layout.storageBytes ≤ regionEnd d
  stored : layout.bitmapBytes ≤ layout.storageBytes
  enough : ∀ i < count, ∀ d, readDescriptor map i = some d →
    d.type = conventionalMemory → regionEnd d ≤ 8 * layout.bitmapBytes * pageBytes

theorem planFrameBitmaps_spec (hvalid : validateMap map = some summary)
    (layout : FrameBitmapLayout) (h : planFrameBitmaps map = some layout) :
    BitmapsFit map summary.descriptorCount layout := by
  have hchecked := validateMap_checked hvalid
  rw [planFrameBitmaps, hvalid] at h
  dsimp only at h
  split at h
  · cases h
  split at h
  · cases h
  rename_i hbitmap
  split at h
  · cases h
  split at h
  case h_2 => cases h
  rename_i descriptor hfirst
  cases h
  obtain ⟨⟨i, hi, hread⟩, hmeets⟩ := firstWhere_some hfirst
  simp only [decide_eq_true_eq] at hmeets
  obtain ⟨htype, hlow, hroom⟩ := hmeets
  refine ⟨⟨i, List.mem_range.mp hi, descriptor, hread, htype, hlow, le_rfl,
    le_rfl, ?_⟩, ?_, fun j hj d hd hconventional => ?_⟩
  · simp only [regionEnd]
    omega
  · have hsum : (summary.conventionalTop / pageBytes + 7) / 8 + pageBytes - 1 < 2 ^ 64 := by
      simp only [uint64Max, pageBytes] at hbitmap ⊢
      omega
    rw [pageFloor_eq hsum]
    simp only [pageBytes]
    omega
  · -- A region ends on a page, so the pages up to the top have a bit each.
    have htop := hchecked.top j hj d hd hconventional
    obtain ⟨-, ⟨k, hk⟩, -⟩ := readDescriptor_aligned hd
    simp only [pageBytes] at hk ⊢
    omega

/-- For an accepted map and a span of at least one byte, `covered_span` ends and says yes exactly
if the rounded span does not wrap and each of its pages is in a permitted region; and the
bitmaps of a plan are two ranges of one conventional region from 1 MiB on, each with a bit for
every page up to the top of conventional memory. -/
theorem bootMap_exact (map : MapView) (summary : Summary)
    (hvalid : validateMap map = some summary) :
    (∀ (physical bytes : UInt64) (policy : SpanPolicy) (fuel : Nat), bytes ≠ 0 →
      spanStop physical bytes - spanStart physical ≤ fuel →
      ∃ answer, coveredSpan fuel map physical bytes policy = some answer ∧
        (answer.isSome ↔ SpanPermitted map summary.descriptorCount physical bytes policy) ∧
        ∀ span, answer = some span → span = ⟨spanStart physical, spanStop physical bytes⟩) ∧
    ∀ layout, planFrameBitmaps map = some layout → BitmapsFit map summary.descriptorCount layout :=
  ⟨coveredSpan_spec hvalid, planFrameBitmaps_spec hvalid⟩

/-- Two pages of loader data at 1 MiB, after four conventional pages at 2 MiB. -/
def smallMap : MapView where
  address := 0x1000
  bytes := fun offset =>
    if offset = 0 then 7 else if offset = 10 then 0x20 else if offset = 24 then 4
    else if offset = 40 then 2 else if offset = 50 then 0x10 else if offset = 64 then 2 else 0
  bufferBytes := 80
  mapBytes := 80
  descriptorBytes := 40

theorem bootMap_exact_small : validateMap smallMap = some ⟨2, 0x6000, 0x204000, 4⟩ ∧
    coveredSpan 8192 smallMap 0x100800 0x1000 .loaderDataOnly = some (some ⟨0x100000, 0x102000⟩) ∧
    planFrameBitmaps smallMap = some ⟨65, 4096, 0x200000, 0x201000, 0x202000⟩ ∧
    65 ≤ 4096 :=
  have hvalid : validateMap smallMap = some ⟨2, 0x6000, 0x204000, 4⟩ := by decide +kernel
  have hplan : planFrameBitmaps smallMap = some ⟨65, 4096, 0x200000, 0x201000, 0x202000⟩ := by
    decide +kernel
  ⟨hvalid, by decide +kernel, hplan, ((bootMap_exact smallMap _ hvalid).2 _ hplan).stored⟩

/-- No byte at an address inside the loader data: the rounded span is one permitted page, and
`covered_span` says no. -/
theorem coveredSpan_refuses_empty : validateMap smallMap = some ⟨2, 0x6000, 0x204000, 4⟩ ∧
    (∀ fuel, coveredSpan fuel smallMap 0x100800 0 .loaderDataOnly = some none) ∧
    SpanPermitted smallMap 2 0x100800 0 .loaderDataOnly := by
  have hvalid : validateMap smallMap = some ⟨2, 0x6000, 0x204000, 4⟩ := by decide +kernel
  refine ⟨hvalid, fun fuel => ?_, by decide, fun page hfrom hto => ?_⟩
  · rw [coveredSpan, hvalid]
    exact if_pos (Or.inl rfl)
  · refine ⟨1, by decide, ⟨2, 0x100000, 0, 2, 0⟩, by decide +kernel, by decide, ?_, ?_⟩
    · exact hfrom
    · have hend : page * pageBytes < 0x101000 := hto
      simp only [regionEnd, pageBytes] at hend ⊢
      omega

end OpenXJ380.Memory.Boot
