/-
# Spans of a power of two

A span of level `k` is a run of `2 ^ k` numbers that starts at a multiple of `2 ^ k`.
Two neighbours that share a span of the next level are buddies; flipping one bit of the
start leads from one to the other. A family of spans is tiled when its members are
disjoint and no two of them below a top level are buddies.
-/

import Mathlib

namespace OpenXJ380.Data

variable {level start number top : ℕ}

/-- The numbers of the span of a level at a start. -/
def span (level start : ℕ) : Finset ℕ := Finset.Ico start (start + 2 ^ level)

theorem mem_span : number ∈ span level start ↔ start ≤ number ∧ number < start + 2 ^ level := by
  rw [span, Finset.mem_Ico]

@[simp]
theorem card_span (level start : ℕ) : (span level start).card = 2 ^ level := by
  simp [span]

theorem start_mem_span (level start : ℕ) : start ∈ span level start :=
  mem_span.mpr ⟨le_rfl, Nat.lt_add_of_pos_right (Nat.two_pow_pos level)⟩

/-- The lower and the upper half of a span. -/
theorem mem_span_succ : number ∈ span (level + 1) start ↔
      number ∈ span level start ∨ number ∈ span level (start + 2 ^ level) := by
  rw [mem_span, mem_span, mem_span, pow_succ]
  omega

/-- A span begins with the spans of lower levels at its start. -/
theorem span_mono (level more start : ℕ) : span level start ⊆ span (level + more) start := by
  intro number inside
  have wider : 2 ^ level ≤ 2 ^ (level + more) :=
    Nat.pow_le_pow_right (by decide) (Nat.le_add_right _ _)
  rw [mem_span] at inside ⊢
  omega

/-- A span that starts below a power of two, and not at zero, ends there at the latest. -/
theorem span_end_le (bound : ℕ) (aligned : 2 ^ level ∣ start) (positive : 0 < start)
    (below : start < 2 ^ bound) : start + 2 ^ level ≤ 2 ^ bound := by
  have wide := Nat.le_of_dvd positive aligned
  have finer : level ≤ bound := ((Nat.pow_lt_pow_iff_right (by decide)).mp (wide.trans_lt below)).le
  obtain ⟨index, rfl⟩ := aligned
  obtain ⟨more, rfl⟩ := Nat.exists_eq_add_of_le finer
  rw [pow_add] at below ⊢
  have next := Nat.mul_le_mul_left (2 ^ level) (Nat.lt_of_mul_lt_mul_left below)
  rwa [Nat.succ_eq_add_one, Nat.mul_add, Nat.mul_one] at next

/-- The span with which a span makes one of the next level. -/
def buddy (level start : ℕ) : ℕ := start ^^^ 2 ^ level

/-- A buddy is the next span or the one before, and the lower of the two is aligned to
the next level. -/
theorem buddy_cases (aligned : 2 ^ level ∣ start) :
    2 ^ (level + 1) ∣ start ∧ buddy level start = start + 2 ^ level ∨
      2 ^ (level + 1) ∣ buddy level start ∧ buddy level start + 2 ^ level = start := by
  obtain ⟨index, rfl⟩ := aligned
  have flipped : buddy level (2 ^ level * index) = 2 ^ level * (index ^^^ 1) := by
    have shifted := Nat.shiftLeft_xor_distrib (i := level) (a := index) (b := 1)
    simp only [Nat.shiftLeft_eq, one_mul] at shifted
    rw [buddy, mul_comm, ← shifted, mul_comm]
  rcases Nat.even_or_odd index with even | odd
  · left
    rw [flipped, Nat.xor_one_of_even even]
    obtain ⟨half, rfl⟩ := even
    exact ⟨⟨half, by ring⟩, by ring⟩
  · right
    rw [flipped, Nat.xor_one_of_odd odd]
    obtain ⟨half, rfl⟩ := odd
    rw [Nat.add_sub_cancel]
    exact ⟨⟨half, by ring⟩, by ring⟩

theorem buddy_buddy (level start : ℕ) : buddy level (buddy level start) = start := by
  rw [buddy, buddy, Nat.xor_assoc, Nat.xor_self, Nat.xor_zero]

theorem buddy_ne (aligned : 2 ^ level ∣ start) : buddy level start ≠ start := by
  rcases buddy_cases aligned with ⟨-, up⟩ | ⟨-, down⟩ <;> omega

theorem buddy_upper (aligned : 2 ^ (level + 1) ∣ start) :
    buddy level (start + 2 ^ level) = start := by
  have finer : 2 ^ level ∣ start := (pow_dvd_pow 2 (Nat.le_succ level)).trans aligned
  rcases buddy_cases finer with ⟨-, up⟩ | ⟨there, down⟩
  · rw [← up, buddy_buddy]
  -- two starts half a span apart cannot both be aligned
  have half : 2 ^ (level + 1) ∣ 2 ^ level := (Nat.dvd_add_right there).mp (by rwa [down])
  have short := Nat.le_of_dvd (Nat.two_pow_pos level) half
  omega

/-- Two buddies make the span of the next level at the lower of the two. -/
theorem mem_span_merge (aligned : 2 ^ level ∣ start) :
    number ∈ span (level + 1) (min start (buddy level start)) ↔
      number ∈ span level start ∨ number ∈ span level (buddy level start) := by
  rw [mem_span_succ]
  rcases buddy_cases aligned with ⟨-, up⟩ | ⟨-, down⟩
  · rw [up, min_eq_left (Nat.le_add_right _ _)]
  · rw [min_eq_right (by omega), down, or_comm]

theorem merge_aligned (aligned : 2 ^ level ∣ start) :
    2 ^ (level + 1) ∣ min start (buddy level start) := by
  rcases buddy_cases aligned with ⟨here, up⟩ | ⟨there, down⟩
  · rwa [up, min_eq_left (Nat.le_add_right _ _)]
  · rwa [min_eq_right (by omega)]

variable {spans : ℕ → List ℕ}

/-- A number is in some span of the family. -/
def Covered (spans : ℕ → List ℕ) (number : ℕ) : Prop :=
  ∃ level start, start ∈ spans level ∧ number ∈ span level start

/-- Disjoint aligned spans, with all buddies below the top level merged. -/
structure Tiled (top : ℕ) (spans : ℕ → List ℕ) : Prop where
  aligned : ∀ {level start}, start ∈ spans level → 2 ^ level ∣ start
  nodup : ∀ level, (spans level).Nodup
  apart : ∀ {level start other second number}, start ∈ spans level → second ∈ spans other →
    number ∈ span level start → number ∈ span other second → level = other ∧ start = second
  merged : ∀ {level start}, level < top → start ∈ spans level → buddy level start ∉ spans level

/-- The family with one more span. -/
def insertSpan (spans : ℕ → List ℕ) (level start : ℕ) : ℕ → List ℕ :=
  Function.update spans level (start :: spans level)

/-- The family with one span less. -/
def eraseSpan (spans : ℕ → List ℕ) (level start : ℕ) : ℕ → List ℕ :=
  Function.update spans level ((spans level).erase start)

theorem mem_insertSpan {other second : ℕ} : second ∈ insertSpan spans level start other ↔
      other = level ∧ second = start ∨ second ∈ spans other := by
  by_cases same : other = level
  · subst same
    simp [insertSpan]
  · simp [insertSpan, same]

theorem covered_insertSpan : Covered (insertSpan spans level start) number ↔
      number ∈ span level start ∨ Covered spans number := by
  constructor
  · rintro ⟨other, second, member, inside⟩
    rcases mem_insertSpan.mp member with ⟨rfl, rfl⟩ | old
    · exact .inl inside
    · exact .inr ⟨other, second, old, inside⟩
  · rintro (inside | ⟨other, second, member, inside⟩)
    · exact ⟨level, start, mem_insertSpan.mpr (.inl ⟨rfl, rfl⟩), inside⟩
    · exact ⟨other, second, mem_insertSpan.mpr (.inr member), inside⟩

namespace Tiled

theorem empty (top : ℕ) : Tiled top fun _ => [] := by
  constructor <;> simp

variable (tiled : Tiled top spans)
include tiled

/-- A span that covers nothing new twice and has no buddy in the family joins it. -/
theorem insert (aligned : 2 ^ level ∣ start)
    (fresh : ∀ number ∈ span level start, ¬Covered spans number)
    (alone : level < top → buddy level start ∉ spans level) :
    Tiled top (insertSpan spans level start) := by
  have new : ∀ {other second}, second ∈ spans other → ∀ number ∈ span level start,
      number ∉ span other second :=
    fun member number here there => fresh number here ⟨_, _, member, there⟩
  refine ⟨fun member => ?_, fun other => ?_, fun first second here there => ?_,
    fun below member partner => ?_⟩
  · rcases mem_insertSpan.mp member with ⟨rfl, rfl⟩ | old
    · exact aligned
    · exact tiled.aligned old
  · by_cases same : other = level
    · subst same
      have outside : start ∉ spans other := fun member =>
        new member start (start_mem_span _ _) (start_mem_span _ _)
      simpa [insertSpan] using ⟨outside, tiled.nodup other⟩
    · simpa [insertSpan, same] using tiled.nodup other
  · rcases mem_insertSpan.mp first with ⟨rfl, rfl⟩ | old <;>
      rcases mem_insertSpan.mp second with ⟨rfl, rfl⟩ | older
    · exact ⟨rfl, rfl⟩
    · exact absurd there (new older _ here)
    · exact absurd here (new old _ there)
    · exact tiled.apart old older here there
  · rcases mem_insertSpan.mp member with ⟨rfl, rfl⟩ | old <;>
      rcases mem_insertSpan.mp partner with ⟨same, eq⟩ | older
    · exact absurd eq (buddy_ne aligned)
    · exact alone below older
    · subst same
      refine alone below ?_
      rwa [← eq, buddy_buddy]
    · exact tiled.merged below old older

theorem mem_eraseSpan {other second : ℕ} : second ∈ eraseSpan spans level start other ↔
      second ∈ spans other ∧ ¬(other = level ∧ second = start) := by
  by_cases same : other = level
  · subst same
    simp [eraseSpan, (tiled.nodup other).mem_erase_iff, and_comm]
  · simp [eraseSpan, same]

theorem erase (level start : ℕ) : Tiled top (eraseSpan spans level start) := by
  refine ⟨fun member => tiled.aligned (tiled.mem_eraseSpan.mp member).1, fun other => ?_,
    fun first second => tiled.apart (tiled.mem_eraseSpan.mp first).1
      (tiled.mem_eraseSpan.mp second).1,
    fun below member partner => tiled.merged below (tiled.mem_eraseSpan.mp member).1
      (tiled.mem_eraseSpan.mp partner).1⟩
  by_cases same : other = level
  · subst same
    simpa [eraseSpan] using (tiled.nodup other).erase start
  · simpa [eraseSpan, same] using tiled.nodup other

theorem covered_eraseSpan (member : start ∈ spans level) :
    Covered (eraseSpan spans level start) number ↔
      Covered spans number ∧ number ∉ span level start := by
  constructor
  · rintro ⟨other, second, kept, inside⟩
    obtain ⟨old, different⟩ := tiled.mem_eraseSpan.mp kept
    exact ⟨⟨other, second, old, inside⟩, fun erased =>
      different (tiled.apart old member inside erased)⟩
  · rintro ⟨⟨other, second, old, inside⟩, outside⟩
    refine ⟨other, second, tiled.mem_eraseSpan.mpr ⟨old, ?_⟩, inside⟩
    rintro ⟨rfl, rfl⟩
    exact outside inside

end Tiled

end OpenXJ380.Data
