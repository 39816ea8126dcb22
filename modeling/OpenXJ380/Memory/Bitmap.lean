/-
# Searching a bitmap

`kernel/memory/bitmap.cpp` searches runs of equal bits. A byte of which all bits count is
taken at once, and so is one of which no bit counts; the bits of the others are read one by
one. The test for a byte of which no bit counts is `byte == !byte_match`, with the logical
negation of the byte: it is right for runs of ones, but for runs of zeros it finds the bytes
that are one, whose other bits the search does not see. A search from a position starts at the byte
of this position.
-/

import OpenXJ380.Data.Runs

namespace OpenXJ380.Memory

open Data

/-- The bytes of a bitmap; `bitmap_init` makes all their bits part of it. -/
structure Bitmap where
  buffer : List UInt8

namespace Bitmap

def length (bitmap : Bitmap) : Nat := 8 * bitmap.buffer.length

end Bitmap

def bitmapGet (bitmap : Bitmap) (index : Nat) : Bool :=
  if bitmap.length ≤ index then false else (bitmap.buffer.getD (index / 8) 0).toNat.testBit (index % 8)

/-- The bits just read that count, and where they begin. -/
structure RunState where
  count : Nat
  startIndex : Nat

/-- Where the run begins that goes on at a position. -/
def RunState.startAt (s : RunState) (index : Nat) : Nat := if s.count = 0 then index else s.startIndex

/-- `value ? (uint8_t)-1 : 0`. -/
def byteMatch (value : Bool) : UInt8 := if value then 255 else 0

/-- `!byte_match`. -/
def byteSkip (value : Bool) : UInt8 := if byteMatch value = 0 then 1 else 0

/-- The bit loop. An error is a return from the search. -/
def scanBits (byte : UInt8) (value : Bool) (length base : Nat) :
    List Nat → RunState → Except Nat RunState
  | [], s => .ok s
  | bit :: rest, s =>
    if byte.toNat.testBit bit = value then
      if s.count + 1 = length then .error (s.startAt (base + bit))
      else scanBits byte value length base rest ⟨s.count + 1, s.startAt (base + bit)⟩
    else scanBits byte value length base rest ⟨0, s.startIndex⟩

def scanByte (byte : UInt8) (value : Bool) (length byteIdx : Nat) (s : RunState) :
    Except Nat RunState :=
  if byte = byteSkip value then .ok ⟨0, s.startIndex⟩
  else if byte = byteMatch value then
    if length < 8 then .error (byteIdx * 8)
    else if length ≤ s.count + 8 then .error (s.startAt (byteIdx * 8))
    else .ok ⟨s.count + 8, s.startAt (byteIdx * 8)⟩
  else scanBits byte value length (byteIdx * 8) (List.range 8) s

def scanBytes (value : Bool) (length : Nat) : List UInt8 → Nat → RunState → Option Nat
  | [], _, _ => none
  | byte :: rest, byteIdx, s =>
    match scanByte byte value length byteIdx s with
    | .error index => some index
    | .ok s => scanBytes value length rest (byteIdx + 1) s

/-- `(size_t)-1` is `none`. -/
def bitmapFindRange (bitmap : Bitmap) (length : Nat) (value : Bool) : Option Nat :=
  scanBytes value length bitmap.buffer 0 ⟨0, 0⟩

def bitmapFindRangeFrom (bitmap : Bitmap) (length : Nat) (value : Bool) (startFrom : Nat) :
    Option Nat :=
  scanBytes value length (bitmap.buffer.drop (startFrom / 8)) (startFrom / 8) ⟨0, 0⟩

namespace Bitmap

/-- A run of bits inside the bitmap. -/
def HasRun (bitmap : Bitmap) (value : Bool) (i length : Nat) : Prop :=
  i + length ≤ bitmap.length ∧ ∀ j, i ≤ j → j < i + length → bitmapGet bitmap j = value

/-- The bit is inside the bitmap and has the value, and for zeros its byte is not one. -/
def Visible (bitmap : Bitmap) (value : Bool) (index : Nat) : Prop :=
  index < bitmap.length ∧ bitmapGet bitmap index = value ∧
    (value = true ∨ bitmap.buffer[index / 8]? ≠ some 1)

variable {bitmap : Bitmap} {value : Bool} {length i byteIdx : Nat} {byte : UInt8}

theorem visible_iff (hbyte : bitmap.buffer[byteIdx]? = some byte) {bit : Nat} (hbit : bit < 8) :
    bitmap.Visible value (byteIdx * 8 + bit) ↔
      byte.toNat.testBit bit = value ∧ (value = true ∨ byte ≠ 1) := by
  have hinside : byteIdx < bitmap.buffer.length := (List.getElem?_eq_some_iff.mp hbyte).1
  have hlength : byteIdx * 8 + bit < bitmap.length := by
    rw [Bitmap.length]
    omega
  rw [Visible, bitmapGet, if_neg (by omega), show (byteIdx * 8 + bit) / 8 = byteIdx by omega,
    show (byteIdx * 8 + bit) % 8 = bit by omega, List.getD_eq_getElem?_getD, hbyte]
  simp [hlength]

theorem hasRun_of_visible (hlength : 0 < length) (h : Run (bitmap.Visible value) i length) :
    bitmap.HasRun value i length := by
  have hlast := (h (i + length - 1) (by omega) (by omega)).1
  exact ⟨by omega, fun j hlow hhigh => (h j hlow hhigh).2.1⟩

end Bitmap

section Byte

variable {bitmap : Bitmap} {value : Bool} {length lower byteIdx : Nat} {byte : UInt8} {s : RunState}

/-- What the search returns for a first run: a short run that ends in a byte all of whose bits have
the value is given by the beginning of that byte. -/
def Returns (bitmap : Bitmap) (value : Bool) (length first index : Nat) : Prop :=
  if length < 8 ∧ bitmap.buffer[(first + length - 1) / 8]? = some (byteMatch value) then
    index = (first + length - 1) / 8 * 8
  else index = first

/-- What a part of the search does from one position to another: it finds a run, or goes on. -/
def Progress (bitmap : Bitmap) (value : Bool) (length lower p : Nat) : Except Nat RunState → Prop
  | .error index => ∃ first, IsLeast {i | lower ≤ i ∧ Run (bitmap.Visible value) i length} first ∧
      Returns bitmap value length first index
  | .ok s => Scanned (bitmap.Visible value) lower length p s.count s.startIndex

theorem run_one {f : Nat → Prop} {p : Nat} (h : f p) : Run f p 1 := fun j hlow hhigh => by
  obtain rfl : j = p := by omega
  exact h

/-- The induction is on the bits that are left. -/
theorem scanBits_progress (hbyte : bitmap.buffer[byteIdx]? = some byte) (hone : value = true ∨ byte ≠ 1)
    (hmixed : byte ≠ byteMatch value) {bit : Nat} {k : Nat} (hk : bit + k = 8)
    (h : Scanned (bitmap.Visible value) lower length (byteIdx * 8 + bit) s.count s.startIndex) :
    Progress bitmap value length lower (byteIdx * 8 + 8)
      (scanBits byte value length (byteIdx * 8) (List.range' bit k) s) := by
  induction k generalizing bit s with
  | zero =>
    obtain rfl : bit = 8 := by omega
    exact h
  | succ k ih =>
    have hvisible : bitmap.Visible value (byteIdx * 8 + bit) ↔ byte.toNat.testBit bit = value :=
      (Bitmap.visible_iff hbyte (by omega)).trans (and_iff_left hone)
    rw [List.range'_succ, scanBits]
    have hshort := h.short
    have hlow := h.low
    split
    next hvalue =>
      have hrun := run_one (hvisible.mpr hvalue)
      split
      next hfull =>
        refine ⟨_, h.complete hrun (Nat.le_of_eq hfull.symm), ?_⟩
        rw [Returns, show (byteIdx * 8 + bit - s.count + length - 1) / 8 = byteIdx by omega, hbyte,
          if_neg (fun hmatch => hmixed (Option.some.inj hmatch.2))]
        exact h.start_extend
      next => exact ih (by omega) (h.extend hrun (by omega))
    next hvalue => exact ih (by omega) (h.drop (fun hp => hvalue (hvisible.mp hp)) s.startIndex)

theorem run_byteMatch (hbyte : bitmap.buffer[byteIdx]? = some (byteMatch value)) :
    Run (bitmap.Visible value) (byteIdx * 8) 8 := by
  intro j hlow hhigh
  obtain ⟨bit, rfl⟩ : ∃ bit, j = byteIdx * 8 + bit := ⟨j - byteIdx * 8, by omega⟩
  have hbit : bit < 8 := by omega
  rw [Bitmap.visible_iff hbyte hbit]
  have hall : ∀ value : Bool, ∀ bit < 8, (byteMatch value).toNat.testBit bit = value ∧
      (value = true ∨ byteMatch value ≠ 1) := by decide
  exact hall value bit hbit

/-- A byte that is skipped has no visible bit. -/
theorem not_visible_of_byteSkip (hbyte : bitmap.buffer[byteIdx]? = some (byteSkip value)) {j : Nat}
    (hlow : byteIdx * 8 ≤ j) (hhigh : j < byteIdx * 8 + 8) : ¬bitmap.Visible value j := by
  obtain ⟨bit, rfl⟩ : ∃ bit, j = byteIdx * 8 + bit := ⟨j - byteIdx * 8, by omega⟩
  rw [Bitmap.visible_iff hbyte (by omega)]
  cases value with
  | false => simp [byteSkip, byteMatch]
  | true => simp [byteSkip, byteMatch]

theorem scanByte_progress (hbyte : bitmap.buffer[byteIdx]? = some byte)
    (h : Scanned (bitmap.Visible value) lower length (byteIdx * 8) s.count s.startIndex) :
    Progress bitmap value length lower (byteIdx * 8 + 8) (scanByte byte value length byteIdx s) := by
  have hshort := h.short
  have hlow := h.low
  rw [scanByte]
  split
  next hnone =>
    exact h.drop_many (k := 7) (fun j => not_visible_of_byteSkip (hnone ▸ hbyte)) s.startIndex
  next hseen =>
    split
    next hall =>
      have hrun := run_byteMatch (hall ▸ hbyte)
      split
      next hsmall =>
        refine ⟨_, h.complete hrun (by omega), ?_⟩
        rw [Returns, show (byteIdx * 8 - s.count + length - 1) / 8 = byteIdx by omega,
          if_pos ⟨hsmall, hall ▸ hbyte⟩]
      next hlong =>
        split
        next hfull =>
          refine ⟨_, h.complete hrun hfull, ?_⟩
          rw [Returns, if_neg (fun hsmall => hlong hsmall.1)]
          exact h.start_extend
        next => exact h.extend hrun (by omega)
    next hmixed =>
      refine scanBits_progress hbyte ?_ hmixed (Nat.zero_add 8) h
      cases value with
      | false => exact .inr hseen
      | true => exact .inl rfl

end Byte

section Search

variable {bitmap : Bitmap} {value : Bool} {length lower byteIdx : Nat} {bytes : List UInt8}
  {s : RunState}

theorem drop_cons {byte : UInt8} {rest : List UInt8} (h : bitmap.buffer.drop byteIdx = byte :: rest) :
    bitmap.buffer[byteIdx]? = some byte ∧ bitmap.buffer.drop (byteIdx + 1) = rest := by
  constructor
  · have hget := congrArg (fun list => list[0]?) h
    simpa using hget
  · rw [← List.tail_drop, h, List.tail_cons]

/-- The induction is on the bytes that are left. -/
theorem scanBytes_first (hbytes : bitmap.buffer.drop byteIdx = bytes)
    (h : Scanned (bitmap.Visible value) lower length (byteIdx * 8) s.count s.startIndex) :
    match scanBytes value length bytes byteIdx s with
    | some index => ∃ first, IsLeast {i | lower ≤ i ∧ Run (bitmap.Visible value) i length} first ∧
        Returns bitmap value length first index
    | none => ∀ i, lower ≤ i → ¬Run (bitmap.Visible value) i length := by
  induction bytes generalizing byteIdx s with
  | nil =>
    intro i hi hrun
    have hend : bitmap.buffer.length ≤ byteIdx := List.drop_eq_nil_iff.mp hbytes
    have hshort := h.short
    have hahead := h.ahead i hi hrun
    have hlast := (hrun (i + length - 1) (by omega) (by omega)).1
    rw [Bitmap.length] at hlast
    exact h.none hi (by omega) hrun
  | cons byte rest ih =>
    obtain ⟨hbyte, hrest⟩ := drop_cons hbytes
    have hprogress := scanByte_progress hbyte h
    rw [scanBytes]
    revert hprogress
    cases scanByte byte value length byteIdx s with
    | error found => exact id
    | ok s' => exact fun hprogress => ih hrest (by rwa [show (byteIdx + 1) * 8 = byteIdx * 8 + 8 by omega])

theorem bitmapFindRangeFrom_first (hlength : 0 < length) (startFrom : Nat) :
    match bitmapFindRangeFrom bitmap length value startFrom with
    | some index => ∃ first,
        IsLeast {i | startFrom / 8 * 8 ≤ i ∧ Run (bitmap.Visible value) i length} first ∧
        Returns bitmap value length first index
    | none => ∀ i, startFrom / 8 * 8 ≤ i → ¬Run (bitmap.Visible value) i length :=
  scanBytes_first rfl (Scanned.init hlength 0)

variable {first index start : Nat}

/-- A run is returned from its first bit on, or from the next byte on if it ends there and that
byte has the value throughout. -/
theorem Returns.cases (hlength : 0 < length)
    (hfirst : IsLeast {i | start * 8 ≤ i ∧ Run (bitmap.Visible value) i length} first)
    (h : Returns bitmap value length first index) :
    Run (bitmap.Visible value) index length ∧ first ≤ index ∧
      (first < index → first < start * 8 + 8 → length < 8 ∧ start * 8 + 8 < first + length ∧
        bitmap.buffer[start + 1]? = some (byteMatch value)) := by
  obtain ⟨⟨hlow, hrun⟩, hleast⟩ := hfirst
  rw [Returns] at h
  split at h
  next hshort =>
    obtain ⟨hsmall, hbyte⟩ := hshort
    have hindex : Run (bitmap.Visible value) index length := fun j hj hj' =>
      run_byteMatch hbyte j (h ▸ hj) (by omega)
    have hbefore : first ≤ index := hleast ⟨by omega, hindex⟩
    refine ⟨hindex, hbefore, fun hless hnear => ⟨hsmall, by omega, ?_⟩⟩
    rwa [show (first + length - 1) / 8 = start + 1 by omega] at hbyte
  next =>
    subst h
    exact ⟨hrun, Nat.le_refl _, fun hless => absurd hless (Nat.lt_irrefl _)⟩

end Search

/-- What the search from a position is to do. -/
def Searches (bitmap : Bitmap) (length : Nat) (value : Bool) (startFrom : Nat) (found : Option Nat) : Prop :=
  (∀ i, found = some i → startFrom ≤ i ∧ bitmap.HasRun value i length) ∧
    (found = none → ∀ i, startFrom ≤ i → ¬bitmap.HasRun value i length)

/-- No visible run begins in the byte of the position before it, unless it is short and ends in a
next byte that has the value throughout, and where there is a run there is a visible one. -/
def Findable (bitmap : Bitmap) (length : Nat) (value : Bool) (startFrom : Nat) : Prop :=
  (∀ i, startFrom / 8 * 8 ≤ i → i < startFrom → Run (bitmap.Visible value) i length →
    length < 8 ∧ startFrom / 8 * 8 + 8 < i + length ∧
      bitmap.buffer[startFrom / 8 + 1]? = some (byteMatch value)) ∧
  ((∃ i, startFrom ≤ i ∧ bitmap.HasRun value i length) →
    ∃ i, startFrom / 8 * 8 ≤ i ∧ Run (bitmap.Visible value) i length)

theorem bitmapFindRangeFrom_exact (bitmap : Bitmap) {length : Nat} (hlength : 0 < length) (value : Bool)
    (startFrom : Nat) :
    Searches bitmap length value startFrom (bitmapFindRangeFrom bitmap length value startFrom) ↔
      Findable bitmap length value startFrom := by
  have hsearch := @bitmapFindRangeFrom_first bitmap value length hlength startFrom
  unfold Searches Findable
  revert hsearch
  cases bitmapFindRangeFrom bitmap length value startFrom with
  | none =>
    intro hnone
    simp only [reduceCtorEq, false_implies, implies_true, true_and, forall_const]
    constructor
    · intro hright
      exact ⟨fun i hi _ hrun => absurd hrun (hnone i hi), fun ⟨i, hi, hrun⟩ => absurd hrun (hright i hi)⟩
    · rintro ⟨-, hvisible⟩ i hi hrun
      obtain ⟨j, hj, hj'⟩ := hvisible ⟨i, hi, hrun⟩
      exact hnone j hj hj'
  | some index =>
    rintro ⟨first, hfirst, hreturns⟩
    obtain ⟨hrun, hbefore, hnext⟩ := hreturns.cases hlength hfirst
    have hplace : startFrom < startFrom / 8 * 8 + 8 := by omega
    simp only [Option.some.injEq, forall_eq', reduceCtorEq, false_implies, and_true]
    constructor
    · rintro ⟨hindex, -⟩
      refine ⟨fun i hi hless hvisible => ?_, fun _ => ⟨first, hfirst.1⟩⟩
      have hleast := hfirst.2 ⟨hi, hvisible⟩
      obtain ⟨hsmall, hcross, hbyte⟩ := hnext (by omega) (by omega)
      exact ⟨hsmall, by omega, hbyte⟩
    · rintro ⟨hclear, -⟩
      refine ⟨?_, Bitmap.hasRun_of_visible hlength hrun⟩
      by_contra hless
      obtain ⟨hsmall, hcross, hbyte⟩ := hclear first hfirst.1.1 (by omega) hfirst.1.2
      rw [Returns, show (first + length - 1) / 8 = startFrom / 8 + 1 by omega,
        if_pos ⟨hsmall, hbyte⟩] at hreturns
      omega

/-- **The searches are right exactly in these cases.** For ones every run is visible; a search from
the beginning of a byte has nothing before it. -/
theorem bitmapFindRange_exact (bitmap : Bitmap) {length : Nat} (hlength : 0 < length) (value : Bool) :
    (Searches bitmap length value 0 (bitmapFindRange bitmap length value) ↔
      ((∃ i, bitmap.HasRun value i length) → ∃ i, Run (bitmap.Visible value) i length)) ∧
    ∀ startFrom, Searches bitmap length value startFrom
      (bitmapFindRangeFrom bitmap length value startFrom) ↔ Findable bitmap length value startFrom := by
  refine ⟨(bitmapFindRangeFrom_exact bitmap hlength value 0).trans ?_,
    bitmapFindRangeFrom_exact bitmap hlength value⟩
  simp [Findable]

theorem bitmapFindRange_exact_zeros :
    Searches ⟨[1, 31, 0]⟩ 5 false 13 (bitmapFindRangeFrom ⟨[1, 31, 0]⟩ 5 false 13) := by
  refine ((bitmapFindRange_exact ⟨[1, 31, 0]⟩ (by decide) false).2 13).mpr
    ⟨fun i hlow hhigh hrun => ?_, fun _ => ?_⟩
  · have hone := (hrun 12 (by omega) (by omega)).2.1
    exact absurd hone (by decide)
  · refine ⟨16, by decide, fun j hlow hhigh => ?_⟩
    interval_cases j <;> exact ⟨by decide, by decide, .inr (by decide)⟩

/-- A byte that is one has seven zeros, which the search does not see, and a search from inside
a byte returns a position before the one to start from. -/
theorem bitmapFindRange_misses :
    (bitmapFindRange ⟨[1]⟩ 1 false = none ∧ bitmapGet ⟨[1]⟩ 1 = false ∧ 1 < Bitmap.length ⟨[1]⟩) ∧
      bitmapFindRangeFrom ⟨[255]⟩ 1 true 3 = some 0 := by
  decide

end OpenXJ380.Memory
