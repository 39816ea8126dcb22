/-
# Numbers stored low byte first

A number of a fixed width is its bytes, the low one first. A format that places such
numbers one behind the other is read at fixed offsets; `drop_eq_encodeLE_append_iff` says
what reading one of them at its offset means for the bytes, and applied once for each
number it turns a whole table of fields into one equation and back.

The last section is about the masks that clear the low bits of a word.
-/

import Mathlib

namespace OpenXJ380.Data

/-- The lowest `n` bytes of a number. -/
def encodeLE : ℕ → ℕ → List UInt8
  | 0, _ => []
  | n + 1, value => UInt8.ofNat value :: encodeLE n (value / 256)

def decodeLE : List UInt8 → ℕ
  | [] => 0
  | byte :: bytes => byte.toNat + 256 * decodeLE bytes

@[simp] theorem length_encodeLE (n value : ℕ) : (encodeLE n value).length = n := by
  induction n generalizing value with
  | zero => rfl
  | succ n ih => simp [encodeLE, ih]

variable {n value : ℕ} {bytes rest : List UInt8}

theorem decodeLE_encodeLE (h : value < 256 ^ n) : decodeLE (encodeLE n value) = value := by
  induction n generalizing value with
  | zero => simp_all [encodeLE, decodeLE]
  | succ n ih =>
    have htail : value / 256 < 256 ^ n := by omega
    simp only [encodeLE, decodeLE, ih htail, UInt8.toNat_ofNat']
    omega

theorem encodeLE_decodeLE (bytes : List UInt8) :
    encodeLE bytes.length (decodeLE bytes) = bytes := by
  induction bytes with
  | nil => rfl
  | cons byte bytes ih =>
    have hbyte := byte.toNat_lt
    have hdiv : (byte.toNat + 256 * decodeLE bytes) / 256 = decodeLE bytes := by omega
    have hlow : UInt8.ofNat (byte.toNat + 256 * decodeLE bytes) = byte := by
      apply UInt8.toNat_inj.mp
      simp only [UInt8.toNat_ofNat']
      omega
    simp only [List.length_cons, decodeLE, encodeLE, hdiv, hlow, ih]

theorem decodeLE_lt (bytes : List UInt8) : decodeLE bytes < 256 ^ bytes.length := by
  induction bytes with
  | nil => simp [decodeLE]
  | cons byte bytes ih =>
    have hbyte := byte.toNat_lt
    simp only [decodeLE, List.length_cons]
    omega

theorem decodeLE_take_lt (n : ℕ) (bytes : List UInt8) : decodeLE (bytes.take n) < 256 ^ n :=
  Nat.lt_of_lt_of_le (decodeLE_lt _)
    (Nat.pow_le_pow_right (by decide) (by rw [List.length_take]; omega))

theorem eq_append_iff {front : List UInt8} :
    bytes = front ++ rest ↔ bytes.take front.length = front ∧ bytes.drop front.length = rest := by
  constructor
  · rintro rfl
    simp
  · rintro ⟨hfront, hrest⟩
    calc bytes = bytes.take front.length ++ bytes.drop front.length :=
          (List.take_append_drop _ _).symm
      _ = front ++ rest := by rw [hfront, hrest]

/-- A number stands at an offset exactly if it is read there and what comes behind it is
the rest. -/
theorem drop_eq_encodeLE_append_iff (offset n : ℕ) (hlength : offset + n ≤ bytes.length)
    (hvalue : value < 256 ^ n) :
    bytes.drop offset = encodeLE n value ++ rest ↔
      decodeLE ((bytes.drop offset).take n) = value ∧ bytes.drop (offset + n) = rest := by
  have htake : ((bytes.drop offset).take n).length = n := by simp; omega
  constructor
  · intro h
    have hrest := congrArg (List.drop n) h
    rw [List.drop_drop, List.drop_left' (length_encodeLE _ _)] at hrest
    rw [h, List.take_left' (length_encodeLE _ _), decodeLE_encodeLE hvalue]
    exact ⟨rfl, hrest⟩
  · rintro ⟨rfl, rfl⟩
    have hencode := encodeLE_decodeLE ((bytes.drop offset).take n)
    rw [htake] at hencode
    rw [hencode, ← List.drop_drop, List.take_append_drop]

/-- The number that stands at an offset. -/
def fieldLE (bytes : List UInt8) (offset n : ℕ) : ℕ := decodeLE ((bytes.drop offset).take n)

theorem drop_eq_append_iff_fieldLE {bytes rest : List UInt8} (offset n : ℕ) {value : ℕ}
    (hlength : offset + n ≤ bytes.length) (hvalue : value < 256 ^ n) :
    bytes.drop offset = encodeLE n value ++ rest ↔
      fieldLE bytes offset n = value ∧ bytes.drop (offset + n) = rest :=
  drop_eq_encodeLE_append_iff offset n hlength hvalue

theorem eq_append_iff_fieldLE (hlength : n ≤ bytes.length) (hvalue : value < 256 ^ n) :
    bytes = encodeLE n value ++ rest ↔ fieldLE bytes 0 n = value ∧ bytes.drop n = rest := by
  simpa using @drop_eq_append_iff_fieldLE bytes rest 0 n value (by simpa using hlength) hvalue

theorem fieldLE_lt (bytes : List UInt8) (offset n : ℕ) : fieldLE bytes offset n < 256 ^ n :=
  decodeLE_take_lt n _

/-- A field depends only on the bytes up to its end. -/
theorem fieldLE_take {offset size : ℕ} (h : offset + n ≤ size) :
    fieldLE (bytes.take size) offset n = fieldLE bytes offset n := by
  rw [fieldLE, fieldLE, List.drop_take, List.take_take, Nat.min_eq_left (by omega)]

/-- Clearing the low `k` bits of a word of `w` bits. -/
theorem and_high_bits {x w k : ℕ} (hx : x < 2 ^ w) (hk : k ≤ w) :
    x &&& (2 ^ w - 1 - (2 ^ k - 1)) = x / 2 ^ k * 2 ^ k := by
  have hpow : 2 ^ k ≤ 2 ^ w := Nat.pow_le_pow_right (by decide) hk
  have hmask : 2 ^ w - 1 - (2 ^ k - 1) = 2 ^ w - ((2 ^ k - 1) + 1) := by omega
  apply Nat.eq_of_testBit_eq
  intro i
  rw [hmask, Nat.testBit_and, Nat.testBit_two_pow_sub_succ (by omega),
    Nat.testBit_two_pow_sub_one, Nat.testBit_mul_two_pow, Nat.testBit_div_two_pow]
  by_cases hi : k ≤ i
  · rw [Nat.sub_add_cancel hi]
    by_cases hw : i < w
    · simp [hi, hw]
    · have hbit : x < 2 ^ i :=
        Nat.lt_of_lt_of_le hx (Nat.pow_le_pow_right (by decide) (Nat.le_of_not_lt hw))
      simp [Nat.testBit_lt_two_pow hbit]
  · simp [Nat.lt_of_not_le hi]

end OpenXJ380.Data
