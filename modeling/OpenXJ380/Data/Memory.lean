/-
# Memory of bytes

A memory gives a byte at every address. Writing a list of bytes changes the addresses it
covers and no others. A list of 64-bit words is stored low byte first, one word behind the
other, and is read back as it was written.
-/

import OpenXJ380.Data.LittleEndian

namespace OpenXJ380.Data

def ByteMemory : Type := ℕ → UInt8

namespace ByteMemory

def write (memory : ByteMemory) (address : ℕ) (bytes : List UInt8) : ByteMemory := fun place =>
  if address ≤ place then bytes[place - address]?.getD (memory place) else memory place

def read (memory : ByteMemory) (address length : ℕ) : List UInt8 :=
  (List.range length).map fun i => memory (address + i)

/-- Two ranges of addresses have no address in common. -/
def Apart (address length address' length' : ℕ) : Prop :=
  address + length ≤ address' ∨ address' + length' ≤ address

instance decidableApart (address length address' length' : ℕ) :
    Decidable (Apart address length address' length') :=
  inferInstanceAs (Decidable (_ ∨ _))

variable {memory : ByteMemory} {address address' length length' : ℕ} {bytes : List UInt8}

theorem Apart.symm (h : Apart address length address' length') : Apart address' length' address length :=
  Or.symm h

theorem Apart.mono {first second size size' : ℕ} (h : Apart first size second size')
    (hfirst : first ≤ address) (hend : address + length ≤ first + size)
    (hsecond : second ≤ address') (hend' : address' + length' ≤ second + size') :
    Apart address length address' length' := by
  unfold Apart at *
  omega

@[simp] theorem length_read : (memory.read address length).length = length := by simp [read]

theorem read_write_self : (memory.write address bytes).read address bytes.length = bytes := by
  refine List.ext_getElem (by simp) fun i _ hi => ?_
  simp [read, write, hi]

theorem read_write_apart (h : Apart address bytes.length address' length) :
    (memory.write address bytes).read address' length = memory.read address' length := by
  refine List.map_congr_left fun i hi => ?_
  rw [List.mem_range] at hi
  unfold write
  split
  next hle =>
    have hend : bytes.length ≤ address' + i - address := by
      unfold Apart at h
      omega
    rw [List.getElem?_eq_none hend, Option.getD_none]
  next => rfl

end ByteMemory

variable (words : List UInt64)

def encodeWords : List UInt8 := words.flatMap fun word => encodeLE 8 word.toNat

def decodeWords : ℕ → List UInt8 → List UInt64
  | 0, _ => []
  | count + 1, bytes => UInt64.ofNat (decodeLE (bytes.take 8)) :: decodeWords count (bytes.drop 8)

@[simp] theorem length_encodeWords : (encodeWords words).length = 8 * words.length := by
  induction words with
  | nil => rfl
  | cons word words ih =>
    rw [encodeWords, List.flatMap_cons, List.length_append, length_encodeLE, List.length_cons]
    unfold encodeWords at ih
    omega

theorem decodeWords_encodeWords : decodeWords words.length (encodeWords words) = words := by
  induction words with
  | nil => rfl
  | cons word words ih =>
    have hsplit : encodeWords (word :: words) = encodeLE 8 word.toNat ++ encodeWords words := rfl
    rw [List.length_cons, decodeWords, hsplit, List.take_left' (length_encodeLE _ _),
      List.drop_left' (length_encodeLE _ _), decodeLE_encodeLE word.toNat_lt, ih, UInt64.ofNat_toNat]

end OpenXJ380.Data
