/-
# The format of a volume

What the parts of the ext4 driver have in common.
-/

import Mathlib

namespace OpenXJ380.Ext4

/-- The sizes of a block that the driver supports. -/
def BlockSize (n : Nat) : Prop := n = 1024 ∨ n = 2048 ∨ n = 4096

theorem BlockSize.bounds {n : Nat} (h : BlockSize n) : 1024 ≤ n ∧ n ≤ 4096 := by
  rcases h with rfl | rfl | rfl <;> decide

end OpenXJ380.Ext4
