import AtaCapture.Sample
import Mathlib

/-!
The bits of what is read from a sample. A bus and a gathering of scattered lines hold the
levels of their lines, the first one lowest, and nothing above them.
-/

namespace AtaCapture

namespace Sample

/-- The bits of scattered lines are the levels of the lines, and there are no others. -/
theorem testBit_scattered (s : Sample) (offsets : List Nat) (i : Nat) :
    (s.scattered offsets).testBit i = offsets[i]?.any s.level := by
  induction offsets generalizing i with
  | nil => simp
  | cons offset offsets ih =>
      have hbit : (s.level offset).toNat ≤ 1 := Bool.toNat_le _
      rw [scattered_cons]
      cases i with
      | zero =>
          rw [Nat.testBit_zero, Nat.add_mul_mod_self_left, List.getElem?_cons_zero,
            Option.any_some]
          cases s.level offset <;> rfl
      | succ i =>
          have hhalf : ((s.level offset).toNat + 2 * s.scattered offsets) / 2 =
              s.scattered offsets := by
            omega
          rw [Nat.testBit_succ, hhalf, ih, List.getElem?_cons_succ]

theorem testBit_bus (s : Sample) (offset width i : Nat) :
    (s.bus offset width).testBit i = (decide (i < width) && s.level (offset + i)) := by
  rw [bus_eq, Nat.testBit_mod_two_pow, Nat.testBit_shiftRight]
  rfl

end Sample

end AtaCapture
