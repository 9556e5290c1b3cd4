import AtaCapture.Instances
import AtaCapture.Text.Numeral

/-!
Samples. A level vector is a natural number whose bit `i` is the level of the line at offset
`i`; a sample says which vector holds from a moment on, until the next sample. A bus is read as
a field of neighbouring lines, scattered lines are gathered, the first of them as the lowest
bit.
-/

namespace AtaCapture

structure Sample where
  time : Nat
  levels : Nat
  deriving DecidableEq, Repr, Inhabited

namespace Sample

def level (s : Sample) (offset : Nat) : Bool :=
  s.levels.testBit offset

/-- The value of `width` neighbouring lines, the lowest at `offset`. Lines above the highest
one are low, so a bus may be as wide as it likes. -/
def bus (s : Sample) (offset width : Nat) : Nat :=
  let upward := s.levels >>> offset
  if upward.log2 < width then upward else upward % 2 ^ width

/-- The value of scattered lines, the first one lowest. -/
def scattered (s : Sample) : List Nat → Nat
  | [] => 0
  | offset :: offsets => (s.level offset).toNat + 2 * s.scattered offsets

def render (s : Sample) : String :=
  s!"Sample[t={s.time}, v=0x" ++ Numeral.upperHex 7 s.levels ++ "]"

@[simp] theorem scattered_nil (s : Sample) : s.scattered [] = 0 := rfl

@[simp] theorem scattered_cons (s : Sample) (offset : Nat) (offsets : List Nat) :
    s.scattered (offset :: offsets) = (s.level offset).toNat + 2 * s.scattered offsets := rfl

theorem bus_eq (s : Sample) (offset width : Nat) :
    s.bus offset width = (s.levels >>> offset) % 2 ^ width := by
  simp only [bus]
  split
  · rename_i hwide
    by_cases hzero : s.levels >>> offset = 0
    · simp [hzero]
    · exact (Nat.mod_eq_of_lt ((Nat.log2_lt hzero).1 hwide)).symm
  · rfl

theorem bus_lt (s : Sample) (offset width : Nat) : s.bus offset width < 2 ^ width := by
  rw [bus_eq]
  exact Nat.mod_lt _ (Nat.two_pow_pos width)

end Sample

end AtaCapture
