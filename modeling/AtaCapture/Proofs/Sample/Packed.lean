import AtaCapture.Proofs.Sample
import Mathlib

/-!
Levels in a register. A machine holds a vector of at most 64 levels in a word. It shifts a bus
to the bottom of the word and masks what is above it, and it collects scattered lines by
putting their levels into a word, one after the other, each at its own place. The two ways come
to the values that a sample has: after each line that is put, the word holds the levels of the
lines so far and nothing else.
-/

namespace AtaCapture.Packed

def level (levels : BitVec 64) (offset : Nat) : Bool := levels >>> offset &&& 1#64 = 1#64

def mask (width : Nat) : BitVec 64 :=
  if 64 ≤ width then BitVec.allOnes 64 else 1#64 <<< width - 1#64

def bus (levels : BitVec 64) (offset width : Nat) : BitVec 64 :=
  levels >>> offset &&& mask width

def put (levels word : BitVec 64) (line : Nat × Nat) : BitVec 64 :=
  word ||| (BitVec.ofBool (level levels line.1)).setWidth 64 <<< line.2

def scattered (levels : BitVec 64) (offsets : List Nat) : BitVec 64 :=
  offsets.zipIdx.foldl (put levels) 0#64

variable {s : Sample} {levels : BitVec 64} {width : Nat} {offsets : List Nat}

theorem level_eq (levels : BitVec 64) (offset : Nat) :
    level levels offset = levels.getLsbD offset := by
  have hbit : (levels >>> offset &&& 1#64).toNat = levels.toNat / 2 ^ offset % 2 := by
    rw [BitVec.toNat_and, BitVec.toNat_ushiftRight, Nat.shiftRight_eq_div_pow]
    exact Nat.and_one_is_mod _
  rw [level, ← BitVec.testBit_toNat, Nat.testBit_eq_decide_div_mod_eq, ← hbit]
  exact decide_eq_decide.mpr BitVec.toNat_inj.symm

theorem toNat_mask (h : width ≤ 64) : (mask width).toNat = 2 ^ width - 1 := by
  rw [mask]
  split
  · obtain rfl : width = 64 := by omega
    rfl
  · have hpow : 2 ^ width < 2 ^ 64 := Nat.pow_lt_pow_right (by decide) (by omega)
    have hone : (1#64 <<< width).toNat = 2 ^ width := by
      rw [BitVec.toNat_shiftLeft, Nat.shiftLeft_eq, BitVec.toNat_one (by decide), Nat.one_mul,
        Nat.mod_eq_of_lt hpow]
    rw [BitVec.toNat_sub_of_le, hone]
    · rfl
    · rw [BitVec.le_def, hone]
      exact Nat.one_le_two_pow

/-- No bit of a bus is lost, and none is left above it. -/
theorem toNat_bus (hlevels : levels.toNat = s.levels) (offset : Nat) (h : width ≤ 64) :
    (bus levels offset width).toNat = s.bus offset width := by
  rw [bus, BitVec.toNat_and, BitVec.toNat_ushiftRight, toNat_mask h,
    Nat.and_two_pow_sub_one_eq_mod, hlevels, Sample.bus_eq]

theorem getLsbD_put (levels word : BitVec 64) (offset place i : Nat) :
    (put levels word (offset, place)).getLsbD i =
      (word.getLsbD i || (decide (i < 64 ∧ i = place) && levels.getLsbD offset)) := by
  have hplace : decide (i < 64 ∧ i = place) =
      (decide (i < 64) && !decide (i < place) &&
        (decide (i - place < 64) && decide (i - place = 0))) := by
    rw [← decide_not, ← Bool.decide_and, ← Bool.decide_and, ← Bool.decide_and,
      decide_eq_decide]
    omega
  rw [put, level_eq, BitVec.getLsbD_or, BitVec.getLsbD_shiftLeft, BitVec.getLsbD_setWidth,
    BitVec.getLsbD_ofBool, hplace]
  simp only [Bool.and_assoc]

/-- As long as there is a place for each line, the word holds their levels and no other bit. -/
theorem getLsbD_scattered (levels : BitVec 64) (h : offsets.length ≤ 64) (i : Nat) :
    (scattered levels offsets).getLsbD i = offsets[i]?.any levels.getLsbD := by
  -- The lines are put from the first to the last, so one more line is one at the end.
  induction offsets using List.reverseRecOn with
  | nil => exact BitVec.getLsbD_zero
  | append_singleton offsets offset ih =>
      rw [List.length_append, List.length_singleton] at h
      rw [scattered, List.zipIdx_append, List.foldl_append, ← scattered, List.zipIdx_singleton,
        List.foldl_cons, List.foldl_nil, getLsbD_put, ih (by omega), Nat.zero_add]
      obtain hbefore | rfl | hbehind := Nat.lt_trichotomy i offsets.length
      · have hother : ¬ (i < 64 ∧ i = offsets.length) := by omega
        rw [List.getElem?_append_left hbefore, decide_eq_false hother, Bool.false_and,
          Bool.or_false]
      · have hplace : offsets.length < 64 ∧ offsets.length = offsets.length := by omega
        rw [List.getElem?_concat_length, List.getElem?_eq_none le_rfl, decide_eq_true hplace,
          Option.any_none, Option.any_some, Bool.false_or, Bool.true_and]
      · have hother : ¬ (i < 64 ∧ i = offsets.length) := by omega
        have hlength : (offsets ++ [offset]).length ≤ i := by
          rwa [List.length_append, List.length_singleton]
        rw [List.getElem?_eq_none hbehind.le, List.getElem?_eq_none hlength,
          decide_eq_false hother]
        rfl

theorem toNat_scattered (hlevels : levels.toNat = s.levels) (h : offsets.length ≤ 64) :
    (scattered levels offsets).toNat = s.scattered offsets := by
  have hlevel : levels.getLsbD = s.level := by
    funext offset
    rw [← BitVec.testBit_toNat, hlevels, Sample.level]
  refine Nat.eq_of_testBit_eq fun i => ?_
  rw [BitVec.testBit_toNat, getLsbD_scattered levels h, hlevel, Sample.testBit_scattered]

end AtaCapture.Packed
