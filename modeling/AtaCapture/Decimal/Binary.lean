import AtaCapture.Instances

/-!
Binary floating-point numbers taken apart. A finite number is a sign, a significand and an
exponent of two; the numbers that round to it are the interval between the two halfway points
beside it.
-/

namespace AtaCapture.Decimal

inductive Parts where
  | notANumber
  | infinite (negative : Bool)
  /-- The number `significand * 2 ^ exponent`, or its opposite. -/
  | finite (negative : Bool) (significand : Nat) (exponent : Int)
  deriving DecidableEq, Repr

def partsOfBits (bits : Nat) : Parts :=
  let negative := decide (2 ^ 63 ≤ bits)
  let field : Nat := bits / 2 ^ 52 % 2 ^ 11
  let fraction : Nat := bits % 2 ^ 52
  if field = 2047 then
    if fraction = 0 then .infinite negative else .notANumber
  else if field = 0 then .finite negative fraction (-1074)
  else .finite negative (2 ^ 52 + fraction) ((field : Int) - 1075)

def parts (x : Float) : Parts := partsOfBits x.toBits.toNat

/-- A quotient of naturals that equals `n * 2 ^ e`. -/
def scaleTwo (n : Nat) (e : Int) : Nat × Nat := (n * 2 ^ e.toNat, 2 ^ (-e).toNat)

def scaleTen (n : Nat) (e : Int) : Nat × Nat := (n * 10 ^ e.toNat, 10 ^ (-e).toNat)

end AtaCapture.Decimal
