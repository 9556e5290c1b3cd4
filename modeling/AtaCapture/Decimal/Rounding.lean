import AtaCapture.Decimal.Binary

/-!
Rounding binary numbers to natural numbers. A half goes up; what is negative or no number
becomes zero, and what needs more than 64 bits becomes the largest number that has them.
-/

namespace AtaCapture.Decimal

def nearestNatural (significand : Nat) (exponent : Int) : Nat :=
  let (upper, lower) := scaleTwo significand exponent
  (2 * upper + lower) / (2 * lower)

def toNatural (x : Float) : Nat :=
  match parts x with
  | .notANumber => 0
  | .infinite negative => if negative then 0 else 2 ^ 64 - 1
  | .finite negative significand exponent =>
    if negative then 0 else min (nearestNatural significand exponent) (2 ^ 64 - 1)

end AtaCapture.Decimal
