import AtaCapture.Decimal.Binary

/-!
The binary number nearest to a decimal. The quotient is scaled so that its whole part fills the
significand, and the rest decides the rounding; a half goes to the even neighbour. Numbers that
are too large become infinite, numbers that are too small lose places down to zero.
-/

namespace AtaCapture.Decimal

/-- The quotient rounded to a natural number, a half to the even one. -/
def roundQuotient (upper lower : Nat) : Nat :=
  let below := upper / lower
  let rest := 2 * (upper % lower)
  if lower < rest ∨ (rest = lower ∧ below % 2 = 1) then below + 1 else below

def scaledDown (upper lower : Nat) (e : Int) : Nat × Nat :=
  (upper * 2 ^ (-e).toNat, lower * 2 ^ e.toNat)

/-- The bits of the number nearest to a quotient of positive naturals. Adding the rounded
significand to the exponent field lets a carry out of the significand raise the exponent. -/
def nearestBits (upper lower : Nat) : Nat :=
  if upper = 0 then 0
  else
    let guess : Int := max ((upper.log2 : Int) - lower.log2 - 53) (-1074)
    let (u, l) := scaledDown upper lower guess
    let e := if 2 ^ 53 ≤ u / l then guess + 1 else guess
    let (u, l) := scaledDown upper lower e
    min (roundQuotient u l + (e + 1074).toNat * 2 ^ 52) (2047 * 2 ^ 52)

def signed (negative : Bool) (bits : Nat) : Float :=
  Float.ofBits (bits + (if negative then 2 ^ 63 else 0)).toUInt64

/-- The number nearest to `digits * 10 ^ scale`, or to its opposite. Beyond four hundred places
on either side nothing but the sign is left. -/
def nearest (negative : Bool) (digits : Nat) (scale : Int) : Float :=
  let size : Int := (Nat.toDigits 10 digits).length + scale
  if digits = 0 ∨ size < -400 then signed negative 0
  else if 400 < size then signed negative (2047 * 2 ^ 52)
  else
    let (upper, lower) := scaleTen digits scale
    signed negative (nearestBits upper lower)

end AtaCapture.Decimal
