import AtaCapture.Decimal.Binary

/-!
The shortest decimal of a binary number: of the decimals that read back as the number those
with the fewest digits, and of these the nearest. The grids of one, two, … seventeen digits are
tried in turn with the two neighbours of the number on each; seventeen digits always suffice.
-/

namespace AtaCapture.Decimal

/-- A positive number `digits * 10 ^ scale`. -/
structure Digits where
  digits : Nat
  scale : Int
  deriving DecidableEq, Repr

/-- The open or closed interval of the numbers that round to `significand * 2 ^ exponent`, in
quarters of the last binary place. Its ends belong to it when the significand is even. -/
structure Interval where
  low : Nat
  value : Nat
  high : Nat
  /-- A quarter of the last place is `2 ^ exponent`. -/
  exponent : Int
  closed : Bool

/-- Below a power of two the numbers are twice as dense, so the lower half is shorter there. -/
def interval (significand : Nat) (exponent : Int) : Interval where
  low := 4 * significand - (if significand = 2 ^ 52 ∧ -1074 < exponent then 1 else 2)
  value := 4 * significand
  high := 4 * significand + 2
  exponent := exponent - 2
  closed := significand % 2 = 0

/-- Whether the point `s` of the grid of step `10 ^ scale` lies in the interval. -/
def Interval.holds (i : Interval) (scale : Int) (s : Nat) : Bool :=
  let (point, unit) := scaleTen s scale
  let (quarter, fold) := scaleTwo unit i.exponent
  let place := point * fold
  if i.closed then decide (i.low * quarter ≤ place) && decide (place ≤ i.high * quarter)
  else decide (i.low * quarter < place) && decide (place < i.high * quarter)

/-- The neighbour of the value on a grid that lies in the interval; of two the nearer, and the
upper one of two equally near. -/
def Interval.hit (i : Interval) (scale : Int) : Option Nat :=
  let (upper, lower) := scaleTwo i.value i.exponent
  let (step, parts) := scaleTen lower scale
  let whole := upper * parts
  let below := whole / step
  match i.holds scale below, i.holds scale (below + 1) with
  | false, false => none
  | true, false => some below
  | false, true => some (below + 1)
  | true, true => some (if 2 * (whole - below * step) < step then below else below + 1)

/-- The least `p` in reach with `value < 10 ^ p`. -/
def Interval.magnitude (i : Interval) : Int :=
  let (upper, lower) := scaleTwo i.value i.exponent
  if lower ≤ upper then (Nat.toDigits 10 (upper / lower)).length
  else
    let zeros : Nat := ((List.range 330).find? fun j => lower ≤ upper * 10 ^ (j + 1)).getD 330
    Int.negOfNat zeros

def shortest (significand : Nat) (exponent : Int) : Option Digits :=
  let i := interval significand exponent
  let p := i.magnitude
  (List.range 17).findSome? fun n =>
    let scale := p - (n + 1 : Nat)
    (i.hit scale).map fun digits => { digits, scale }

end AtaCapture.Decimal
