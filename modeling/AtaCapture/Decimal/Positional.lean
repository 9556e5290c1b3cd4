import AtaCapture.Decimal.Shortest

/-!
Positional text of a binary number: its shortest digits written without an exponent, however
many zeros that takes, and without a fraction when the number is whole.
-/

namespace AtaCapture.Decimal

def trimZeros (digits : List Char) : List Char :=
  (digits.reverse.dropWhile (· = '0')).reverse

def Digits.positional (d : Digits) : String :=
  match d.scale with
  | .ofNat zeros => (d.digits * 10 ^ zeros).repr
  | .negSucc less =>
    let places := less + 1
    let fraction := d.digits % 10 ^ places
    let whole := (d.digits / 10 ^ places).repr
    if fraction = 0 then whole
    else
      whole ++ "." ++
        String.ofList (trimZeros ((Nat.toDigits 10 fraction).leftpad places '0'))

def positional (x : Float) : String :=
  match parts x with
  | .notANumber => "NaN"
  | .infinite negative => if negative then "-inf" else "inf"
  | .finite negative significand exponent =>
    let text := ((shortest significand exponent).map Digits.positional).getD "0"
    if negative then "-" ++ text else text

end AtaCapture.Decimal
