import AtaCapture.Decimal.Nearest

/-!
Reading a number from text: a sign, digits with at most one point among them, and an exponent;
or a word for an infinite number or for none at all. Nothing may stand around it.
-/

namespace AtaCapture.Decimal

def digitsValue (n : Nat) (digits : List Char) : Nat :=
  digits.foldl (fun n c => 10 * n + (c.toNat - '0'.toNat)) n

def splitSign : List Char → Bool × List Char
  | '-' :: rest => (true, rest)
  | '+' :: rest => (false, rest)
  | text => (false, text)

def readExponent : List Char → Option Int
  | [] => some 0
  | c :: rest =>
    if c = 'e' ∨ c = 'E' then
      let (negative, digits) := splitSign rest
      if digits ≠ [] ∧ digits.all Char.isDigit then
        let size : Int := digitsValue 0 digits
        some (if negative then -size else size)
      else none
    else none

def readUnsigned (text : List Char) : Option (Nat × Int) :=
  let (whole, rest) := text.span Char.isDigit
  let (fraction, rest) := match rest with
    | '.' :: rest => rest.span Char.isDigit
    | _ => ([], rest)
  if whole = [] ∧ fraction = [] then none
  else (readExponent rest).map fun exponent =>
    (digitsValue 0 (whole ++ fraction), exponent - fraction.length)

def read? (text : String) : Option Float :=
  let (negative, rest) := splitSign text.toList
  let word := rest.map Char.toLower
  if word = "inf".toList ∨ word = "infinity".toList then
    some (signed negative (2047 * 2 ^ 52))
  else if word = "nan".toList then some (signed negative (2047 * 2 ^ 52 + 2 ^ 51))
  else (readUnsigned rest).map fun (digits, exponent) => nearest negative digits exponent

end AtaCapture.Decimal
