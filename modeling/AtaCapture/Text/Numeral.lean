/-!
Numerals as labels, messages and waveforms show them: the digits of a number in some base,
padded on the left with zeros up to a least width. A numeral that is longer than the width is
kept whole.
-/

namespace AtaCapture.Numeral

def lowerHex (width n : Nat) : String :=
  String.ofList ((Nat.toDigits 16 n).leftpad width '0')

def upperHex (width n : Nat) : String :=
  String.ofList (((Nat.toDigits 16 n).map Char.toUpper).leftpad width '0')

def binary (width n : Nat) : String :=
  String.ofList ((Nat.toDigits 2 n).leftpad width '0')

/-! ### Columns -/

def alignRight (width : Nat) (text : String) : String :=
  String.ofList (text.toList.leftpad width ' ')

def alignLeft (width : Nat) (text : String) : String :=
  String.ofList (text.toList.rightpad width ' ')

end AtaCapture.Numeral
