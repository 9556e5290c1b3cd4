import AtaCapture.Instances

/-!
Bytes read as text when they need not be text. Well-formed sequences give their characters; of
what is left, each longest stretch that could still have begun a character gives one
replacement character. A file cut in the middle of a character ends with one such mark.
-/

namespace AtaCapture.Lenient

def replacement : Char := Char.ofNat 0xFFFD

/-- The bytes that may follow the lead byte of a sequence: their number, and the range of the
first. -/
def followers (lead : Nat) : Option (Nat × Nat × Nat) :=
  if 0xC2 ≤ lead ∧ lead ≤ 0xDF then some (1, 0x80, 0xBF)
  else if lead = 0xE0 then some (2, 0xA0, 0xBF)
  else if lead = 0xED then some (2, 0x80, 0x9F)
  else if 0xE1 ≤ lead ∧ lead ≤ 0xEF then some (2, 0x80, 0xBF)
  else if lead = 0xF0 then some (3, 0x90, 0xBF)
  else if 0xF1 ≤ lead ∧ lead ≤ 0xF3 then some (3, 0x80, 0xBF)
  else if lead = 0xF4 then some (3, 0x80, 0x8F)
  else none

/-- A sequence under way: bytes still to come, the range of the next one and the bits so
far. -/
structure Open where
  missing : Nat
  low : Nat
  high : Nat
  bits : Nat

/-- The state after a byte that starts something new, behind the characters `out` in
reverse. -/
def start (out : List Char) (byte : Nat) : List Char × Option Open :=
  if byte < 0x80 then (Char.ofNat byte :: out, none)
  else match followers byte with
    | none => (replacement :: out, none)
    | some (missing, low, high) =>
      (out, some { missing, low, high, bits := byte % 2 ^ (6 - missing) })

def step : List Char × Option Open → UInt8 → List Char × Option Open
  | (out, none), byte => start out byte.toNat
  | (out, some o), byte =>
    if o.low ≤ byte.toNat ∧ byte.toNat ≤ o.high then
      let bits := o.bits * 64 + byte.toNat % 64
      if o.missing ≤ 1 then (Char.ofNat bits :: out, none)
      else (out, some { missing := o.missing - 1, low := 0x80, high := 0xBF, bits })
    else start (replacement :: out) byte.toNat

def decode (bytes : ByteArray) : String :=
  let (out, o) := bytes.data.toList.foldl step ([], none)
  String.ofList (if o.isSome then replacement :: out else out).reverse

end AtaCapture.Lenient
