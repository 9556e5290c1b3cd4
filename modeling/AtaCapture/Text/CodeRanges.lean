/-!
Sets of characters as ranges of code points. The ranges of a set ascend and lie apart, so that
a look for a code point can stop at the first range behind it.
-/

namespace AtaCapture

/-- Ranges of code points, each with its first and its last one. -/
abbrev CodeRanges := List (Nat × Nat)

namespace CodeRanges

def contains : CodeRanges → Nat → Bool
  | [], _ => false
  | (first, last) :: rest, code =>
    if code < first then false else decide (code ≤ last) || contains rest code

end CodeRanges

end AtaCapture
