import AtaCapture.Instances

/-!
A place to write bytes to, which may run full once. A write that would pass the limit stores
what still fits and fails; the space found after that has no limit. So what was stored up to
the failure is the beginning of what would have been stored without it.
-/

namespace AtaCapture

structure Output where
  held : ByteArray := .empty
  /-- The number of bytes at which the next write fails, if there is one. -/
  limit : Option Nat := none
  deriving DecidableEq, Inhabited

namespace Output

def full : String := "disk full"

def unlimited : Output := {}

def limited (limit : Nat) : Output := { limit := some limit }

def write (o : Output) (text : String) : Option String × Output :=
  let bytes := text.toUTF8
  match o.limit with
  | none => (none, { o with held := o.held ++ bytes })
  | some limit =>
    if o.held.size + bytes.size ≤ limit then (none, { o with held := o.held ++ bytes })
    else
      (some full,
        { held := o.held ++ bytes.extract 0 (limit - o.held.size), limit := none })

end Output

end AtaCapture
