import AtaCapture.Text.Joining
import AtaCapture.Text.NoGlyph

/-!
Which characters can be shown by themselves.
-/

namespace AtaCapture.Printable

/-- The character has a glyph and does not join the one before it. -/
def isPrintable (c : Char) : Bool :=
  !NoGlyph.ranges.contains c.toNat && !Joining.ranges.contains c.toNat

end AtaCapture.Printable
