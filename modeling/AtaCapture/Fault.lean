import AtaCapture.Decimal.Positional
import AtaCapture.Text.Numeral

/-!
What can be wrong with settings, captures and their consumers. A fault is a cause with the
values that show it; `Fault.message` is the only place that words it.
-/

namespace AtaCapture

inductive LayoutFault where
  | widths (delayBits payloadBits : Nat)
  | delayWidth (delayBits : Nat)
  | zeroTick
  | idleMaximum (idleLimit : Nat)
  deriving DecidableEq, Repr

inductive PinoutFault where
  | empty
  | zeroWidth (name : String)
  | overlap (name : String) (bit : Nat)
  | uncovered (first bound : Nat)
  | tooWide (width : Nat)
  | duplicateSymbol (symbol : String)
  deriving DecidableEq, Repr

/-- Why a level vector or an end of recording cannot be written as words. -/
inductive EncodingFault where
  | wideVector (levels payloadBits : Nat)
  | notLater (time reached : Nat)
  | offTick (time tick : Nat)
  | unreachable (units : Nat)
  deriving DecidableEq, Repr

inductive ScaleFault where
  | zeroDivider
  | clock (hertz : Float)
  | unitLength (picoseconds : Float)
  deriving Repr

inductive Fault where
  /-- Something outside the library failed: a read, a write, a consumer of events. -/
  | device (reason : String)
  | pinout (cause : PinoutFault)
  | missingLine (name : String)
  | layout (cause : LayoutFault)
  | scale (cause : ScaleFault)
  | encoding (cause : EncodingFault)
  deriving Repr

def LayoutFault.message : LayoutFault → String
  | .widths delayBits payloadBits =>
    s!"delay ({delayBits}) and payload ({payloadBits}) bits must fill a 32-bit word"
  | .delayWidth delayBits => s!"delay code width must be 1-8 bits, got {delayBits}"
  | .zeroTick => "tick unit must be non-zero"
  | .idleMaximum idleLimit => "idle maximum 0x" ++ Numeral.upperHex 1 idleLimit ++
      " does not fit the payload"

def PinoutFault.message : PinoutFault → String
  | .empty => "no signals defined"
  | .zeroWidth name => s!"signal '{name}' has zero width"
  | .overlap name bit => s!"signal '{name}' at bit {bit} overlaps the previous signal"
  | .uncovered first bound => s!"bits {first}..{bound} are not covered by any signal"
  | .tooWide width => s!"total width {width} exceeds 64 bits"
  | .duplicateSymbol symbol => s!"duplicate symbol '{symbol}'"

def EncodingFault.message : EncodingFault → String
  | .wideVector levels payloadBits =>
    "vector 0x" ++ Numeral.upperHex 1 levels ++ s!" wider than {payloadBits} bits"
  | .notLater time reached => s!"timestamp {time} does not advance past {reached}"
  | .offTick time tick => s!"timestamp {time} is not a multiple of the tick unit {tick}"
  | .unreachable units => s!"no words cover a gap of {units} units"

def ScaleFault.message : ScaleFault → String
  | .zeroDivider => "VCD divider must be at least 1"
  | .clock hertz => "CPU frequency must be a positive number of Hz, got " ++
      Decimal.positional hertz
  | .unitLength picoseconds =>
    "timescale of " ++ Decimal.positional picoseconds ++ " ps cannot be written"

namespace Fault

def message : Fault → String
  | .device reason => "IO error: " ++ reason
  | .pinout cause => "Invalid signal map: " ++ cause.message
  | .missingLine name => s!"Signal '{name}' is not present in the signal map"
  | .layout cause => "Invalid trace format: " ++ cause.message
  | .scale cause => "Invalid trace format: " ++ cause.message
  | .encoding cause => "Cannot encode: " ++ cause.message

end Fault

end AtaCapture
