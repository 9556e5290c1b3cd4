import AtaCapture.Decimal.Rounding
import AtaCapture.Fault

/-!
Waveform settings. The time unit of a waveform is a number of capture ticks; with the clock
that counted them it has a length in picoseconds, which the waveform states as a whole number.
-/

namespace AtaCapture.Waveform

structure Settings where
  /-- Capture ticks of a time unit. -/
  divider : Nat := 5
  /-- The clock of the recorder in hertz. -/
  clock : Float := 150e6
  /-- What the waveform says about its origin. -/
  version : String := "ZuluIDE RP2350 Sniffer"
  deriving Inhabited

namespace Settings

def unitLength (s : Settings) : Float := s.divider.toUInt64.toFloat / s.clock * 1e12

def wholeLength (s : Settings) : Nat := Decimal.toNatural s.unitLength

def lengthBound : Float := 18446744073709551616

/-- The first thing that keeps the settings from giving a time scale. -/
def fault? (s : Settings) : Option ScaleFault :=
  if s.divider = 0 then some .zeroDivider
  else if !s.clock.isFinite || s.clock ≤ 0 then some (.clock s.clock)
  else if s.wholeLength = 0 || lengthBound ≤ s.unitLength then some (.unitLength s.unitLength)
  else none

def check (s : Settings) : Except Fault Unit :=
  match s.fault? with
  | some cause => .error (.scale cause)
  | none => .ok ()

def scaleText (s : Settings) : String := s.wholeLength.repr ++ "ps"

end Settings

end AtaCapture.Waveform
