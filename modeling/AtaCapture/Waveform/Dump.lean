import AtaCapture.Output
import AtaCapture.Pinout
import AtaCapture.Sample
import AtaCapture.Waveform.Settings

/-!
Waveforms as value change dumps: a header that declares the signals of a pinout, then a line
for every sample with its time and the value of every signal. The header comes before the first
sample, or at the end if there is none. It counts as written when all of it is; one that failed
half-way is written again from its start.
-/

namespace AtaCapture.Waveform

/-! ### Text -/

def declaration (s : Signal) : String :=
  "$var wire " ++ s.width.repr ++ " " ++ s.symbol ++ " " ++ s.name ++ " $end\n"

def header (p : Pinout) (s : Settings) : String :=
  "$version " ++ s.version ++ " $end\n" ++ "$timescale " ++ s.scaleText ++ " $end\n" ++
    "$scope module ide $end\n" ++ String.join (p.signals.map declaration) ++
    "$upscope $end\n" ++ "$enddefinitions $end\n" ++ "\n"

/-- The value of a signal: a digit for a single line, all binary digits for a bus. -/
def valueText (s : Signal) (sample : Sample) : String :=
  let value := sample.bus s.bit s.width
  if s.width = 1 then " " ++ value.repr ++ s.symbol
  else " b" ++ Numeral.binary s.width value ++ " " ++ s.symbol

def sampleLine (p : Pinout) (s : Settings) (sample : Sample) : String :=
  "#" ++ (sample.time / s.divider).repr ++
    String.join (p.signals.map fun signal => valueText signal sample) ++ "\n"

/-! ### Writing -/

structure Dump where
  output : Output
  pinout : Pinout
  settings : Settings
  headed : Bool := false
  /-- The samples written. -/
  count : Nat := 0
  deriving Inhabited

namespace Dump

def start (output : Output) (pinout : Pinout) (settings : Settings) : Except Fault Dump := do
  settings.check
  return { output, pinout, settings }

def putHeader (d : Dump) : Option Fault × Dump :=
  if d.headed then (none, d)
  else match d.output.write (header d.pinout d.settings) with
    | (some reason, output) => (some (.device reason), { d with output })
    | (none, output) => (none, { d with output, headed := true })

def putSample (d : Dump) (sample : Sample) : Option Fault × Dump :=
  match d.putHeader with
  | (some fault, d) => (some fault, d)
  | (none, d) =>
    match d.output.write (sampleLine d.pinout d.settings sample) with
    | (some reason, output) => (some (.device reason), { d with output })
    | (none, output) => (none, { d with output, count := d.count + 1 })

def putSamples (d : Dump) : List Sample → Option Fault × Dump
  | [] => (none, d)
  | sample :: rest =>
    match d.putSample sample with
    | (some fault, d) => (some fault, d)
    | (none, d) => d.putSamples rest

def putAll (d : Dump) (samples : List Sample) : Except Fault Nat × Dump :=
  match d.putSamples samples with
  | (some fault, d) => (.error fault, d)
  | (none, after) => (.ok (after.count - d.count), after)

def finish (d : Dump) : Option Fault × Output :=
  let (fault, d) := d.putHeader
  (fault, d.output)

end Dump

end AtaCapture.Waveform
