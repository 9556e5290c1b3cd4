import AtaCapture.CommandLine.Arguments
import AtaCapture.Decimal.Reader
import AtaCapture.Program.Conversion

/-!
The conversion as a program: its command line is read into options, and everything else depends
on these.
-/

namespace AtaCapture.Program.Convert

def switches : List CommandLine.Switch :=
  [{ long := "grouped", takesValue := false }, { long := "annotate", takesValue := false },
   { long := "divider" }, { long := "cpu-freq" }, { long := "ctrl-mux-threshold" }]

/-- The options on a command line. There has to be one capture, with a name. -/
def Options.read? (arguments : List String) : Option Options := do
  let given ← CommandLine.read switches arguments
  let [capture] := given.free | none
  if capture.isEmpty then none
  let standard : Options := { capture }
  let divider ← CommandLine.optionOr given "divider" standard.divider CommandLine.natural?
  let clock ← CommandLine.optionOr given "cpu-freq" standard.clock Decimal.read?
  let muxLimit ←
    CommandLine.optionOr given "ctrl-mux-threshold" standard.muxLimit CommandLine.natural?
  return { capture, divider, clock, muxLimit,
           grouped := given.has "grouped", annotate := given.has "annotate" }

def run (arguments : List String) (tree : Tree) : Outcome :=
  runWith Options.read? arguments tree

end AtaCapture.Program.Convert
