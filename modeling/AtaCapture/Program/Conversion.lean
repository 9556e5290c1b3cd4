import AtaCapture.Ata.Monitor
import AtaCapture.Feed
import AtaCapture.Program.Outcome
import AtaCapture.Text.Quoted
import AtaCapture.Waveform.Dump

/-!
Converting a capture to a waveform next to it, and on demand to an event log as well. The
settings are checked before any file is touched. The waveform file is made before the capture
is read, and the capture is read again for the log; so a capture that is itself the waveform
file is empty when it is read first, and holds the finished waveform when it is read the second
time.
-/

namespace AtaCapture.Program.Convert

structure Options where
  capture : String
  /-- Address and data lines become buses. -/
  grouped : Bool := false
  /-- An event log is wanted as well. -/
  annotate : Bool := false
  divider : Nat := 5
  clock : Float := 150e6
  muxLimit : Nat := 25

namespace Options

def waveformPath (o : Options) : String := Path.withExtension o.capture "vcd"

def logPath (o : Options) : String := Path.withExtension o.capture "ata.txt"

def settings (o : Options) : Waveform.Settings := { divider := o.divider, clock := o.clock }

def pinout (o : Options) : Pinout := if o.grouped then .grouped else .flat

def monitor (o : Options) : Except Fault Ata.Monitor := do
  return { ← Ata.Monitor.ofPinout o.pinout with muxLimit := o.muxLimit }

def paths (o : Options) : List String := [o.capture, o.waveformPath, o.logPath]

end Options

/-! ### Reading a capture -/

/-- What a file gives to a reader; a directory can be opened and not read. -/
def readerOf : Entry → Reader
  | .file bytes => [.bytes bytes.data.toList]
  | .directory => [.failure "Is a directory"]

structure Intake where
  /-- The samples, each with the number of bytes read by then. -/
  drained : Array (Sample × Nat)
  /-- Why reading failed, if it did. -/
  failure : Option String

def Intake.samples (i : Intake) : List Sample := i.drained.toList.map Prod.fst

def readCapture (entry : Entry) : Intake :=
  let (drained, feed) := (Feed.start (readerOf entry) .standard Feed.fileBlock).drain
  { drained, failure := feed.failure }

def wordCount : Entry → Nat
  | .file bytes => bytes.size / 4
  | .directory => 0

/-! ### What is written -/

def progressInterval : Nat := 2 ^ 20

/-- The lines of progress, for a capture of about `total` samples. -/
def progress (total : Nat) (drained : Array (Sample × Nat)) : String :=
  String.join ((List.range (drained.size / progressInterval)).map fun i =>
    let count := (i + 1) * progressInterval
    let megabytes := ((drained[count - 1]?.map Prod.snd).getD 0) / 2 ^ 20
    s!"{count} transitions of about {total} ({megabytes} MB read)\n")

def waveform (o : Options) (samples : List Sample) : Except Fault ByteArray := do
  let dump ← Waveform.Dump.start .unlimited o.pinout o.settings
  let (written, dump) := dump.putAll samples
  let _ ← written
  match dump.finish with
  | (some fault, _) => throw fault
  | (none, output) => return output.held

def log (m : Ata.Monitor) (samples : List Sample) : Except Fault (ByteArray × Nat) := do
  let (tally, log) := m.run Ata.Log.sink { output := .unlimited } samples
  return (log.output.held, (← tally).events)

/-! ### The program -/

def stop (reason : String) (tree : Tree) : Outcome := { ending := .system reason, tree }

def annotate (o : Options) (tree : Tree) : Outcome :=
  .after ("Writing events to " ++ o.logPath) <|
    match o.monitor, tree.create o.logPath .empty with
    | .error fault, _ => stop fault.message tree
    | .ok _, none => stop "the event log cannot be created" tree
    | .ok monitor, some made =>
      match made.find? o.capture with
      | none => stop "the capture is gone" made
      | some entry =>
        let intake := readCapture entry
        match log monitor intake.samples, intake.failure with
        | .error fault, _ => stop fault.message made
        | .ok _, some reason => stop reason made
        | .ok (text, count), none =>
          .after s!"Done, total {count} events"
            { ending := .success, tree := (made.create o.logPath text).getD made }

def convert (o : Options) (total : Nat) (tree : Tree) : Outcome :=
  .after ("Writing to " ++ o.waveformPath) <|
    match tree.create o.waveformPath .empty with
    | none => stop "the waveform cannot be created" tree
    | some made =>
      match made.find? o.capture with
      | none => stop "the capture is gone" made
      | some entry =>
        let intake := readCapture entry
        match waveform o intake.samples, intake.failure with
        | .error fault, _ => stop fault.message made
        | .ok _, some reason => stop reason made
        | .ok text, none =>
          let written := (made.create o.waveformPath text).getD made
          let rest : Outcome :=
            if o.annotate then annotate o written else { ending := .success, tree := written }
          let count := intake.drained.size
          { rest with printed := progress total intake.drained ++
              s!"Done, total {count} transitions\n" ++ rest.printed }

def scaleComplaint (cause : ScaleFault) : String :=
  "Error: InvalidFormat(" ++ Quoted.encode cause.message ++ ")\n"

/-- The program, for command lines that `read?` understands. -/
def runWith (read? : List String → Option Options) (arguments : List String) (tree : Tree) :
    Outcome :=
  match read? arguments with
  | none => { ending := .usage, tree }
  | some o =>
    match o.settings.fault? with
    | some cause => { ending := .complaint (scaleComplaint cause), tree }
    | none =>
      match tree.find? o.capture with
      | none => stop "the capture cannot be found" tree
      | some entry => convert o (wordCount entry) tree

end AtaCapture.Program.Convert
