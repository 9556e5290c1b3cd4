import AtaCapture.Ata.Session
import AtaCapture.Program.Convert

/-!
Listing the events of a capture, or of a short session that is made up when no capture is
named. One category can be picked out, and the list can be cut off after some lines. A capture
that cannot be read to its end is listed as far as it goes.
-/

namespace AtaCapture.Program.Listing

structure Options where
  file : Option String := none
  /-- The most lines to print; zero sets no limit. -/
  limit : Nat := 0
  category : Option String := none
  deriving DecidableEq, Repr

def switches : List CommandLine.Switch :=
  [{ long := "file", short := some 'f' }, { long := "n", short := some 'n' },
    { long := "category" }]

def Options.read? (arguments : List String) : Option Options := do
  let given ← CommandLine.read switches arguments
  let [] := given.free | none
  let limit ← CommandLine.optionOr given "n" 0 CommandLine.natural?
  return { limit, file := given.value? "file", category := given.value? "category" }

def samples (o : Options) (tree : Tree) : Option (List Sample) :=
  match o.file with
  | some path => (tree.find? path).map fun entry => (Convert.readCapture entry).samples
  | none =>
    match Ata.inquiryCapture with
    | .ok bytes => some (Replay.decode bytes)
    | .error _ => none

def line (e : Ata.Event) : String :=
  Numeral.alignRight 12 e.start.repr ++ " " ++ Numeral.alignRight 12 e.stop.repr ++ "  " ++
    Numeral.alignLeft 12 e.category.id ++ " " ++ e.content.headline ++ "\n"

def select (category : Option Ata.Category) (limit : Nat) (events : List Ata.Event) :
    List Ata.Event :=
  let wanted := events.filter fun e => category.all (· = e.category)
  if limit = 0 then wanted else wanted.take limit

def unknownCategory (id : String) : String :=
  let known := Ata.Category.all.map fun c => c.id ++ " (" ++ c.description ++ ")"
  "unknown category '" ++ id ++ "', expected one of: " ++ ", ".intercalate known

def pick (o : Options) : Except String (Option Ata.Category) :=
  match o.category with
  | none => .ok none
  | some id =>
    match Ata.Category.ofId? id with
    | some category => .ok (some category)
    | none => .error (unknownCategory id)

def list (category : Option Ata.Category) (limit : Nat) (samples : List Sample) :
    Except Fault String := do
  let monitor ← Ata.Monitor.ofPinout .flat
  return String.join ((select category limit (monitor.events samples)).map line)

def run (arguments : List String) (tree : Tree) : Outcome :=
  match Options.read? arguments with
  | none => { ending := .usage, tree }
  | some o =>
    match samples o tree with
    | none => { ending := .system "the capture cannot be found", tree }
    | some samples =>
      match pick o with
      | .error text => { ending := .complaint ("Error: " ++ Quoted.encode text ++ "\n"), tree }
      | .ok category =>
        match list category o.limit samples with
        | .error fault => { ending := .system fault.message, tree }
        | .ok printed => { ending := .success, printed, tree }

end AtaCapture.Program.Listing
