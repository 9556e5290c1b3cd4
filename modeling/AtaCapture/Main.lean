import AtaCapture.Program.Listing

/-!
The command line. The first argument says whether to convert a capture or to list its events,
the others are for that program. The files it may look at are read before it runs, and those it
has changed are written after it.
-/

namespace AtaCapture

def probe (path : String) : IO (Option Entry) := do
  try
    let resolved ← IO.FS.realPath path
    if ← resolved.isDir then return some .directory
    return some (.file (← IO.FS.readBinFile resolved))
  catch _ =>
    return none

/-- The beginnings of a path up to each of its slashes, and the path itself. -/
def stages (path : String) : List String :=
  let text := path.toList
  let cuts := (List.range text.length).filter fun i => text[i]? = some '/'
  cuts.map (fun i => String.ofList (text.take (i + 1))) ++ [path]

def load (paths : List String) : IO Tree := do
  let names := (Path.components (← IO.currentDir).toString.toList).filter (· ≠ [])
  let mut tree : Tree := { here := names.map String.ofList, entries := [] }
  for path in paths.flatMap stages do
    if let some entry ← probe path then
      tree := { tree with entries := tree.entries ++ [(tree.lexical path, entry)] }
  return tree

def perform (before : Tree) (o : Program.Outcome) : IO UInt32 := do
  for (place, bytes) in before.changes o.tree do
    IO.FS.writeBinFile ("/" ++ "/".intercalate place) bytes
  IO.print o.printed
  match o.ending with
  | .success => pure ()
  | .usage => IO.eprintln "error: the arguments are not understood"
  | .system reason => IO.eprintln ("Error: " ++ reason)
  | .complaint text => IO.eprint text
  return o.ending.exitCode.toUInt32

def Program.paths (program : String) (arguments : List String) : List String :=
  if program = "convert" then ((Convert.Options.read? arguments).map (·.paths)).getD []
  else ((Listing.Options.read? arguments).bind (·.file)).toList

end AtaCapture

open AtaCapture in
def main (arguments : List String) : IO UInt32 := do
  match arguments with
  | "convert" :: rest =>
    let tree ← load (Program.paths "convert" rest)
    perform tree (Program.Convert.run rest tree)
  | "events" :: rest =>
    let tree ← load (Program.paths "events" rest)
    perform tree (Program.Listing.run rest tree)
  | _ =>
    IO.eprintln "usage: convert CAPTURE [options] | events [options]"
    return 2
