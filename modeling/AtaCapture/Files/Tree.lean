import AtaCapture.Files.Path
import AtaCapture.Instances

/-!
Files and directories as a program sees them. Places are lists of names from the root, a path
starts at the root or at the working directory, and all parts of a path but the last have to
lead to directories. A program makes files and overwrites them, and the difference between two
trees is what it has done.
-/

namespace AtaCapture

inductive Entry where
  | file (bytes : ByteArray)
  | directory
  deriving DecidableEq

structure Tree where
  /-- The working directory. -/
  here : List String
  entries : List (List String × Entry)
  deriving DecidableEq

namespace Tree

def nameLimit : Nat := 255

def pathLimit : Nat := 4095

/-- Whether a place leads to an entry, or to the working directory. -/
def isAbove (t : Tree) (place : List String) : Bool :=
  place.isPrefixOf t.here || t.entries.any fun entry => place.isPrefixOf entry.1

/-- What stands at a place. Directories on the way to an entry need no entry of their own. -/
def at? (t : Tree) (place : List String) : Option Entry :=
  match t.entries.find? fun entry => entry.1 = place with
  | some entry => some entry.2
  | none => if t.isAbove place then some .directory else none

def isDirectory (t : Tree) (place : List String) : Bool := t.at? place = some .directory

/-! ### Paths -/

/-- Where one part of a path leads. The root is its own parent. -/
def follow (place : List String) (part : List Char) : List String :=
  if part = [] ∨ part = ['.'] then place
  else if part = ['.', '.'] then place.dropLast
  else place ++ [String.ofList part]

def walk (t : Tree) (place : List String) : List (List Char) → Option (List String)
  | [] => some place
  | part :: rest => if t.isDirectory place then t.walk (follow place part) rest else none

def parts (t : Tree) (path : String) : List String × List (List Char) :=
  match path.toList with
  | '/' :: rest => ([], Path.components rest)
  | text => (t.here, Path.components text)

/-- Where a path leads if all directories on it are there. -/
def lexical (t : Tree) (path : String) : List String :=
  (t.parts path).2.foldl follow (t.parts path).1

def place? (t : Tree) (path : String) : Option (List String) :=
  if path.isEmpty || pathLimit < path.utf8ByteSize then none
  else t.walk (t.parts path).1 (t.parts path).2

def find? (t : Tree) (path : String) : Option Entry := (t.place? path).bind t.at?

/-! ### Changes -/

def put (t : Tree) (place : List String) (bytes : ByteArray) : Tree :=
  { t with
    entries := t.entries.filter (fun entry => entry.1 ≠ place) ++ [(place, .file bytes)] }

/-- Puts a file where a path leads. A directory is not replaced. -/
def create (t : Tree) (path : String) (bytes : ByteArray) : Option Tree :=
  match t.place? path with
  | none => none
  | some place =>
    if t.isDirectory place then none
    else if nameLimit < (place.getLastD "").utf8ByteSize then none
    else some (t.put place bytes)

def changes (before after : Tree) : List (List String × ByteArray) :=
  after.entries.filterMap fun entry =>
    match entry.2 with
    | .directory => none
    | .file bytes =>
      if before.at? entry.1 = some (.file bytes) then none else some (entry.1, bytes)

end Tree

end AtaCapture
