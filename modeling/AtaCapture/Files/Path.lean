/-!
Paths as text. The last component of a path names a file unless it is one of the two dots;
blank components and single dots at the end do not count. The stem of a name is what stands
before its last dot, but a dot at the very front begins no extension.
-/

namespace AtaCapture.Path

/-- Drops what does not count at the end of a path, given from its end. -/
def trimEnd : List Char → List Char
  | '/' :: rest => trimEnd rest
  | '.' :: '/' :: rest => trimEnd rest
  | path => path

/-- The stem of a name given from its end, again from its end. -/
def stemEnd (name : List Char) : List Char :=
  match name.dropWhile (· ≠ '.') with
  | '.' :: c :: stem => c :: stem
  | _ => name

/-- The path with another extension for its last component. A path that names no file stays as
it is. So does one that names none without its old extension: where a single dot is the stem
and nothing follows the name, the two dots are left. -/
def withExtension (path extension : String) : String :=
  let reversed := path.toList.reverse
  let (name, folder) := (trimEnd reversed).span (· ≠ '/')
  let stem := stemEnd name
  if name = [] ∨ name = ['.'] ∨ name = ['.', '.'] then path
  else if stem = ['.'] ∧ trimEnd reversed = reversed then
    String.ofList (['.', '.'] ++ folder).reverse
  else String.ofList (stem ++ folder).reverse ++ "." ++ extension

def components (path : List Char) : List (List Char) :=
  path.foldr (fun c parts => if c = '/' then [] :: parts else
    match parts with
    | part :: rest => (c :: part) :: rest
    | [] => [[c]]) [[]]

end AtaCapture.Path
