import AtaCapture.Files.Tree

/-!
What a program leaves behind: how it ended, what it printed and the files as they are
afterwards. Programs are functions from the arguments and the files to an outcome.
-/

namespace AtaCapture.Program

inductive Ending where
  | success
  /-- The command line was refused. -/
  | usage
  /-- The file system refused something. -/
  | system (reason : String)
  /-- The program has something to say about what it was given. -/
  | complaint (text : String)
  deriving DecidableEq, Repr

structure Outcome where
  ending : Ending
  printed : String := ""
  tree : Tree

namespace Ending

def exitCode : Ending → Nat
  | .success => 0
  | .usage => 2
  | .system _ => 1
  | .complaint _ => 1

end Ending

namespace Outcome

def after (line : String) (o : Outcome) : Outcome :=
  { o with printed := line ++ "\n" ++ o.printed }

end Outcome

end AtaCapture.Program
