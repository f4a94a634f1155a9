import LineShell.Program.Comparing
import LineShell.Program.Columns
import LineShell.Program.Condition
import LineShell.Program.Copying
import LineShell.Program.Counting
import LineShell.Program.Dumping
import LineShell.Program.Ends
import LineShell.Program.Environment
import LineShell.Program.Expression
import LineShell.Program.Folding
import LineShell.Program.Formatting
import LineShell.Program.Identity
import LineShell.Program.Joining
import LineShell.Program.Listing
import LineShell.Program.Moving
import LineShell.Program.Names
import LineShell.Program.Neighbours
import LineShell.Program.Numbering
import LineShell.Program.Removing
import LineShell.Program.Searching
import LineShell.Program.Sequence
import LineShell.Program.Sh.Run
import LineShell.Program.Sorting
import LineShell.Program.Starting
import LineShell.Program.Translating
import LineShell.Program.Turning
import LineShell.Program.Writing

/-!
# The programs of a system

`Catalogue.utility?` gives a program by its name, and `Catalogue.names` lists the names.
The programs of `Catalogue.starting` start others, by the launcher that they are given.
-/

namespace LineShell.Program.Catalogue

/-- The programs that run alone. -/
def alone : List (String × Utility) :=
  [("true", succeed), ("false", fail), ("echo", echo), ("printf", printf), ("seq", seq),
    ("yes", yes), ("sleep", sleep), ("basename", basename), ("dirname", dirname),
    ("test", test), ("[", bracket), ("expr", expr),
    ("cat", cat), ("tee", tee), ("head", head), ("tail", tail), ("wc", wc), ("cmp", cmp),
    ("sort", sort), ("uniq", uniq), ("rev", rev), ("tac", tac), ("nl", nl), ("cut", cut),
    ("tr", tr), ("fold", fold), ("paste", paste), ("comm", comm), ("od", od), ("grep", grep),
    ("touch", touch), ("mkdir", mkdir), ("rmdir", rmdir), ("rm", rm), ("unlink", unlink),
    ("ln", ln), ("link", link), ("cp", cp), ("mv", mv), ("ls", ls), ("pwd", pwd), ("readlink", readlink),
    ("chmod", chmod), ("whoami", whoami), ("id", identify), ("tty", tty), ("printenv", printenv)]

/-- The programs that start others. -/
def starting : List (String × (Launcher → Utility)) :=
  [("env", env), ("nohup", nohup), ("nice", nice), ("timeout", timeout), ("sh", Sh.sh),
    ("dash", Sh.sh)]

/-- The names of all programs. -/
def names : List Bytes := (alone.map Prod.fst ++ starting.map Prod.fst).map lit

/-- The program with a name. -/
def utility? (launcher : Launcher) (name : Bytes) : Option Utility :=
  match alone.find? fun e => lit e.1 = name with
  | some e => some e.2
  | none => (starting.find? fun e => lit e.1 = name).map fun e => e.2 launcher

end LineShell.Program.Catalogue
