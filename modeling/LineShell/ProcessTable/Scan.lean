import LineShell.ProcessTable
import LineShell.System.Files

/-!
# Finding processes

A directory of processes has a directory for each process, named by a number, with the
status line in its file `stat`. `ProcessTable.scan` lists the processes by the numbers in
their status lines. What is named otherwise, or has no status line, is left out.
-/

namespace LineShell

/-- Why no processes could be listed. -/
structure ScanError where
  root : Bytes
  error : IoError
deriving DecidableEq, Repr

/-- The words for a directory that could not be read. -/
def ScanError.message (e : ScanError) : Bytes :=
  Utf8.ofString "cannot read " ++ e.root ++ Utf8.ofString ": " ++ e.error.message

namespace ProcessTable

/-- The path of a name in a directory. -/
def join (directory name : Bytes) : Bytes :=
  if Path.hasTrailingSlash directory then directory ++ name
  else directory ++ Path.slash :: name

/-- The name is the number of a process. -/
def isNumber (name : Bytes) : Bool :=
  ((Utf8.decode? name).bind Decimal.integer?).isSome

/-- The user to whom a path belongs. -/
def owner? (files : Files) (view : View) (path : Bytes) : Option Nat :=
  match files.resolveNode view path with
  | .ok id => files.inodes[id]?.map Inode.owner
  | .error _ => none

/-- The status line in a file. -/
def stat? (files : Files) (view : View) (path : Bytes) : Option Stat :=
  match files.content view path with
  | .ok bytes => (Utf8.decode? bytes).bind Stat.parse?
  | .error _ => none

/-- The process at a path. -/
def process? (users : Nat → Option Text) (files : Files) (view : View) (path : Bytes) :
    Option ProcessEntry := do
  let uid ← owner? files view path
  let stat ← stat? files view (join path (Utf8.ofString "stat"))
  return ⟨stat.pid, uid, userName users uid, stat.name, stat.state⟩

/-- The processes in the directory to which `root` leads, in ascending order. -/
def scan (users : Nat → Option Text) (files : Files) (view : View) (root : Bytes) :
    Except ScanError (List ProcessEntry) :=
  if root.contains 0 then .error ⟨root, .zeroInName⟩
  else match files.resolveDirectory view root with
    | .error e => .error ⟨root, .system e⟩
    | .ok id =>
      let names := ((files.entries id).map Prod.fst).filter isNumber
      .ok ((names.filterMap fun name => process? users files view (join root name)).mergeSort
        fun a b => a.pid ≤ b.pid)

end ProcessTable

end LineShell
