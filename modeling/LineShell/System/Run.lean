import LineShell.System.Step

/-!
# Running a system

`System.run` lets the processes take steps in turn until the shell has executed its
line. `System.host` is the world of a session whose shell is process 0 of a system, and
`System.boot` is a system with a shell alone.
-/

namespace LineShell.System

variable {σ : Type}

/-- Let every process in the list take a step, if it can, and say whether one did. -/
def round (m : Machine σ) : List Pid → System σ × Bool → System σ × Bool
  | [], r => r
  | pid :: pids, (s, moved) =>
    match s.step? m pid with
    | some s => round m pids (s, true)
    | none => round m pids (s, moved)

/-- The result of the shell's line, once it has been executed. -/
def result? (s : System σ) : Option ExecResult :=
  match s.task? shell with
  | some (.executed r) => some r
  | _ => none

/-- Let the processes take steps in turn, for so many rounds, until the shell's line has
been executed or no process can take a step. -/
def run (m : Machine σ) : Nat → System σ → System σ
  | 0, s => s
  | n + 1, s =>
    if s.result?.isSome then s
    else match round m (List.range s.processes.size) (s, false) with
      | (s, true) => run m n s
      | (s, false) => s

/-- The rounds after which a line is given up. -/
def patience : Nat := Nat.pow 2 24

/-- Give the shell a task. -/
def setShellTask (s : System σ) (t : Task σ) : System σ :=
  match s.processes[shell]? with
  | some p => s.setTask shell p t
  | none => s

/-- Execute a command as the shell does. A line that does not end within `patience`
rounds counts as interrupted. -/
def execute (m : Machine σ) (c : Command) (s : System σ) : ExecResult × System σ :=
  let s := run m patience (s.setShellTask (.execute c))
  (s.result?.getD (.error (.wait shell ⟨4⟩)), s)

/-- The directory of the shell. -/
def directory (s : System σ) : NodeId :=
  (s.processes[shell]?.map Process.directory).getD 0

/-- The tree as the shell looks at it. -/
def shellView (s : System σ) : View :=
  match s.processes[shell]? with
  | some p => s.view p
  | none => { directory := 0 }

/-- Change the directory of the shell. -/
def changeDirectory (path : Text) (s : System σ) : Except IoError Unit × System σ :=
  if path.contains (Char.ofNat 0) then (.error .zeroInName, s)
  else match s.files.resolveDirectory s.shellView (Utf8.encode path) with
    | .error e => (.error (.system e), s)
    | .ok id =>
      match s.processes[shell]? with
      | some p => (.ok (), s.setProcess shell { p with directory := id })
      | none => (.ok (), s)

/-- A system with a shell alone. Descriptor 0 is the node `input`, and descriptors 1 and
2 are empty files without a name in the tree. -/
def bootOn (files : Files) (directory : NodeId) (input : NodeId) : System σ :=
  let (stdout, files) := files.addNode (.file [] false)
  let (stderr, files) := files.addNode (.file [] false)
  { files := files
    openFiles := #[⟨input, .read, 0⟩, ⟨stdout, .write, 0⟩, ⟨stderr, .write, 0⟩]
    processes := #[{
      task := .executed (.ok 0)
      descriptors := ⟨[some { stream := .file 0 }, some { stream := .file 1 },
        some { stream := .file 2 }]⟩
      directory := directory }] }

/-- A system with a shell alone. Descriptor 0 is a file that holds `input`. It has no
name in the tree. -/
def boot (files : Files) (directory : NodeId) (input : Bytes) : System σ :=
  let (stdin, files) := files.addNode (.file input false)
  bootOn files directory stdin

/-- The system with nothing left of the lines executed before but the tree and the
shell's directory. -/
def renew (s : System σ) : System σ :=
  boot s.files s.directory []

/-- The system with a descriptor of the shell closed. -/
def closeInShell (n : Nat) (s : System σ) : System σ :=
  match s.processes[shell]? with
  | some p => s.setProcess shell { p with descriptors := p.descriptors.close n }
  | none => s

/-- What was written to the file that `boot` opened as descriptor `n`. -/
def collected (s : System σ) (n : Nat) : Bytes :=
  match s.openFiles[n]? with
  | some o =>
    match s.files.node? o.node with
    | some (.file content _) => content
    | _ => []
  | none => []

/-- The shell writes bytes to one of its descriptors. What nobody takes is lost. -/
def writeFromShell (s : System σ) (n : Nat) (data : Bytes) : System σ :=
  match s.processes[shell]?.bind fun p => p.descriptors.get? n with
  | none => s
  | some h =>
    match s.writeTo h.stream data with
    | .answer _ s => s
    | _ => s

/-- The shell reads from one of its descriptors. -/
def readFromShell (s : System σ) (n count : Nat) : Except Errno Bytes × System σ :=
  match s.processes[shell]?.bind fun p => p.descriptors.get? n with
  | none => (.error .badDescriptor, s)
  | some h =>
    match s.readFrom h.stream count with
    | .answer a s => (a, s)
    | _ => (.ok [], s)

/-- The world of a session. -/
def host (m : Machine σ) : Host (System σ) where
  changeDirectory := changeDirectory
  execute := execute m
  report message s := s.writeFromShell 2 message

end LineShell.System
