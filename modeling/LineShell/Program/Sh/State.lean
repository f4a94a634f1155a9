import LineShell.Program.Channel
import LineShell.Program.Sh.Statement

/-!
# Shells at work

A `State` is what a running shell remembers: its parameters and variables, its functions,
its options, and where it finds the standard streams. A `Shell` is something that it does,
which can change the state, and which an `Interruption` can cut short.
-/

namespace LineShell.Program.Sh

open Routine

/-- What cuts short what a shell does. -/
inductive Interruption where
  /-- The shell ends with a status. -/
  | exit (status : Nat)
  /-- So many loops, and one more, are left. -/
  | leave (loops : Nat)
  /-- So many loops are left, and the next begins another round. -/
  | again (loops : Nat)
  /-- The function ends. -/
  | back
deriving DecidableEq, Repr

/-- The status that an ended program leaves. -/
def statusOf : Ending → Nat
  | .exited code => code
  | .killed signal => 128 + signal

/-- A variable. -/
structure Variable where
  value : Option Bytes := none
  /-- Programs find it in their environment. -/
  isExported : Bool := false
  /-- It keeps its value. -/
  isFixed : Bool := false
deriving DecidableEq, Repr

/-- The state of a running shell. -/
structure State where
  /-- The name of the script. -/
  name : Bytes
  arguments : List Bytes := []
  bindings : List (Bytes × Variable) := []
  functions : List (Bytes × Statement) := []
  /-- The letters of the options that are on. -/
  options : Bytes := []
  /-- The status of the last command. -/
  status : Nat := 0
  /-- The status of the last script whose output a word has taken. -/
  answer : Nat := 0
  /-- The line of the command at work. -/
  line : Nat := 1
  /-- The command of the shell itself that is at work. -/
  command : Bytes := []
  /-- The status of the statement at work is looked at. -/
  tested : Bool := false
  /-- Nothing is left to do behind the statement at work. -/
  last : Bool := false
  /-- How many loops are at work. -/
  loops : Nat := 0
  /-- How many functions are at work. -/
  depth : Nat := 0
  /-- The variables of the function at work, as they were before. -/
  locals : List (Bytes × Option Variable) := []
  /-- What to do at a signal, or for number 0 at the end. -/
  traps : List (Nat × Bytes) := []
  /-- The descriptors of the standard streams. -/
  stream : Nat → Option Nat := some
  /-- The programs for which nobody has waited yet. -/
  jobs : List (Routine Unit) := []
  /-- The mask for the modes of new files. -/
  mask : Nat := 0o022

/-- Something that a shell does. -/
abbrev Shell (α : Type) := ExceptT Interruption (StateT State Routine) α

namespace State

/-- A variable. -/
def find? (s : State) (name : Bytes) : Option Variable := s.bindings.lookup name

/-- Put a variable in the place of the one with its name, or behind all others. -/
def setVariable (s : State) (name : Bytes) (v : Variable) : State :=
  { s with bindings :=
      if (s.bindings.lookup name).isSome then
        s.bindings.map fun e => if e.1 = name then (name, v) else e
      else s.bindings ++ [(name, v)] }

/-- Give a variable a value. -/
def assign (s : State) (name value : Bytes) : State :=
  s.setVariable name { (s.find? name).getD {} with value := some value }

/-- The place of a name in the order in which programs find variables. -/
def rank (name : Bytes) : Nat :=
  ((name.headD 0).toNat * 16 + name.foldl (fun n b => n + b.toNat) 0) % 39

/-- The environment of the programs that the shell starts. -/
def environment (s : State) : List (Bytes × Bytes) :=
  let exported := s.bindings.filterMap fun e =>
    if e.2.isExported then e.2.value.map fun v => (e.1, v) else none
  exported.mergeSort fun a b => rank a.1 ≤ rank b.1

/-- An option is on. -/
def has (s : State) (letter : Char) : Bool := s.options.contains (UInt8.ofNat letter.toNat)

/-- The bytes at which values are cut. -/
def separators (s : State) : Bytes :=
  ((s.find? (lit "IFS")).bind Variable.value).getD (lit " \t\n")

/-- The value of a parameter other than the list of all arguments, if it has one. -/
def value? (s : State) (pid : Nat) (name : Bytes) : Option Bytes :=
  match number? name with
  | some 0 => some s.name
  | some n => s.arguments[n - 1]?
  | none =>
    if name = lit "?" then some (digits s.status)
    else if name = lit "#" then some (digits s.arguments.length)
    else if name = lit "$" then some (digits pid)
    else if name = lit "-" then some s.options
    else (s.find? name).bind Variable.value

end State

namespace Shell

/-- Let a routine do something, with the streams and the environment of the shell. -/
def act {α : Type} (p : Routine α) : Shell α := do
  let s ← get
  (redirected s.stream (inEnvironment s.environment p) : Routine α)

/-- End the shell. -/
def leave {α : Type} (status : Nat) : Shell α := throw (.exit status)

/-- Set the status. -/
def setStatus (status : Nat) : Shell Unit := modify fun s => { s with status := status }

/-- Write a message on the standard error stream, behind the name of the script, the line and
the command. -/
def say (message : Bytes) : Shell Unit := do
  let s ← get
  act (warn (s.name ++ lit ": " ++ digits s.line ++ lit ": "
    ++ (if s.command.isEmpty then [] else s.command ++ lit ": ") ++ message ++ lit "\n"))

/-- End the shell with a message. -/
def fatal {α : Type} (message : Bytes) : Shell α := do
  say message
  leave 2

/-- Give a variable a value, unless it keeps its own. -/
def assign (name value : Bytes) : Shell Unit := do
  if (((← get).find? name).map Variable.isFixed).getD false then
    fatal (name ++ lit ": is read only")
  modify (·.assign name value)

/-- The environment in which programs are looked for. -/
def searching : Shell (List (Bytes × Bytes)) := do
  let s ← get
  return [(lit "PATH", ((s.find? (lit "PATH")).bind Variable.value).getD [])]

/-- Do something as a process of its own. -/
def apart (p : Routine Unit) : Shell Ending := do
  let (_, view) ← act look
  let e ← act (inside p)
  act (goTo view.directory)
  return e

/-- Let programs run for which nobody has waited yet. They begin when somebody waits for
them, or the shell ends. -/
def settle : Shell Unit := do
  let jobs := (← get).jobs
  modify fun s => { s with jobs := [] }
  for p in jobs do
    let _ ← apart p

/-- Do something, and at the end of the shell what it has been told to do then. -/
def concluding (evaluate : Bytes → Shell Unit) (p : Shell Unit) : StateT State Routine Nat := do
  let conclude (p : Shell Unit) : StateT State Routine Unit := do
    if let .error (.exit status) ← p.run then modify fun s => { s with status := status }
  conclude p
  let s ← get
  if let some action := s.traps.lookup 0 then
    set { s with traps := s.traps.filter (·.1 != 0) }
    conclude do
      evaluate action
      setStatus s.status
  conclude settle
  return (← get).status

/-- Do something as a shell of its own. -/
def alone (evaluate : Bytes → Shell Unit) (p : Shell Unit) : Shell (Routine Unit) := do
  let s ← get
  return do
    let e ← frame
    let (status, _) ← (concluding evaluate p).run
      { s with
        stream := e.stream
        traps := s.traps.filter fun t => t.2.isEmpty
        last := true
        loops := 0
        jobs := [] }
    exit status

/-- Do something, then do something else, even if the first is cut short. -/
def after {α : Type} (p : Shell α) (last : State → State) : Shell α := ExceptT.mk do
  let r ← p.run
  modify last
  return r

/-- Do something, with all changes but those of the streams. -/
def keepingStreams {α : Type} (p : Shell α) : Shell α := do
  let before := (← get).stream
  p.after fun s => { s with stream := before }

/-- Do something behind which more is to do. -/
def notLast {α : Type} (p : Shell α) : Shell α := do
  let before := (← get).last
  modify fun s => { s with last := false }
  p.after fun s => { s with last := before }

/-- Do something whose status is looked at. -/
def testing (p : Shell Unit) : Shell Bool := do
  let before := (← get).tested
  modify fun s => { s with tested := true }
  (notLast p).after fun s => { s with tested := before }
  return (← get).status = 0

/-- Do something as a command of the shell. -/
def commanded (name : Bytes) (p : Shell Unit) : Shell Unit := do
  let before := (← get).command
  modify fun s => { s with command := name }
  p.after fun s => { s with command := before }

/-- Do a round of a loop, and say whether there may be another. -/
def round (p : Shell Bool) : Shell Bool := ExceptT.mk do
  let r ← (notLast do
    modify fun s => { s with loops := s.loops + 1 }
    p.after fun s => { s with loops := s.loops - 1 }).run
  return match r with
    | .error (.leave 0) => .ok false
    | .error (.leave (n + 1)) => .error (.leave n)
    | .error (.again 0) => .ok true
    | .error (.again (n + 1)) => .error (.again n)
    | r => r

/-- Do something as a function with arguments. -/
def called (arguments : List Bytes) (p : Shell Unit) : Shell Unit := ExceptT.mk do
  let before ← get
  set { before with
    arguments := arguments, depth := before.depth + 1, locals := [], loops := 0, last := false }
  let r ← p.run
  modify fun s =>
    let s := s.locals.foldl (fun s l =>
      match l.2 with
      | some v => s.setVariable l.1 v
      | none => { s with bindings := s.bindings.filter (·.1 != l.1) }) s
    { s with
      arguments := before.arguments, depth := before.depth, locals := before.locals
      loops := before.loops, last := before.last }
  return match r with
    | .error .back => .ok ()
    | r => r

end Shell

end LineShell.Program.Sh
