import LineShell.Program.Names
import LineShell.System.Tree

/-!
# Sources and targets

`cp`, `mv` and `ln` take sources and a target, which may be a directory into which the
sources go. `Placing.targets` says where each goes.
-/

namespace LineShell.Program

open Routine Arguments

/-- Look at the tree through the eyes of the running program. -/
def ask {α : Type} (f : Files → View → α) : Routine α := do
  let (files, view) ← look
  return f files view

/-- Change the tree, if it can be changed. -/
def attempt (f : Files → View → Except Errno Files) : Routine (Except Errno Unit) := do
  match ← ask f with
  | .ok files =>
    change fun _ => files
    return .ok ()
  | .error e => return .error e

/-- Do something with each operand, and say whether all went well. -/
def forAll (f : Bytes → Routine Bool) : List Bytes → Routine Bool
  | [] => pure true
  | path :: paths => do
    let good ← f path
    let rest ← forAll f paths
    return good && rest

/-- Do something with each operand, and exit with code 1 if that failed for one. -/
def forOperands (f : Bytes → Routine Bool) (operands : List Bytes) : Routine Unit := do
  exit (if ← forAll f operands then 0 else 1)

/-- A path to a name in a directory. -/
def pathIn (directory name : Bytes) : Bytes :=
  if directory.getLast? = some Path.slash then directory ++ name else directory ++ Path.slash :: name

/-- A path without slashes at its end, unless it is the root. -/
def withoutSlashes (path : Bytes) : Bytes :=
  match path with
  | [] => []
  | b :: rest => b :: Text.dropEndWhile (· = Path.slash) rest

namespace Placing

/-- The node that a path leads to, or a descriptor. -/
def place (path : Bytes) (last : Last := .follow) : Routine (Except Errno Place) :=
  ask fun files view => files.resolve view path last

/-- The directory that a path leads to. -/
def directory (path : Bytes) : Routine (Except Errno NodeId) :=
  ask fun files view => files.resolveDirectory view path

/-- The last name of a source, as it is entered in a directory. -/
def entered (source : Bytes) : Bytes :=
  let name := baseName source
  if name = [Path.slash] then [] else name

/-- The sources with the paths at which they are to be, by the options and operands: each in
a directory, or one under another name. `alone` says where a single operand goes. -/
def targets (p : Parsed) (alone : Option Bytes) : Routine (List (Bytes × Bytes)) := do
  let into (d : Bytes) (sources : List Bytes) : List (Bytes × Bytes) :=
    sources.map fun s => (s, pathIn d (entered s))
  if p.operands.isEmpty then refuse 1 (lit "missing file operand")
  match p.value? 't' with
  | some d =>
    match ← directory d with
    | .ok _ => return into d p.operands
    | .error e => giveUp 1 (lit "target directory " ++ Quoting.always d ++ lit ": " ++ e.sentence)
  | none =>
    match p.operands with
    | [] => return []
    | [source] =>
      match alone with
      | some d => return into d [source]
      | none => refuse 1 (lit "missing destination file operand after " ++ Quoting.always source)
    | source :: target :: more =>
      if p.has 'T' then
        match more with
        | [] => return [(source, target)]
        | extra :: _ => refuse 1 (lit "extra operand " ++ Quoting.always extra)
      else
        let last := more.getLastD target
        match ← directory last with
        | .ok _ => return into last p.operands.dropLast
        | .error e =>
          if more.isEmpty then return [(source, target)]
          else giveUp 1 (lit "target " ++ Quoting.always last ++ lit ": " ++ e.sentence)

/-- Do something with each source and its target, and exit with code 1 if that failed for
one. -/
def each (f : Bytes → Bytes → Routine Bool) (targets : List (Bytes × Bytes)) : Routine Unit := do
  let results ← targets.mapM fun t => f t.1 t.2
  exit (if results.all id then 0 else 1)

end Placing

end LineShell.Program
