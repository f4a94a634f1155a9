import LineShell.Program.Asking
import LineShell.Program.Placing

/-!
# Making and removing

`touch` makes files, `mkdir` and `rmdir` make and remove directories, `unlink` removes a name of
a file, and `rm` removes files, and whole trees if asked for.
-/

namespace LineShell.Program

open Routine Arguments

/-- Make files that are not there. -/
def touch : Utility := fun args => do
  let p ← arguments [flag 'c' "no-create", flag 'a', flag 'm', flag 'f', flag 'h' "no-dereference",
    valued 'd' "date", valued 't', valued 'r' "reference", valued 'T' "time"] 1 args
  if let some path := p.value? 'r' then
    if let .error e ← Placing.place path then
      giveUp 1 (lit "failed to get attributes of " ++ Quoting.always path ++ lit ": " ++ e.sentence)
  if p.operands.isEmpty then refuse 1 (lit "missing file operand")
  forOperands (fun path => do
    let failed (what : String) (e : Errno) : Routine Bool := do
      complain (lit what ++ Quoting.always path ++ lit ": " ++ e.sentence)
      return false
    if isStandardInput path then
      if ((← look).2.opened 1).isSome then return true
      else failed "setting times of " .badDescriptor
    else match ← Placing.place path with
      | .ok (.node _) | .ok (.descriptor _) => return true
      | .error e =>
        if p.has 'c' && e = .noEntry then return true
        else if p.has 'c' || Path.hasTrailingSlash path then failed "setting times of " e
        else failed "cannot touch " e
      | .ok (.vacant _ _) =>
        if p.has 'c' then return true
        else match ← openPath path .append with
          | .ok d =>
            close d
            return true
          | .error e => failed "cannot touch " e) p.operands

/-! ## Directories -/

namespace Mkdir

/-- Make one directory. -/
def make (verbose : Bool) (path : Bytes) : Routine (Except Errno Unit) := do
  let r ← attempt fun files view => files.makeDirectory view path
  if verbose && r.isOk then
    put ((← frame).name ++ lit ": created directory " ++ Quoting.always path ++ lit "\n")
  return r

/-- The paths to the directories before the last name of a path, from the outermost on. -/
def ancestors (path : Bytes) : List Bytes :=
  let names := (Text.records Path.slash path).filter fun n => !n.isEmpty
  let front := if Path.isAbsolute path then [Path.slash] else []
  (List.range (names.length - 1)).map fun i => front ++ [Path.slash].intercalate (names.take (i + 1))

/-- Make the directories that are missing on a path. The answer names the one that could not
be made. -/
def makeAll (verbose : Bool) : List Bytes → Routine (Except (Bytes × Errno) Unit)
  | [] => pure (.ok ())
  | path :: paths => do
    match ← Placing.place path with
    | .ok (.vacant _ _) =>
      match ← make verbose path with
      | .ok () => makeAll verbose paths
      | .error e => return .error (path, e)
    | .error e => return .error (path, e)
    | .ok _ =>
      match ← Placing.directory path with
      | .ok _ => makeAll verbose paths
      | .error e => return .error (path, e)

end Mkdir

/-- Make directories. -/
def mkdir : Utility := fun args => do
  let p ← arguments [flag 'p' "parents", valued 'm' "mode", flag 'v' "verbose"] 1 args
  if p.operands.isEmpty then refuse 1 (lit "missing operand")
  if let some mode := p.value? 'm' then
    if !(mode.all fun b => (lit "0123456789ugoa+-=rwxXst,").contains b) || mode.isEmpty then
      giveUp 1 (lit "invalid mode " ++ Quoting.plain mode)
  let verbose := p.has 'v'
  forOperands (fun path => do
    let failed (path : Bytes) (e : Errno) : Routine Bool := do
      complain (lit "cannot create directory " ++ Quoting.always path ++ lit ": " ++ e.sentence)
      return false
    let before ← if p.has 'p' then Mkdir.makeAll verbose (Mkdir.ancestors path) else pure (.ok ())
    match before with
    | .error (path, e) => failed path e
    | .ok () =>
      match ← Mkdir.make verbose path with
      | .ok () => return true
      | .error e =>
        if p.has 'p' && (← Placing.directory path).isOk then return true
        else failed path e) p.operands

/-- Remove empty directories. -/
def rmdir : Utility := fun args => do
  let p ← arguments [flag 'p' "parents", flag 'v' "verbose", flag 'i' "ignore-fail-on-non-empty"] 1 args
  if p.operands.isEmpty then refuse 1 (lit "missing operand")
  let remove (what : String) (path : Bytes) : Routine Bool := do
    if p.has 'v' then
      put ((← frame).name ++ lit ": removing directory, " ++ Quoting.always path ++ lit "\n")
    match ← attempt fun files view => files.removeDirectory view path with
    | .ok () => return true
    | .error e =>
      if p.has 'i' && e = .notEmpty then return true
      let linked := e = .notDirectory && Path.hasTrailingSlash path && (← Placing.directory path).isOk
      complain (lit what ++ Quoting.always path ++ lit ": "
        ++ (if linked then lit "Symbolic link not followed" else e.sentence))
      return false
  forOperands (fun path => do
    if !(← remove "failed to remove " path) then return false
    if !p.has 'p' then return true
    forAll (remove "failed to remove directory ")
      (Mkdir.ancestors path).reverse) p.operands

/-- Remove one name of a file. -/
def unlink : Utility := fun args => do
  let p ← arguments [] 1 args
  match p.operands with
  | [] => refuse 1 (lit "missing operand")
  | _ :: extra :: _ => refuse 1 (lit "extra operand " ++ Quoting.plain extra)
  | [path] =>
    match ← attempt fun files view => files.unlink view path with
    | .ok () => exit 0
    | .error e => giveUp 1 (lit "cannot unlink " ++ Quoting.always path ++ lit ": " ++ e.sentence)

/-! ## Trees -/

namespace Remove

/-- What may be removed, and what is asked and told. -/
structure Rules where
  force : Bool := false
  recursive : Bool := false
  directories : Bool := false
  /-- Nothing is removed without asking. -/
  asks : Bool := false
  verbose : Bool := false

/-- What comes of a path. -/
inductive Outcome where
  | removed
  /-- It was to stay. -/
  | kept
  | failed
deriving DecidableEq, Repr

/-- The worse of two outcomes. -/
def Outcome.worse : Outcome → Outcome → Outcome
  | .failed, _ | _, .failed => .failed
  | .kept, _ | _, .kept => .kept
  | .removed, .removed => .removed

/-- Complain of a path. -/
def failed (path : Bytes) (e : Errno) : Routine Outcome := do
  complain (lit "cannot remove " ++ Quoting.always path ++ lit ": " ++ e.sentence)
  return .failed

/-- The kind of a node in a question. -/
def kind (files : Files) (id : NodeId) : Bytes :=
  match files.node? id with
  | some (.file [] _) => lit "regular empty file "
  | some (.file _ _) | some (.program _) => lit "regular file "
  | some (.link _) => lit "symbolic link "
  | some (.directory _ _) | some (.descriptors _) => lit "directory "
  | _ => lit "character special file "

/-- Remove what the path `path` leads to. -/
def Rules.take (r : Rules) (what : String) (path : Bytes)
    (removal : Files → View → Except Errno Files) : Routine Outcome := do
  match ← attempt removal with
  | .ok () =>
    if r.verbose then put (lit what ++ Quoting.always path ++ lit "\n")
    return .removed
  | .error e => failed path e

/-- Remove what a path leads to, and everything below it, to a depth. -/
def Rules.remove (r : Rules) : (depth : Nat) → Bytes → Routine Outcome
  | 0, path => failed path .tooManyLinks
  | depth + 1, path => do
    let (files, view) ← look
    match files.resolve view path .keep with
    | .ok (.node id) =>
      let question := lit "remove " ++ kind files id ++ Quoting.always path
      let takeDirectory := r.take "removed directory " path fun files view => files.removeDirectory view path
      let inner := files.entries id
      if Path.hasTrailingSlash path && (files.resolveNode view (withoutSlashes path) .keep).toOption != some id then
        failed path (if r.recursive then .notDirectory else .isDirectory)
      else if !files.isDirectory id then
        if !(← agrees r.asks question) then return .kept
        r.take "removed " path fun files view => files.unlink view path
      else if !r.recursive && !r.directories then failed path .isDirectory
      else if !r.recursive || inner.isEmpty then
        if !(← agrees (r.asks && inner.isEmpty) question) then return .kept
        takeDirectory
      else
        if !(← agrees r.asks (lit "descend into directory " ++ Quoting.always path)) then return .kept
        let outcomes ← inner.mapM fun e => r.remove depth (pathIn path e.1)
        let outcome := outcomes.foldl Outcome.worse .removed
        if outcome != .removed then return outcome
        if !(← agrees r.asks question) then return .kept
        takeDirectory
    | .ok (.descriptor _) => failed path .notPermitted
    | .ok (.vacant _ _) => if r.force then return .removed else failed path .noEntry
    | .error e =>
      if r.force && (e = .noEntry || e = .notDirectory) then return .removed else failed path e

/-- The question about all operands at once. -/
def overall (recursive : Bool) (count : Nat) : Bytes :=
  lit "remove " ++ digits count ++ lit (if count = 1 then " argument" else " arguments")
    ++ (if recursive then lit " recursively" else [])

end Remove

/-- Remove files, and directories if asked for. -/
def rm : Utility := fun args => do
  let p ← arguments [flag 'r' "recursive", flag 'R', flag 'f' "force", flag 'd' "dir",
    flag 'v' "verbose", flag 'i', flag 'I'] 1 args
  let way := p.lastOf "fiI"
  if p.operands.isEmpty then
    if way = some 'f' then exit 0 else refuse 1 (lit "missing operand")
  let r : Remove.Rules :=
    { force := way = some 'f', recursive := p.has 'r' || p.has 'R', directories := p.has 'd'
      asks := way = some 'i', verbose := p.has 'v' }
  let count := p.operands.length
  let asksOnce := way = some 'I' && (r.recursive || 3 < count)
  if !(← agrees asksOnce (Remove.overall r.recursive count)) then exit 0
  forOperands (fun path => do
    let name := baseName path
    if r.recursive && (name = Path.here || name = Path.above) then
      complain (lit "refusing to remove '.' or '..' directory: skipping " ++ Quoting.always path)
      return false
    if r.recursive && name = [Path.slash] then
      complain (lit "it is dangerous to operate recursively on "
        ++ (if path = name then Quoting.always path
          else Quoting.always path ++ lit " (same as '/')"))
      complain (lit "use --no-preserve-root to override this failsafe")
      return false
    return (← r.remove (← look).1.inodes.size path) != .failed) p.operands

end LineShell.Program
