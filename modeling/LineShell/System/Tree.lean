import LineShell.System.Files

/-!
# Changing the file tree

Names are entered and taken out: `makeDirectory`, `makeLink`, `link`, `unlink`,
`removeDirectory` and `rename`. Each gives the changed tree, or says why it cannot be
changed.
-/

namespace LineShell

/-- The last name of a path, in the directory that the path before it leads to. -/
structure Leaf where
  directory : NodeId
  /-- The name. It is empty for the root. -/
  name : Bytes
  /-- The path asks for a directory. -/
  trailing : Bool
deriving DecidableEq, Repr

namespace Leaf

/-- The leaf is a name and not a way to a directory. -/
def isProper (l : Leaf) : Bool := !l.name.isEmpty && l.name != Path.here && l.name != Path.above

/-- The node that the leaf stands for. -/
def child? (l : Leaf) (files : Files) : Option NodeId := files.child? l.directory l.name

end Leaf

namespace Files

/-- The last name of a path. -/
def leaf (files : Files) (view : View) (path : Bytes) : Except Errno Leaf :=
  if path.isEmpty then .error .noEntry
  else if Path.limit < path.length then .error .nameTooLong
  else
    let names := (Text.records Path.slash path).filter fun n => !n.isEmpty
    match names.getLast? with
    | none => .ok ⟨0, [], true⟩
    | some name =>
      let start := if Path.isAbsolute path then 0 else view.directory
      match files.walk view .follow Path.linkLimit start (names.dropLast ++ [[]]) with
      | .error e => .error e
      | .ok (.node d) =>
        if !files.isDirectory d then .error .notDirectory
        else if Path.nameLimit < name.length then .error .nameTooLong
        else .ok ⟨d, name, Path.hasTrailingSlash path⟩
      | .ok _ => .error .notDirectory

/-- The leaf of a path at which something new is to be. -/
def freeLeaf (files : Files) (view : View) (path : Bytes) (isDirectory : Bool) :
    Except Errno Leaf := do
  let l ← files.leaf view path
  if !l.isProper || (l.child? files).isSome then throw .exists_
  if !files.isLinked l.directory || (l.trailing && !isDirectory) then throw .noEntry
  match files.node? l.directory with
  | some (.directory _ _) => return l
  | _ => throw .noEntry

/-- Make an empty directory. -/
def makeDirectory (files : Files) (view : View) (path : Bytes) : Except Errno Files := do
  let l ← files.freeLeaf view path true
  return (files.create l.directory l.name (.directory l.directory [])).2

/-- Make a symbolic link. -/
def makeLink (files : Files) (view : View) (target path : Bytes) : Except Errno Files := do
  if target.isEmpty then throw .noEntry
  let l ← files.freeLeaf view path false
  return (files.create l.directory l.name (.link target)).2

/-- Enter a node a second time. -/
def link (files : Files) (view : View) (id : NodeId) (path : Bytes) : Except Errno Files := do
  let l ← files.freeLeaf view path false
  if files.isDirectory id then throw .notPermitted
  return files.enter l.directory l.name id

/-- Take a name out of the tree that is no directory's. -/
def unlink (files : Files) (view : View) (path : Bytes) : Except Errno Files := do
  let l ← files.leaf view path
  if !l.isProper then throw .isDirectory
  match l.child? files with
  | none => throw .noEntry
  | some id =>
    if files.isDirectory id then throw .isDirectory
    if l.trailing then throw .notDirectory
    return files.remove l.directory l.name

/-- Take an empty directory out of the tree. -/
def removeDirectory (files : Files) (view : View) (path : Bytes) : Except Errno Files := do
  let l ← files.leaf view path
  if l.name.isEmpty then throw .busy
  if l.name = Path.here then throw .invalid
  if l.name = Path.above then throw .notEmpty
  match l.child? files with
  | none => throw .noEntry
  | some id =>
    if !files.isDirectory id then throw .notDirectory
    if !(files.entries id).isEmpty then throw .notEmpty
    return files.remove l.directory l.name

/-- The directory is another or below it, with so many steps up allowed. -/
def isWithin (files : Files) (outer : NodeId) : Nat → NodeId → Bool
  | 0, directory => directory = outer
  | n + 1, directory =>
    directory = outer || (directory != 0 && isWithin files outer n (files.parent directory))

/-- Move a node to another name, in place of what has that name. -/
def rename (files : Files) (view : View) (source target : Bytes) : Except Errno Files := do
  let a ← files.leaf view source
  let b ← files.leaf view target
  if !a.isProper || !b.isProper then throw .busy
  match a.child? files with
  | none => throw .noEntry
  | some id =>
    let isDirectory := files.isDirectory id
    if !isDirectory && (a.trailing || b.trailing) then throw .notDirectory
    if isDirectory && files.isWithin id files.inodes.size b.directory then throw .invalid
    if !files.isLinked b.directory then throw .noEntry
    match b.child? files with
    | some old =>
      if old = id then return files
      if files.isDirectory old && files.isWithin old files.inodes.size a.directory then throw .notEmpty
      if isDirectory && !files.isDirectory old then throw .notDirectory
      if !isDirectory && files.isDirectory old then throw .isDirectory
      if !(files.entries old).isEmpty then throw .notEmpty
    | none => pure ()
    let moved := (files.remove a.directory a.name).enter b.directory b.name id
    return if isDirectory then moved.setParent id b.directory else moved

end Files

end LineShell
