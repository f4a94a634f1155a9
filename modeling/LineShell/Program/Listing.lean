import LineShell.Program.Placing

/-!
# Looking at the tree

`ls` lists directories, `pwd` writes the own directory, `readlink` what a symbolic link
holds, and `chmod` changes whether a file can be run.
-/

namespace LineShell.Program

open Routine Arguments

/-! ## Listing -/

namespace Ls

/-- How names are shown. -/
structure Rules where
  hidden : Bool := false
  /-- The directory itself and the one above are shown too. -/
  dots : Bool := false
  reverse : Bool := false
  recursive : Bool := false
  bySize : Bool := false
  /-- Marks stand behind directories only, or behind all that is no plain file. -/
  marks : Option Bool := none
  quoted : Bool := false
  escaped : Bool := false
  masked : Bool := false
  commas : Bool := false
  /-- A line for each name shows more than the name. -/
  isLong : Bool := false
  ending : UInt8 := lineFeed

/-- A name as it is shown. -/
def Rules.name (r : Rules) (name : Bytes) : Bytes :=
  if r.quoted || r.escaped then
    let text := name.flatMap fun b =>
      match Quoting.escape? b with
      | some e => 0x5C :: e
      | none => if b = 0x5C || (r.quoted && b = 0x22) || (!r.quoted && b = 0x20) then [0x5C, b] else [b]
    if r.quoted then 0x22 :: text ++ [0x22] else text
  else if r.masked then name.map fun b => if ByteClass.isPrintable b then b else 0x3F
  else name

/-- The mark behind a name. -/
def Rules.mark (r : Rules) (files : Files) (id : NodeId) : Bytes :=
  match r.marks with
  | none => []
  | some all =>
    match files.node? id with
    | some (.directory _ _) => lit "/"
    | some (.descriptors _) => lit "/"
    | some (.link _) => if all then lit "@" else []
    | some (.file _ true) => if all then lit "*" else []
    | some (.program _) => if all then lit "*" else []
    | _ => []

/-- The width of a line of names between commas. -/
def width : Nat := 80

/-- Names between commas, in lines of some width. -/
def joined (names : List Bytes) : Bytes :=
  let r := names.zipIdx.foldl (fun (r : Bytes × Nat) (name, i) =>
    if i = 0 then (name, name.length)
    else if width ≤ r.2 + name.length + 2 then (r.1 ++ lit ",\n" ++ name, name.length)
    else (r.1 ++ lit ", " ++ name, r.2 + name.length + 2)) ([], 0)
  if names.isEmpty then [] else r.1 ++ lit "\n"

/-- The bytes of a block in which files are kept. -/
def blockSize : Nat := 4096

/-- The size that is shown for a node. -/
def shownSize (files : Files) (id : NodeId) : Nat :=
  match files.node? id with
  | some (.link target) => target.length
  | some (.directory _ _) => blockSize
  | _ => files.size id

/-- The kibibytes that a node takes. A link takes none of its own. -/
def kibibytes (files : Files) (id : NodeId) : Nat :=
  match files.node? id with
  | some (.link _) => 0
  | _ => (shownSize files id + blockSize - 1) / blockSize * (blockSize / 1024)

/-- The kind and the rights of a node, as they are shown. -/
def modeText (files : Files) (id : NodeId) : Bytes :=
  lit (match files.node? id with
    | some (.directory _ _) => "drwxr-xr-x"
    | some (.descriptors _) => "dr-x------"
    | some (.link _) => "lrwxrwxrwx"
    | some (.file _ true) | some (.program _) => "-rwxr-xr-x"
    | some (.file _ false) => "-rw-r--r--"
    | _ => "crw-rw-rw-")

/-- The number of names that a node has. A directory has one in itself, and one in each
directory below. -/
def linkCount (files : Files) (id : NodeId) : Nat :=
  if files.isDirectory id then
    2 + ((files.entries id).filter fun e => (match files.node? e.2 with
      | some (.directory _ _) => true
      | _ => false)).length
  else ((files.allBelow 0).filter (·.2 = id)).length

/-- Texts flush to the right in a column. -/
def column (texts : List Bytes) : List Bytes :=
  let width := ((texts.map List.length).max?).getD 0
  texts.map (padLeft width)

/-- The time that is shown for every node. Times are not kept. -/
def time : Bytes := lit "Jan 31 12:00"

/-- Names with their nodes, a line each with what is known of the node. -/
def Rules.long (r : Rules) (files : Files) (names : List (Bytes × NodeId)) : Bytes :=
  let links := column (names.map fun e => digits (linkCount files e.2))
  let sizes := column (names.map fun e => digits (shownSize files e.2))
  (names.zip (links.zip sizes)).flatMap fun ((name, id), (links, size)) =>
    let arrow := match files.node? id with
      | some (.link target) => lit " -> " ++ r.name target
      | _ => []
    (lit " ").intercalate [modeText files id, links, lit "root root", size, time,
      r.name name ++ (if arrow.isEmpty then r.mark files id else arrow)] ++ [r.ending]

/-- Names with their nodes, in order, as they are shown. -/
def Rules.block (r : Rules) (files : Files) (names : List (Bytes × NodeId)) : Bytes :=
  let bySize (a b : Bytes × NodeId) : Ordering :=
    if r.bySize then compare (shownSize files b.2) (shownSize files a.2) else .eq
  let sorted := names.mergeSort fun a b => (bySize a b).then (compareBytes a.1 b.1) != .gt
  let sorted := if r.reverse then sorted.reverse else sorted
  let shown := sorted.map fun (name, id) => r.name name ++ r.mark files id
  if r.isLong then r.long files sorted
  else if r.commas then joined shown
  else shown.flatMap (· ++ [r.ending])

/-- The line over the nodes of a directory. -/
def Rules.total (r : Rules) (files : Files) (names : List (Bytes × NodeId)) : Bytes :=
  if r.isLong then
    lit "total " ++ digits (names.foldl (fun n e => n + kibibytes files e.2) 0) ++ [r.ending]
  else []

/-- The most descriptors that are listed. -/
def descriptorLimit : Nat := 1024

/-- What a directory holds. The descriptors of a program are listed with the one that it
reads the directory from. -/
def contents (files : Files) (view : View) (directory : NodeId) : List (Bytes × NodeId) :=
  match files.node? directory with
  | some (.descriptors _) =>
    let numbers := List.range descriptorLimit
    let own := numbers.find? fun n => (view.opened n).isNone
    (numbers.filter fun n => (view.opened n).isSome || own = some n).map fun n => (digits n, directory)
  | _ => files.entries directory

/-- The names of a directory that are shown. -/
def Rules.names (r : Rules) (files : Files) (view : View) (directory : NodeId) : List (Bytes × NodeId) :=
  let all := contents files view directory
  let dots := if r.dots then [(Path.here, directory), (Path.above, files.parent directory)] else []
  dots ++ (if r.hidden then all else all.filter fun e => e.1.head? != some 0x2E)

/-- Directories with the path and the names of each, those below them behind them. -/
def Rules.directories (r : Rules) (files : Files) (view : View) :
    (depth : Nat) → List (Bytes × NodeId) → List (Bytes × NodeId)
  | 0, _ => []
  | depth + 1, ds =>
    ds.flatMap fun (path, id) =>
      if !r.recursive then [(path, id)]
      else
        let inner := ((r.names files view id).filter fun e =>
          e.1 != Path.here && e.1 != Path.above && (match files.node? e.2 with
            | some (.directory _ _) => true
            | _ => false)).mergeSort fun a b => compareBytes a.1 b.1 != .gt
        let inner := if r.reverse then inner.reverse else inner
        (path, id) :: r.directories files view depth (inner.map fun e => (pathIn path e.1, e.2))

/-- The options. -/
def options : List Spec :=
  [flag 'a' "all", flag 'A' "almost-all", flag '1', flag 'l', flag 'd' "directory", flag 'r' "reverse",
    flag 'R' "recursive", flag 'F', perhapsValued 'F' "classify", flag 'p', flag 'm', flag 'Q' "quote-name",
    flag 'b' "escape", flag 'q' "hide-control-chars", flag 'N' "literal", flag 'S', flag 'U', flag 'k',
    flag 'h' "human-readable", flag 'B' "ignore-backups", flag 'L' "dereference",
    flag 'H' "dereference-command-line", flag 'v', flag 'X', perhapsValued 'y' "color",
    flag 'z' "zero", flag 't', flag 'u', flag 'c', flag 'f', flag 'C', flag 'x', flag 'G' "no-group",
    flag 'i' "inode", flag 's' "size"]

/-- The rules that the options ask for. -/
def Rules.ofOptions (p : Parsed) : Rules where
  hidden := p.has 'a' || p.has 'A' || p.has 'f'
  dots := p.has 'a' || p.has 'f'
  reverse := p.has 'r'
  recursive := p.has 'R'
  bySize := p.has 'S'
  marks := if p.has 'F' then some true else if p.has 'p' then some false else none
  quoted := p.has 'Q'
  escaped := p.has 'b'
  masked := p.has 'q'
  isLong := p.has 'l'
  commas := p.has 'm' && !p.has '1'
  ending := if p.has 'z' then 0 else lineFeed

/-- The node of an operand. A symbolic link is looked through if it leads to a directory. -/
def target (p : Parsed) (files : Files) (view : View) (path : Bytes) : Except Errno NodeId :=
  if p.has 'L' || p.has 'H' then files.resolveNode view path
  else if p.has 'd' || p.has 'F' || p.has 'l' then files.resolveNode view path .keep
  else match files.resolveNode view path with
    | .ok id => if files.isDirectory id then .ok id else files.resolveNode view path .keep
    | .error .noEntry => files.resolveNode view path .keep
    | .error e => .error e

/-- The operands that are there, with their nodes. The others are complained about. -/
def operands (p : Parsed) : List Bytes → Routine (List (Bytes × NodeId) × Bool)
  | [] => pure ([], true)
  | path :: paths => do
    match ← ask fun files view => target p files view path with
    | .ok id =>
      let r ← operands p paths
      return ((path, id) :: r.1, r.2)
    | .error e =>
      complain (lit "cannot access " ++ Quoting.always path ++ lit ": " ++ e.sentence)
      return ((← operands p paths).1, false)

end Ls

open Ls in
/-- List directories. -/
def ls : Utility := fun args => do
  let p ← arguments Ls.options 2 args
  let r := Rules.ofOptions p
  let given := if p.operands.isEmpty then [Path.here] else p.operands
  let (found, good) ← Ls.operands p given
  let (files, view) ← look
  let isListed (e : Bytes × NodeId) : Bool := files.isDirectory e.2 && !p.has 'd'
  let plain := found.filter fun e => !isListed e
  let inOrder := (found.filter isListed).mergeSort fun a b => compareBytes a.1 b.1 != .gt
  let inOrder := if r.reverse then inOrder.reverse else inOrder
  let directories := r.directories files view (files.inodes.size + 1) inOrder
  let shown := directories.zipIdx.map fun ((path, id), i) =>
    (if 1 < given.length || r.recursive then
      (if plain.isEmpty && i = 0 then [] else lit "\n") ++ r.name path ++ lit ":\n" else [])
      ++ r.total files (r.names files view id) ++ r.block files (r.names files view id)
  putOr 2 writeError (r.block files plain ++ shown.flatten)
  exit (if good then 0 else 2)

/-! ## Paths -/

/-- A directory as a path from the root. -/
def pathOf (files : Files) (directory : NodeId) : Bytes :=
  Path.slash :: [Path.slash].intercalate (files.pathTo directory)

/-- Write the own directory. -/
def pwd : Utility := fun args => do
  let p ← arguments [flag 'L' "logical", flag 'P' "physical"] 1 args
  if !p.operands.isEmpty then complain (lit "ignoring non-option arguments")
  let (files, view) ← look
  if files.isLinked view.directory then put (pathOf files view.directory ++ lit "\n")
  else giveUp 1 (lit "couldn't find directory entry in '..' with matching i-node")

namespace Readlink

/-- The path without symbolic links, where the last name may be missing if `loose` says so. -/
def canonical (loose : Bool) (files : Files) (view : View) (path : Bytes) : Except Errno Bytes := do
  let below (d : NodeId) (name : Bytes) : Bytes :=
    let front := pathOf files d
    pathIn front name
  match ← files.resolve view path with
  | .vacant d name => if loose then return below d name else throw .noEntry
  | .descriptor _ => throw .noEntry
  | .node id =>
    if files.isDirectory id then return pathOf files id
    match (files.allBelow 0).find? (·.2 = id) with
    | some (names, _) => return Path.slash :: [Path.slash].intercalate names
    | none => throw .noEntry

/-- What a path gives: the text of a link, or the path without links. -/
def answer (p : Parsed) (files : Files) (view : View) (path : Bytes) : Except Errno Bytes := do
  if p.has 'f' then return (← canonical true files view path)
  if p.has 'e' then return (← canonical false files view path)
  let id ← files.resolveNode view path .keep
  match files.node? id with
  | some (.link target) => return target
  | _ => throw .invalid

end Readlink

/-- Write what symbolic links hold. -/
def readlink : Utility := fun args => do
  let p ← arguments [flag 'n' "no-newline", flag 'f' "canonicalize", flag 'e' "canonicalize-existing",
    flag 'v' "verbose", flag 'q' "quiet", flag 's' "silent", flag 'z' "zero"] 1 args
  if p.operands.isEmpty then refuse 1 (lit "missing operand")
  let ending : Bytes := if p.has 'z' then [0] else [lineFeed]
  let alone := p.operands.length = 1
  if p.has 'n' && !alone then complain (lit "ignoring --no-newline with multiple arguments")
  forOperands (fun path => do
    match ← ask fun files view => Readlink.answer p files view path with
    | .ok text =>
      put (text ++ (if p.has 'n' && alone then [] else ending))
      return true
    | .error e =>
      if p.has 'v' then complain (plainly path e)
      return false) p.operands

/-! ## Permissions -/

namespace Mode

/-- What a mode does to the right of running a file. -/
inductive Effect where
  | grant
  | deny
  | leave
deriving DecidableEq, Repr

/-- The byte stands before what is granted, denied or set. -/
def isSign (b : UInt8) : Bool := b = 0x2B || b = 0x2D || b = 0x3D

/-- The effect of the actions of a clause, which are for everyone or not. Every step takes a
byte off. -/
def actions (everyone : Bool) : Nat → Effect → Bytes → Option Effect
  | 0, e, _ => some e
  | _, e, [] => some e
  | fuel + 1, e, sign :: rest =>
    let what := rest.takeWhile fun b => !isSign b
    if !isSign sign || !(what.all fun b => (lit "rwxXst").contains b) then none
    else
      let runs := what.contains 0x78
      let next := if sign = 0x2D then (if runs && everyone then .deny else e)
        else if runs then .grant
        else if sign = 0x3D && everyone then .deny
        else e
      actions everyone fuel next (rest.drop what.length)

/-- The effect of one clause of a mode, such as `u+x`. -/
def clause? (text : Bytes) : Option Effect :=
  let who := text.takeWhile fun b => (lit "ugoa").contains b
  let everyone := who.isEmpty || who.contains 0x61 || (lit "ugo").all who.contains
  let rest := text.drop who.length
  if rest.isEmpty then none else actions everyone rest.length .leave rest

/-- The effect of a mode. -/
def read? (mode : Bytes) : Option Effect :=
  if mode.isEmpty then none
  else if mode.all ByteClass.isDigit then
    if mode.all ByteClass.isOctal && ByteClass.octalValue mode < 0o10000 then
      some (if (mode.reverse.take 3).any fun d => d.toNat % 2 = 1 then .grant else .deny)
    else none
  else (partsOf 0x2C mode).foldlM (fun e c => do
    let next ← clause? c
    return if next = .leave then e else next) .leave

/-- The argument is a mode, even if it begins with a dash. -/
def isMode (argument : Bytes) : Bool :=
  1 < argument.length && (argument.drop 1).all fun b => (lit "rwxXstugoa,+-=01234567").contains b

end Mode

/-- Change whether files can be run. -/
def chmod : Utility := fun args => do
  let (before, dashed) := match args.findIdx? fun a => a.head? = some 0x2D && Mode.isMode a && a != lit "--" with
    | some i => (args.take i ++ args.drop (i + 1), args[i]?)
    | none => (args, none)
  let p ← arguments [flag 'R' "recursive", flag 'v' "verbose", flag 'c' "changes", flag 'f' "silent",
    flag 'f' "quiet"] 1 before
  let (mode, paths) ← match dashed, p.operands with
    | some m, [] => refuse 1 (lit "missing operand after " ++ Quoting.plain m)
    | some m, paths => pure (m, paths)
    | none, [] => refuse 1 (lit "missing operand")
    | none, [m] => refuse 1 (lit "missing operand after " ++ Quoting.plain m)
    | none, m :: paths => pure (m, paths)
  match Mode.read? mode with
  | none => refuse 1 (lit "invalid mode: " ++ Quoting.plain mode)
  | some effect =>
    let apply (files : Files) (id : NodeId) : Files :=
      match files.node? id, effect with
      | some (.file content _), .grant => files.setNode id (.file content true)
      | some (.file content _), .deny => files.setNode id (.file content false)
      | _, _ => files
    forOperands (fun path => do
      match ← Placing.place path with
      | .ok (.node id) =>
        change fun files =>
          let below := if p.has 'R' then (files.allBelow id).map Prod.snd else []
          (id :: below).foldl apply files
        return true
      | .ok (.descriptor _) => return true
      | r =>
        let e := match r with | .error e => e | .ok _ => Errno.noEntry
        let dangling := e = .noEntry
          && (← ask fun files view => files.resolveNode view path .keep).isOk
        if !p.has 'f' then
          complain (if dangling then lit "cannot operate on dangling symlink " ++ Quoting.always path
            else lit "cannot access " ++ Quoting.always path ++ lit ": " ++ e.sentence)
        return false) paths

end LineShell.Program
