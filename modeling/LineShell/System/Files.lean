import LineShell.Errno

/-!
# The file tree

`Files` holds the nodes of a file tree by number: directories, files, symbolic links,
programs and devices. `Files.resolve` follows a path from a directory to a node, or to
the free name where a file could be made. `Files.openNode` is what happens to the tree
when a path is opened, and `Files.readAt` and `Files.writeAt` are what an open node
gives and takes.
-/

namespace LineShell

/-- The number of a node. -/
abbrev NodeId := Nat

/-- A file that holds nothing. -/
inductive Device where
  /-- It is always empty and takes everything. -/
  | null
  /-- It gives zero bytes without end. -/
  | zero
  /-- It has no room. -/
  | full
deriving DecidableEq, Repr

/-- A node of the tree. -/
inductive Node where
  | directory (parent : NodeId) (entries : List (Bytes × NodeId))
  | file (content : Bytes) (executable : Bool)
  | link (target : Bytes)
  /-- A program that the system knows by name. -/
  | program (name : Bytes)
  | device (kind : Device)
  /-- The directory of the descriptors of the process that looks. -/
  | descriptors (parent : NodeId)
deriving DecidableEq, Repr

/-- The node is a directory. -/
def Node.isDirectory : Node → Bool
  | .directory _ _ => true
  | .descriptors _ => true
  | _ => false

/-- A node and the user it belongs to. -/
structure Inode where
  node : Node
  owner : Nat := 0
deriving DecidableEq, Repr

/-- A file tree. Node 0 is its root. -/
structure Files where
  inodes : Array Inode
deriving Repr

/-- Where a path leads. -/
inductive Place where
  /-- To a node. -/
  | node (id : NodeId)
  /-- To a name that is free in a directory. -/
  | vacant (directory : NodeId) (name : Bytes)
  /-- To an open descriptor of the process that looks. -/
  | descriptor (number : Nat)
deriving DecidableEq, Repr

/-- How a path is opened. Writing empties a file, and both writing and appending make
one where there is none. -/
inductive OpenMode where
  | read
  | write
  | append
deriving DecidableEq, Repr

/-- What an open descriptor leads to. -/
inductive Opened where
  | node (id : NodeId)
  | pipe
deriving DecidableEq, Repr

/-- From where, and by whom, the tree is looked at. -/
structure View where
  /-- The directory in which relative paths begin. -/
  directory : NodeId
  /-- What the descriptors of the looking process lead to. -/
  opened : Nat → Option Opened := fun _ => none
  /-- The nodes that some process has open for writing. -/
  isWritten : NodeId → Bool := fun _ => false

/-- The view of somebody who knows the descriptors by other numbers. -/
def View.renumber (view : View) (known : Nat → Option Nat) : View :=
  { view with opened := fun n => (known n).bind view.opened }

/-- What becomes of the last name of a path. -/
inductive Last where
  /-- A symbolic link is followed. -/
  | follow
  /-- A symbolic link is what the path leads to. -/
  | keep
  /-- A symbolic link is followed, and a file may be made. A path that asks for a directory
  is refused before the last name is looked for. -/
  | create
deriving DecidableEq, Repr

/-! ## Paths -/

namespace Path

/-- The byte between the names of a path. -/
def slash : UInt8 := 0x2F

/-- The name of a directory in itself. -/
def here : Bytes := Utf8.ofString "."

/-- The name of the directory above. -/
def above : Bytes := Utf8.ofString ".."

/-- The path begins at the root. -/
def isAbsolute (path : Bytes) : Bool := path.head? = some slash

/-- The path ends with a slash. -/
def hasTrailingSlash (path : Bytes) : Bool := path.getLast? = some slash

/-- The names of a path. A slash at the end asks for a directory: it leaves an empty name
behind. -/
def names (path : Bytes) : List Bytes :=
  (Text.records slash path).filter (fun n => !n.isEmpty)
    ++ if hasTrailingSlash path then [[]] else []

/-- The most bytes of a name. -/
def nameLimit : Nat := 255

/-- The most bytes of a path. -/
def limit : Nat := 4095

/-- The most symbolic links followed on the way to one node. -/
def linkLimit : Nat := 40

end Path

namespace Files

/-- The node of a number. -/
def node? (files : Files) (id : NodeId) : Option Node :=
  files.inodes[id]?.map Inode.node

/-- Put another node under a number. -/
def setNode (files : Files) (id : NodeId) (node : Node) : Files :=
  ⟨files.inodes.modify id fun i => { i with node := node }⟩

/-- The tree with one node more, and its number. -/
def addNode (files : Files) (node : Node) : NodeId × Files :=
  (files.inodes.size, ⟨files.inodes.push ⟨node, 0⟩⟩)

/-- The tree that is a root alone. -/
def root : Files := ⟨#[⟨.directory 0 [], 0⟩]⟩

/-- The entry of a directory with a given name. -/
def child? (files : Files) (directory : NodeId) (name : Bytes) : Option NodeId :=
  match files.node? directory with
  | some (.directory _ entries) => entries.lookup name
  | _ => none

/-- The entries of a directory. -/
def entries (files : Files) (directory : NodeId) : List (Bytes × NodeId) :=
  match files.node? directory with
  | some (.directory _ entries) => entries
  | _ => []

/-- The directory above a directory. -/
def parent (files : Files) (directory : NodeId) : NodeId :=
  match files.node? directory with
  | some (.directory p _) => p
  | some (.descriptors p) => p
  | _ => directory

/-- The directory is in the tree: it is the root, or the directory above has it. -/
def isLinked (files : Files) (directory : NodeId) : Bool :=
  directory = 0 || (files.entries (files.parent directory)).any (·.2 = directory)

/-- Put a directory below another. -/
def setParent (files : Files) (directory parent : NodeId) : Files :=
  match files.node? directory with
  | some (.directory _ entries) => files.setNode directory (.directory parent entries)
  | _ => files

/-- Enter a node in a directory under a name. -/
def enter (files : Files) (directory : NodeId) (name : Bytes) (id : NodeId) : Files :=
  match files.node? directory with
  | some (.directory p entries) =>
    files.setNode directory (.directory p (entries.filter (·.1 != name) ++ [(name, id)]))
  | _ => files

/-- Take a name out of a directory. -/
def remove (files : Files) (directory : NodeId) (name : Bytes) : Files :=
  match files.node? directory with
  | some (.directory p entries) =>
    files.setNode directory (.directory p (entries.filter (·.1 != name)))
  | _ => files

/-- Make a node in a directory under a name that is free. -/
def create (files : Files) (directory : NodeId) (name : Bytes) (node : Node) : NodeId × Files :=
  let r := files.addNode node
  (r.1, r.2.enter directory name r.1)

/-! ## Following a path -/

/-- The node is a file or a program. -/
def isFile (files : Files) (id : NodeId) : Bool :=
  match files.node? id with
  | some (.file _ _) => true
  | some (.program _) => true
  | _ => false

/-- The node is a directory. -/
def isDirectory (files : Files) (id : NodeId) : Bool :=
  ((files.node? id).map Node.isDirectory).getD false

/-- What a name stands for in a directory. -/
inductive Child where
  | missing
  | node (id : NodeId)
  /-- A descriptor of the looking process, and what it leads to. -/
  | descriptor (number : Nat) (opened : Opened)
deriving DecidableEq, Repr

/-- The descriptor that a name stands for. Only the shortest digits do. -/
def descriptorNumber? (name : Bytes) : Option Nat :=
  match Decimal.natural? (Utf8.decodeLossy name) with
  | some n => if Utf8.encode (Decimal.ofNat n) = name then some n else none
  | none => none

/-- What a name stands for in a directory. -/
def childOf (files : Files) (view : View) (directory : NodeId) (name : Bytes) : Child :=
  match files.node? directory with
  | some (.descriptors _) =>
    match descriptorNumber? name with
    | none => .missing
    | some n =>
      match view.opened n with
      | none => .missing
      | some opened => .descriptor n opened
  | _ =>
    match files.child? directory name with
    | none => .missing
    | some id => .node id

/-- Follow names from a directory, with so many symbolic links still allowed. -/
def walk (files : Files) (view : View) (last : Last) (links : Nat) (directory : NodeId) :
    List Bytes → Except Errno Place
  | [] => .ok (.node directory)
  | name :: rest =>
    if name.isEmpty || name = Path.here then walk files view last links directory rest
    else if name = Path.above then walk files view last links (files.parent directory) rest
    else if last = .create && rest = [[]] then .error .isDirectory
    else if Path.nameLimit < name.length then .error .nameTooLong
    else match files.childOf view directory name with
      | .missing =>
        if rest.isEmpty && files.isLinked directory then .ok (.vacant directory name)
        else .error .noEntry
      | .descriptor n opened =>
        if rest.isEmpty && last = .keep then .ok (.descriptor n)
        else match links, opened with
          | 0, _ => .error .tooManyLinks
          | _, .pipe => if rest.isEmpty then .ok (.descriptor n) else .error .notDirectory
          | links + 1, .node id =>
            if files.isDirectory id then
              walk files view last links id rest
            else if rest.isEmpty then .ok (.node id)
            else .error .notDirectory
      | .node id =>
        match files.node? id with
        | some (.directory _ _) => walk files view last links id rest
        | some (.descriptors _) => walk files view last links id rest
        | some (.link target) =>
          if rest.isEmpty && last = .keep then .ok (.node id)
          else match links with
            | 0 => .error .tooManyLinks
            | links + 1 =>
              if target.isEmpty then .error .noEntry
              else walk files view last links (if Path.isAbsolute target then 0 else directory)
                (Path.names target ++ rest)
        | _ => if rest.isEmpty then .ok (.node id) else .error .notDirectory
termination_by names => (links, names.length)

/-- Where a path leads. -/
def resolve (files : Files) (view : View) (path : Bytes) (last : Last := .follow) :
    Except Errno Place :=
  if path.isEmpty then .error .noEntry
  else if Path.limit < path.length then .error .nameTooLong
  else walk files view last Path.linkLimit (if Path.isAbsolute path then 0 else view.directory)
    (Path.names path)

/-- The node to which a path leads. -/
def resolveNode (files : Files) (view : View) (path : Bytes) (last : Last := .follow) :
    Except Errno NodeId :=
  match files.resolve view path last with
  | .ok (.node id) => .ok id
  | .ok _ => .error .noEntry
  | .error e => .error e

/-- The directory to which a path leads. -/
def resolveDirectory (files : Files) (view : View) (path : Bytes) : Except Errno NodeId :=
  match files.resolve view path with
  | .ok (.node id) =>
    if files.isDirectory id then .ok id else .error .notDirectory
  | .ok (.vacant _ _) => .error .noEntry
  | .ok (.descriptor _) => .error .notDirectory
  | .error e => .error e

/-! ## Opening, reading and writing -/

/-- What a node becomes when it is opened. -/
def openExisting (files : Files) (id : NodeId) (mode : OpenMode) : Except Errno Files :=
  match files.node? id, mode with
  | some _, .read => .ok files
  | some (.file _ x), .write => .ok (files.setNode id (.file [] x))
  | some (.file _ _), .append => .ok files
  | some (.device _), _ => .ok files
  | some (.directory _ _), _ => .error .isDirectory
  | some (.descriptors _), _ => .error .isDirectory
  | some _, _ => .error .accessDenied
  | none, _ => .error .noEntry

/-- What a path that is opened leads to: a node, or a descriptor that is open already. -/
inductive Target where
  | node (id : NodeId)
  | descriptor (number : Nat)
deriving DecidableEq, Repr

/-- The way in which the path of a file to be opened is followed. -/
def OpenMode.last : OpenMode → Last
  | .read => .follow
  | .write => .create
  | .append => .create

/-- Open a path. A file that is not there is made, unless it is to be read. -/
def openPath (files : Files) (view : View) (path : Bytes) (mode : OpenMode) :
    Except Errno (Target × Files) :=
  match files.resolve view path (OpenMode.last mode) with
  | .ok (.node id) => (files.openExisting id mode).map fun files => (.node id, files)
  | .ok (.descriptor n) => .ok (.descriptor n, files)
  | .ok (.vacant d name) =>
    if mode = .read || (files.node? d).any (fun n => n matches .descriptors _) then .error .noEntry
    else
      let r := files.create d name (.file [] false)
      .ok (.node r.1, r.2)
  | .error e => .error e

/-- The first bytes of every program. -/
def programHead : Bytes := [0x7F, 0x45, 0x4C, 0x46]

/-- What a node gives at an offset, at most `count` bytes. -/
def readAt (files : Files) (id : NodeId) (offset count : Nat) : Except Errno Bytes :=
  match files.node? id with
  | some (.file content _) => .ok ((content.drop offset).take count)
  | some (.directory _ _) => .error .isDirectory
  | some (.descriptors _) => .error .isDirectory
  | some (.device .null) => .ok []
  | some (.device _) => .ok (List.replicate count 0)
  | some (.program _) => .ok ((programHead.drop offset).take count)
  | _ => .error .badDescriptor

/-- `content` with `data` in it from `offset` on. A gap is filled with zeros. -/
def overwrite (content : Bytes) (offset : Nat) (data : Bytes) : Bytes :=
  content.take offset ++ (List.replicate (offset - content.length) 0 ++ data)
    ++ content.drop (offset + data.length)

/-- The number of bytes in a node. -/
def size (files : Files) (id : NodeId) : Nat :=
  match files.node? id with
  | some (.file content _) => content.length
  | some (.program _) => programHead.length
  | _ => 0

/-- The tree after bytes were written to a node at an offset. -/
def writeAt (files : Files) (id : NodeId) (offset : Nat) (data : Bytes) : Except Errno Files :=
  match files.node? id with
  | some (.file content x) => .ok (files.setNode id (.file (overwrite content offset data) x))
  | some (.device .full) => if data.isEmpty then .ok files else .error .noSpace
  | some (.device _) => .ok files
  | _ => .error .badDescriptor

/-- Everything in the file to which a path leads. -/
def content (files : Files) (view : View) (path : Bytes) : Except IoError Bytes :=
  if path.contains 0 then .error .zeroInName
  else match files.resolveNode view path with
    | .error e => .error (.system e)
    | .ok id =>
      match files.readAt id 0 (files.size id) with
      | .error e => .error (.system e)
      | .ok content => .ok content

/-! ## Listing -/

/-- The paths below a directory and their nodes, to a depth of `depth`. -/
def below (files : Files) : (depth : Nat) → NodeId → List (List Bytes × NodeId)
  | 0, _ => []
  | depth + 1, directory =>
    (files.entries directory).flatMap fun e =>
      ([e.1], e.2) :: (below files depth e.2).map fun p => (e.1 :: p.1, p.2)

/-- Every path below a directory. No path is longer than there are nodes. -/
def allBelow (files : Files) (directory : NodeId) : List (List Bytes × NodeId) :=
  files.below files.inodes.size directory

/-- The names from the root to a directory, with so many steps up allowed. -/
def namesTo (files : Files) : Nat → NodeId → List Bytes
  | 0, _ => []
  | n + 1, directory =>
    if directory = 0 then []
    else
      let above := files.parent directory
      match (files.entries above).find? (·.2 = directory) with
      | some e => namesTo files n above ++ [e.1]
      | none => namesTo files n above

/-- The names from the root to a directory. -/
def pathTo (files : Files) (directory : NodeId) : List Bytes :=
  files.namesTo files.inodes.size directory

/-! ## Building a tree -/

/-- The directory under names from a directory, made where it is missing. -/
def ensureDirectory (files : Files) (directory : NodeId) : List Bytes → NodeId × Files
  | [] => (directory, files)
  | name :: rest =>
    match files.child? directory name with
    | some id => ensureDirectory files id rest
    | none =>
      let r := files.create directory name (.directory directory [])
      ensureDirectory r.2 r.1 rest

/-- Put a node at a path below a directory, with the directories on the way. A directory
that is there stays. -/
def plant (files : Files) (directory : NodeId) (path : Bytes) (node : Node) : Files :=
  let names := Path.names path
  match names.getLast? with
  | none => files
  | some name =>
    let r := files.ensureDirectory directory names.dropLast
    match node, r.2.child? r.1 name with
    | .directory _ _, some _ => r.2
    | .directory _ _, none => (r.2.create r.1 name (.directory r.1 [])).2
    | .descriptors _, _ => (r.2.create r.1 name (.descriptors r.1)).2
    | node, _ => (r.2.create r.1 name node).2

end Files

end LineShell
