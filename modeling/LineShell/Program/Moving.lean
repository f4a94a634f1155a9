import LineShell.Program.Asking
import LineShell.Program.Placing

/-!
# Linking, copying and moving

`ln` and `link` make links, `cp` copies files and trees, and `mv` gives them other names.
-/

namespace LineShell.Program

open Routine Arguments

/-- Two paths that lead to the same file. -/
def sameFile (source target : Bytes) : Routine Bool := do
  complain (Quoting.always source ++ lit " and " ++ Quoting.always target ++ lit " are the same file")
  return false

/-- The node that a path leads to, if there is one. -/
def nodeAt? (path : Bytes) (last : Last := .follow) : Routine (Option NodeId) :=
  ask fun files view => (files.resolveNode view path last).toOption

/-! ## Links -/

namespace Link

/-- The words for a link that cannot be made. -/
def words (symbolic : Bool) (source target : Bytes) (e : Errno) : Bytes :=
  let kind := lit (if symbolic then "failed to create symbolic link " else "failed to create hard link ")
  let brief := if symbolic then e != .nameTooLong && !source.isEmpty
    else e = .exists_ || e = .noSpace
  kind ++ Quoting.always target
    ++ (if brief then [] else lit (if symbolic then " -> " else " => ") ++ Quoting.always source)
    ++ lit ": " ++ e.sentence

/-- Make one link. -/
def make (p : Parsed) (source target : Bytes) : Routine Bool := do
  let symbolic := p.has 's'
  let last : Last := if p.has 'L' then .follow else .keep
  let original ← if symbolic then pure none else do
    match ← Placing.place source last with
    | .ok (.node id) => pure (some id)
    | r =>
      let e := match r with | .error e => e | .ok _ => .noEntry
      complain (lit "failed to access " ++ Quoting.always source ++ lit ": " ++ e.sentence)
      return false
  if let some id := original then
    if (← look).1.isDirectory id then
      complain (Quoting.shell source ++ lit ": hard link not allowed for directory")
      return false
  let here ← nodeAt? target .keep
  let way := p.lastOf "fi"
  if way.isSome && here.isSome then
    if here = (← nodeAt? source) then return (← sameFile source target)
    if !(← agrees (way = some 'i') (lit "replace " ++ Quoting.always target)) then return true
    let _ ← attempt fun files view => files.unlink view target
  let made ← attempt fun files view =>
    match original with
    | some id => files.link view id target
    | none => files.makeLink view source target
  match made with
  | .ok () =>
    if p.has 'v' then
      put (Quoting.always target ++ lit (if symbolic then " -> " else " => ") ++ Quoting.always source
        ++ lit "\n")
    return true
  | .error e =>
    complain (words symbolic source target e)
    return false

end Link

/-- Make links. -/
def ln : Utility := fun args => do
  let p ← arguments [flag 's' "symbolic", flag 'f' "force", flag 'n' "no-dereference",
    flag 'v' "verbose", valued 't' "target-directory", flag 'T' "no-target-directory",
    flag 'L' "logical", flag 'P' "physical", flag 'i' "interactive", flag 'r' "relative"] 1 args
  if p.has 'r' && !p.has 's' then giveUp 1 (lit "cannot do --relative without --symbolic")
  let isLink ← match p.operands with
    | [_, target] => do
      let id ← nodeAt? target .keep
      let node ← ask fun files _ => id.bind files.node?
      pure (match node with | some (.link _) => true | _ => false)
    | _ => pure false
  let p := if p.has 'n' && isLink then { p with given := p.given ++ [⟨'T', []⟩] } else p
  Placing.each (Link.make p) (← Placing.targets p (some Path.here))

/-- Give a file one name more. -/
def link : Utility := fun args => do
  let p ← arguments [] 1 args
  match p.operands with
  | [] => refuse 1 (lit "missing operand")
  | [source] => refuse 1 (lit "missing operand after " ++ Quoting.plain source)
  | _ :: _ :: extra :: _ => refuse 1 (lit "extra operand " ++ Quoting.plain extra)
  | [source, target] =>
    let made ← ask fun files view => do
      let original ← files.resolveNode view source .keep
      if files.isDirectory original then throw Errno.notPermitted
      files.link view original target
    match made with
    | .ok files => change fun _ => files
    | .error e =>
      giveUp 1 (lit "cannot create link " ++ Quoting.always target ++ lit " to " ++ Quoting.always source
        ++ lit ": " ++ e.sentence)

/-! ## Copies -/

namespace Copy

/-- What is copied, and what is told. -/
structure Rules where
  recursive : Bool := false
  /-- Symbolic links are copied as links. -/
  keepsLinks : Bool := false
  keepsOld : Bool := false
  /-- Nothing is replaced without asking. -/
  asks : Bool := false
  force : Bool := false
  verbose : Bool := false
  /-- Links are made in place of copies. -/
  linking : Option Bool := none

/-- The words for a path that cannot be used. -/
def failed (what : String) (path : Bytes) (e : Errno) : Routine Bool := do
  complain (lit what ++ Quoting.always path ++ lit ": " ++ e.sentence)
  return false

/-- Tell of a copy. -/
def Rules.told (r : Rules) (source target : Bytes) : Routine Unit :=
  if r.verbose then put (Quoting.always source ++ lit " -> " ++ Quoting.always target ++ lit "\n")
  else pure ()

/-- Copy the bytes of a file to a place that is there or not. -/
def copyBytes (source target : Bytes) (isNew executable : Bool) : Routine Bool := do
  match ← openPath source .read with
  | .error e => failed "cannot open " source e
  | .ok from_ =>
    if isNew && (← nodeAt? target .keep).isSome then
      complain (lit "not writing through dangling symlink " ++ Quoting.always target)
      return false
    match ← openPath target .write with
    | .error e =>
      close from_
      failed "cannot create regular file " target
        (if e = .isDirectory && Path.hasTrailingSlash target then .notDirectory else e)
    | .ok to_ =>
      if isNew && executable then
        if let some id ← nodeAt? target then
          change fun files =>
            match files.node? id with
            | some (.file content _) => files.setNode id (.file content true)
            | _ => files
      let good ← match ← readAll (some from_) with
        | .error e => failed "error reading " source e
        | .ok data =>
          match ← writeAll (some to_) data.length data with
          | .ok () => pure true
          | .error e => failed "error writing " target e
      close from_
      close to_
      return good

/-- What there is at a target: nothing, or a node or descriptor. -/
def standing (path : Bytes) (last : Last) : Routine (Except Errno (Option Place)) := do
  match ← Placing.place path last with
  | .ok (.vacant _ _) => return .ok none
  | .ok place => return .ok (some place)
  | .error .noEntry => return .ok none
  | .error e => return .error e

/-- How copying went. -/
inductive Outcome where
  | copied
  | failed
  /-- The copy was met among what is copied. Nothing more is copied then. -/
  | met
deriving DecidableEq, Repr

/-- The outcome of something that went well or not. -/
def Outcome.ofGood (good : Bool) : Outcome := if good then .copied else .failed

/-- What is asked for: to copy `source` to `target`. -/
structure Request where
  source : Bytes
  target : Bytes

/-- Copy one entry after the other, from the directory that was made first on, if one was. -/
def each (copyEntry : Option NodeId → Bytes → Routine (Option NodeId × Outcome)) :
    Option NodeId → List Bytes → Routine (Option NodeId × Outcome)
  | made, [] => pure (made, .copied)
  | made, name :: names => do
    let (made, outcome) ← copyEntry made name
    match outcome with
    | .met => return (made, .met)
    | outcome => do
      let (made, rest) ← each copyEntry made names
      return (made, if rest = .copied then outcome else rest)

/-- Copy a file, a link or a device, for which there is a place at the target or none. -/
def Rules.copyNode (r : Rules) (source target : Bytes) (place : Place) (there : Option Place) :
    Routine Bool := do
  let files := (← look).1
  let node? := match place with | .node id => files.node? id | _ => none
  let thereDirectory := match there with | some (.node id) => files.isDirectory id | _ => false
  if there.isSome then
    if r.keepsOld then return true
    if !(← agrees r.asks (lit "overwrite " ++ Quoting.always target)) then return true
  if thereDirectory then
    complain (lit "cannot overwrite directory " ++ Quoting.always target ++ lit " with non-directory")
    return false
  match place, node?, r.linking with
  | _, some (.link words), none =>
    if there.isSome then
      let _ ← attempt fun files view => files.unlink view target
    match ← attempt fun files view => files.makeLink view words target with
    | .ok () =>
      r.told source target
      return true
    | .error e => Copy.failed "cannot create symbolic link " target e
  | .node id, _, some symbolic =>
    let made ← attempt fun files view =>
      if symbolic then files.makeLink view source target else files.link view id target
    match made with
    | .ok () =>
      r.told source target
      return true
    | .error e =>
      Copy.failed (if symbolic then "cannot create symbolic link " else "cannot create hard link ") target e
  | _, _, _ =>
    let executable := match node? with
      | some (.file _ x) => x
      | some (.program _) => true
      | _ => false
    r.told source target
    copyBytes source target there.isNone executable

/-- Copy what a path leads to, to a depth. `made` is the directory that was made first. -/
def Rules.copy (r : Rules) (request : Request) : (depth : Nat) → (made : Option NodeId) →
    Bytes → Bytes → Routine (Option NodeId × Outcome)
  | 0, made, source, _ => return (made, .ofGood (← Copy.failed "cannot stat " source .tooManyLinks))
  | depth + 1, made, source, target => do
    let answer (good : Routine Bool) : Routine (Option NodeId × Outcome) := do
      return (made, .ofGood (← good))
    match ← Placing.place source (if r.keepsLinks then .keep else .follow) with
    | .ok (.vacant _ _) => answer (Copy.failed "cannot stat " source .noEntry)
    | .error e => answer (Copy.failed "cannot stat " source e)
    | .ok place =>
      let files := (← look).1
      let directory? := match place with
        | .node id => if files.isDirectory id then some id else none
        | _ => none
      let isLink := match place with
        | .node id => (match files.node? id with | some (.link _) => true | _ => false)
        | _ => false
      if directory?.isSome && !r.recursive then
        complain (lit "-r not specified; omitting directory " ++ Quoting.always source)
        return (made, .failed)
      if directory?.isSome && made = directory? then
        complain (lit "cannot copy a directory, " ++ Quoting.always request.source ++ lit ", into itself, "
          ++ Quoting.always request.target)
        return (made, .met)
      match ← standing target (if directory?.isSome || isLink || r.linking.isSome then .keep else .follow) with
      | .error e => answer (Copy.failed "cannot stat " target e)
      | .ok there =>
        if there = some place then return (← answer (sameFile source target))
        match directory? with
        | none => answer (r.copyNode source target place there)
        | some id =>
          let thereDirectory := match there with
            | some (.node id) => files.isDirectory id
            | _ => false
          if there.isSome && !thereDirectory then
            complain (lit "cannot overwrite non-directory " ++ Quoting.always target
              ++ lit " with directory " ++ Quoting.always source)
            return (made, .failed)
          let mut made := made
          if there.isNone then
            match ← attempt fun files view => files.makeDirectory view target with
            | .error e => return (← answer (Copy.failed "cannot create directory " target e))
            | .ok () => r.told source target
            if made.isNone then made ← nodeAt? target
          let entries ← ask fun files _ => (files.entries id).mergeSort fun a b => a.2 ≤ b.2
          each (fun made name =>
            { r with keepsLinks := true }.copy request depth made (pathIn source name) (pathIn target name))
            made (entries.map Prod.fst)

end Copy

/-- Copy files and trees. -/
def cp : Utility := fun args => do
  let p ← arguments [flag 'f' "force", flag 'p', perhapsValued '1' "preserve", flag 'r' "recursive",
    flag 'R', flag 'a' "archive", flag 'd', flag 'P' "no-dereference", flag 'L' "dereference",
    flag 'n' "no-clobber", flag 'v' "verbose", flag 'u' "update", flag 'x' "one-file-system",
    flag 'l' "link", flag 's' "symbolic-link", valued 't' "target-directory",
    flag 'T' "no-target-directory", flag 'i' "interactive", flag 'H', flag 'b'] 1 args
  let recursive := p.has 'r' || p.has 'R' || p.has 'a'
  let r : Copy.Rules :=
    { recursive := recursive, force := p.has 'f', keepsOld := p.lastOf "in" = some 'n', verbose := p.has 'v'
      asks := p.lastOf "in" = some 'i'
      keepsLinks := p.has 'P' || p.has 'd' || p.has 'a' || (recursive && !p.has 'L' && !p.has 'H')
      linking := if p.has 'l' then some false else if p.has 's' then some true else none }
  let targets ← Placing.targets p none
  let depth := (← look).1.inodes.size + 1
  let copyOne (seen : List Bytes × Bool) (t : Bytes × Bytes) : Routine (List Bytes × Bool) := do
    let again := seen.1.contains t.1
    let isDirectory := (← Placing.directory t.1).isOk
    if again && !(isDirectory && !recursive) then
      complain (lit (if isDirectory then "warning: source directory " else "warning: source file ")
        ++ Quoting.always t.1 ++ lit " specified more than once")
      return seen
    let same := (← Placing.place t.1).toOption = (← Placing.place t.2).toOption
    let (_, outcome) ← r.copy ⟨t.1, t.2⟩ depth none t.1 t.2
    return (if isDirectory && same then seen.1 else t.1 :: seen.1, seen.2 && outcome = .copied)
  let (_, good) ← targets.foldlM copyOne ([], true)
  exit (if good then 0 else 1)

/-! ## Moves -/

namespace Move

/-- Move what a path leads to. -/
def move (p : Parsed) (source target : Bytes) : Routine Bool := do
  let plain (e : Errno) : Routine Bool := do
    complain (lit "cannot move " ++ Quoting.always source ++ lit " to " ++ Quoting.always target
      ++ lit ": " ++ e.sentence)
    return false
  match ← Placing.place source .keep with
  | .ok (.vacant _ _) => Copy.failed "cannot stat " source .noEntry
  | .error e => Copy.failed "cannot stat " source e
  | .ok (.descriptor _) => plain .notPermitted
  | .ok (.node id) =>
    let files := (← look).1
    match ← Copy.standing target .keep with
    | .error e => Copy.failed "cannot stat " target e
    | .ok there =>
      let old? := match there with | some (.node old) => some old | _ => none
      let isDirectory := files.isDirectory id
      let oldDirectory := old?.any files.isDirectory
      let isLink := match files.node? id with | some (.link _) => true | _ => false
      let way := p.lastOf "fin"
      if way = some 'n' && old?.isSome then return true
      if old? = some id || (isLink && old?.isSome && old? = (← nodeAt? source)) then
        return (← sameFile source target)
      let asks := old?.isSome && way = some 'i'
      if !(← agrees asks (lit "overwrite " ++ Quoting.always target)) then return true
      if old?.isSome && oldDirectory && !isDirectory then
        complain (lit "cannot overwrite directory " ++ Quoting.always target
          ++ lit " with non-directory")
        return false
      if old?.isSome && !oldDirectory && isDirectory then
        complain (lit "cannot overwrite non-directory " ++ Quoting.always target
          ++ lit " with directory " ++ Quoting.always source)
        return false
      match ← attempt fun files view => files.rename view source target with
      | .ok () =>
        if p.has 'v' then
          put (lit "renamed " ++ Quoting.always source ++ lit " -> " ++ Quoting.always target ++ lit "\n")
        return true
      | .error .invalid =>
        complain (lit "cannot move " ++ Quoting.always source ++ lit " to a subdirectory of itself, "
          ++ Quoting.always target)
        return false
      | .error .notEmpty => Copy.failed "cannot overwrite " target .notEmpty
      | .error e => plain e

end Move

/-- Give files and directories other names. -/
def mv : Utility := fun args => do
  let p ← arguments [flag 'f' "force", flag 'n' "no-clobber", flag 'v' "verbose", flag 'u' "update",
    flag 'i' "interactive", valued 't' "target-directory", flag 'T' "no-target-directory", flag 'b'] 1 args
  Placing.each (Move.move p) (← Placing.targets p none)

end LineShell.Program
