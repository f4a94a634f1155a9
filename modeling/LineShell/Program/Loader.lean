import LineShell.Program.Catalogue

/-!
# Finding and loading programs

`Loader.find` finds a program by its name: a name with a slash is a path, and any other
is looked for in the directories of the search path. `Loader.interpreter?` reads the
first line of a script that names its interpreter. An executable file that is no script
is a script of `/bin/sh`. `machine` is the machine of the programs in the catalogue.
-/

namespace LineShell.Program

open Routine

namespace Loader

/-- The directories in which programs are looked for, in order. -/
def searchPath (environment : List (Bytes × Bytes)) : List Bytes :=
  match environment.lookup (lit "PATH") with
  | some path => partsOf 0x3A path
  | none => [lit "/bin", lit "/usr/bin"]

/-- The interpreter of scripts that name none. -/
def defaultInterpreter : Bytes := lit "/bin/sh"

/-- The bytes of a file in which the interpreter must be named. -/
def headSize : Nat := 256

/-- The most scripts of which one interprets the next. -/
def depthLimit : Nat := 5

/-- The byte ends the name of an interpreter. -/
def endsName (b : UInt8) : Bool := ByteClass.isBlank b || b = 0

/-- The interpreter that the head of a file names, and its argument if it gives one. Zero
bytes stand in the head behind a short file. A line that the head cuts short loses its last
byte, and a name that it cuts short is none. -/
def interpreter? (content : Bytes) : Option (Bytes × Option Bytes) :=
  match content.take headSize with
  | 0x23 :: 0x21 :: rest =>
    let line :=
      match Text.cutAt lineFeed rest with
      | some (line, _) => some line
      | none =>
        let padded := rest ++ List.replicate (headSize - content.length) 0
        if (padded.dropWhile ByteClass.isBlank).any endsName then some (padded.take (headSize - 3))
        else none
    line.bind fun line =>
      let line := (Text.dropEndWhile ByteClass.isBlank line).dropWhile ByteClass.isBlank
      let name := line.takeWhile fun b => !endsName b
      let behind := line.drop name.length
      if name.isEmpty then none
      else if (behind.head?.map ByteClass.isBlank).getD false then
        some (name, some ((behind.dropWhile ByteClass.isBlank).takeWhile (· != 0)))
      else some (name, none)
  | _ => none

/-- What an executable path leads to. -/
inductive Image where
  /-- A program of the catalogue, by its name. -/
  | program (name : Bytes)
  /-- A script with its interpreter. -/
  | script (interpreter : Bytes) (argument : Option Bytes)

/-- What can be executed at a path. -/
def image (files : Files) (view : View) (path : Bytes) : Except Errno Image :=
  match files.resolveNode view path with
  | .error e => .error e
  | .ok id =>
    if view.isWritten id then .error .textBusy
    else match files.node? id with
    | some (.program name) => .ok (.program name)
    | some (.file content true) =>
      match interpreter? content with
      | some (interpreter, argument) => .ok (.script interpreter argument)
      | none => .error .noExec
    | _ => .error .accessDenied

/-- Execute a path with arguments, the first of which is the program's name for itself.
The answer is the program of the catalogue and the arguments it gets. -/
def execute (files : Files) (view : View) :
    (depth : Nat) → Bytes → List Bytes → Except Errno (Bytes × List Bytes)
  | depth, path, arguments =>
    match image files view path with
    | .error e => .error e
    | .ok (.program name) => .ok (name, arguments)
    | .ok (.script interpreter argument) =>
      match depth with
      | 0 => .error .tooManyLinks
      | depth + 1 =>
        execute files view depth interpreter
          (interpreter :: argument.toList ++ path :: arguments.drop 1)

/-- Execute a path, or let the default interpreter do so where the file is no program. -/
def executeOrInterpret (files : Files) (view : View) (path : Bytes)
    (arguments : List Bytes) : Except Errno (Bytes × List Bytes) :=
  match execute files view depthLimit path arguments with
  | .error e =>
    if e = .noExec then
      execute files view depthLimit defaultInterpreter
        (defaultInterpreter :: path :: arguments.drop 1)
    else .error e
  | .ok r => .ok r

/-- The failure says that a program may still be in another directory. -/
def isAbsence (e : Errno) : Bool := e = .noEntry || e = .notDirectory

/-- Look for a program in directories. A file that may not be executed is passed over,
but told if there is no other. -/
def search (files : Files) (view : View) (arguments : List Bytes) (name : Bytes)
    (refused : Bool) : List Bytes → Except Errno (Bytes × List Bytes)
  | [] => .error (if refused then .accessDenied else .noEntry)
  | d :: ds =>
    let path := if d.isEmpty then name else d ++ Path.slash :: name
    match executeOrInterpret files view path arguments with
    | .ok r => .ok r
    | .error e =>
      if e = .accessDenied then search files view arguments name true ds
      else if isAbsence e then search files view arguments name refused ds
      else .error e

/-- Find the program that arguments name first. The answer is the program of the
catalogue and the arguments it gets. -/
def find (files : Files) (view : View) (environment : List (Bytes × Bytes))
    (arguments : List Bytes) :
    Except Errno (Bytes × List Bytes) :=
  match arguments.headD [] with
  | [] => .error .noEntry
  | name =>
    if name.contains Path.slash then executeOrInterpret files view name arguments
    else if Path.nameLimit < name.length then .error .nameTooLong
    else search files view arguments name false (searchPath environment)

/-- The library that a program opens first. -/
def library (program : Bytes) : Bytes :=
  if ([lit "ls", lit "cp", lit "mv", lit "mkdir"]).contains program then lit "libselinux.so.1"
  else if program = lit "expr" then lit "libgmp.so.10"
  else if program = lit "grep" then lit "libpcre2-8.so.0"
  else lit "libc.so.6"

/-- The file that tells where libraries are. -/
def libraryCache : Bytes := lit "/etc/ld.so.cache"

/-- A program that opens its libraries before it does anything else. It cannot begin without
a descriptor to spare. -/
def linked (program name : Bytes) (p : Routine Unit) : Routine Unit := do
  match ← openPath libraryCache .read with
  | .ok d => close d
  | .error e =>
    if e = .tooManyOpen then
      warn (name ++ lit ": error while loading shared libraries: " ++ library program
        ++ lit ": cannot open shared object file: Error " ++ digits e.number ++ lit "\n")
      exit 127
  p

/-- How deep shells may start shells. -/
def nestingLimit : Nat := 64

/-- Find a program and start it, where shells may start shells to a depth. -/
def launch : (nesting : Nat) → Launcher
  | 0 => fun _ _ _ _ => .error .noProcess
  | nesting + 1 => fun files view environment arguments =>
    match find files view environment arguments with
    | .error e => .error e
    | .ok (program, arguments) =>
      match Catalogue.utility? (launch nesting) program with
      | some utility =>
        let name := arguments.headD program
        .ok (name, linked program name (utility (arguments.drop 1)))
      | none => .error .noExec

end Loader

/-- The machine of the programs in the catalogue, which find an environment. -/
def machine (environment : List (Bytes × Bytes)) : Machine Script where
  load files view arguments :=
    (Loader.launch Loader.nestingLimit files view environment arguments).map fun r =>
      r.2.toScript r.1 environment
  act := Script.action

end LineShell.Program
