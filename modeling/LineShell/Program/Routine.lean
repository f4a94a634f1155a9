import LineShell.Input
import LineShell.System.Action
import LineShell.System.Ending

/-!
# Programs as routines

A `Script` is a program as a tree: an action, and for each answer the script that goes
on. A `Routine` builds scripts piece by piece. It knows by its `Frame` under which
descriptors it finds the standard streams, so that one program can run inside another
(`Routine.inside`) as well as alone (`Routine.toScript`).
-/

namespace LineShell

/-- A program: what it does, and how it goes on. -/
inductive Script where
  | mk (action : Action Script)

/-- What a script does first. -/
def Script.action : Script → Action Script
  | .mk a => a

namespace Script

/-- Close descriptors, then go on. -/
def closing (ds : List Nat) (s : Script) : Script :=
  ds.foldl (fun s d => .mk (.close d s)) s

/-- End in a given way. -/
def ofEnding : Ending → Script
  | .exited code => .mk (.exit code)
  | .killed signal => .mk (.raise signal)

/-- Run a script inside a program, which goes on with `next` when it has ended, after at most
so many actions. The descriptors that it has opened and left open are closed then. A write
that nobody reads ends it. -/
def within (next : Ending → Script) : (actions : Nat) → (opened : List Nat) → Script → Script
  | 0, opened, _ => closing opened (next (.exited 0))
  | n + 1, opened, s =>
    match s.action with
    | .exit code => closing opened (next (.ofCode code))
    | .raise signal => closing opened (next (.killed signal))
    | .openPath path mode known answer =>
      .mk (.openPath path mode known fun
        | .ok d => within next n (d :: opened) (answer (.ok d))
        | .error e => within next n opened (answer (.error e)))
    | .close d s => .mk (.close d (within next n (opened.erase d) s))
    | .write d data none answer =>
      .mk (.write d data (some (closing opened (next (.killed 13)))) fun a =>
        within next n opened (answer a))
    | a => .mk (a.map (within next n opened))

end Script

/-- The surroundings of a running program. -/
structure Frame where
  /-- The name under which it was started. -/
  name : Bytes
  /-- The names and values that every program passes on to those it starts. -/
  environment : List (Bytes × Bytes) := []
  /-- The descriptors of its standard streams, none for a stream that is closed. -/
  stream : Nat → Option Nat := some

/-- A piece of a program that gives a value. -/
def Routine (α : Type) : Type := Frame → (α → Script) → Script

namespace Routine

instance : Monad Routine where
  pure a := fun _ k => k a
  bind p f := fun frame k => p frame fun a => f a frame k

instance : Inhabited (Routine Unit) := ⟨pure ()⟩

/-- The frame of the running program. -/
def frame : Routine Frame := fun e k => k e

/-- The descriptor of a standard stream. -/
def standard (n : Nat) : Routine (Option Nat) := fun e k => k (e.stream n)

/-- Let a moment pass. -/
def moment : Routine Unit := fun _ k => .mk (.compute (k ()))

/-- End with an exit code. -/
def exit {α : Type} (code : Nat) : Routine α := fun _ _ => .mk (.exit code)

/-- Die of a signal. -/
def die {α : Type} (signal : Nat) : Routine α := fun _ _ => .mk (.raise signal)

/-- Read at most `count` bytes. -/
def read (d : Option Nat) (count : Nat) : Routine (Except Errno Bytes) := fun _ k =>
  match d with
  | none => k (.error .badDescriptor)
  | some d => .mk (.read d count k)

/-- Write some of the bytes and say how many. -/
def write (d : Option Nat) (data : Bytes) : Routine (Except Errno Nat) := fun _ k =>
  match d with
  | none => k (.error .badDescriptor)
  | some d => .mk (.write d data none k)

/-- Open a path. -/
def openPath (path : Bytes) (mode : OpenMode) : Routine (Except Errno Nat) := fun e k =>
  .mk (.openPath path mode e.stream k)

/-- Go back by so many bytes in the file of a descriptor. -/
def rewind (d : Option Nat) (count : Nat) : Routine (Except Errno Unit) := fun _ k =>
  match d with
  | none => k (.error .badDescriptor)
  | some d => .mk (.rewind d count k)

/-- Close a descriptor. -/
def close (d : Nat) : Routine Unit := fun _ k => .mk (.close d (k ()))

/-- The number of the own process. -/
def self : Routine Nat := fun _ k => .mk (.self k)

/-- The node for which a descriptor stands, and the offset of the next byte. -/
def inspect (d : Option Nat) : Routine (Option (NodeId × Nat)) := fun _ k =>
  match d with
  | none => k none
  | some d => .mk (.inspect d k)

/-- Look at the file tree and the own directory. -/
def look : Routine (Files × View) := fun e k =>
  .mk (.files (fun files view => (files, view.directory)) fun files view =>
    k (files, view.renumber e.stream))

/-- Change the file tree. -/
def change (f : Files → Files) : Routine Unit := fun _ k =>
  .mk (.files (fun files view => (f files, view.directory)) fun _ _ => k ())

/-- Go to another directory. -/
def goTo (directory : NodeId) : Routine Unit := fun _ k =>
  .mk (.files (fun files _ => (files, directory)) fun _ _ => k ())

/-- Run a routine in another environment. -/
def inEnvironment {α : Type} (environment : List (Bytes × Bytes)) (p : Routine α) : Routine α :=
  fun e k => p { e with environment := environment } k

/-- Run a routine with other standard streams. -/
def redirected {α : Type} (stream : Nat → Option Nat) (p : Routine α) : Routine α :=
  fun e k => p { e with stream := stream } k

/-- Run a routine under another name. -/
def named {α : Type} (name : Bytes) (p : Routine α) : Routine α :=
  fun e k => p { e with name := name } k

/-- The program that a routine makes up in a frame. -/
def script (p : Routine Unit) (e : Frame) : Script := p e fun _ => .mk (.exit 0)

/-- The program that a routine makes up. -/
def toScript (name : Bytes) (environment : List (Bytes × Bytes)) (p : Routine Unit) : Script :=
  p.script { name := name, environment := environment }

/-- The rounds after which a routine stops to repeat itself. -/
def patience : Nat := Nat.pow 2 40

/-- Run a routine as a program of its own inside the running one, which goes on when it
has ended. -/
def inside (p : Routine Unit) : Routine Ending :=
  fun e k => (p.script e).within k patience []

/-- The program that a routine makes up, which closes the descriptors that it opens. -/
def part (p : Routine Unit) (e : Frame) : Script :=
  (p.script e).within .ofEnding patience []

/-! ## Whole streams -/

/-- The bytes asked for at a time. -/
def chunk : Nat := 65536

/-- Write all of the bytes. Every write takes one, so as many writes are enough. -/
def writeAll (d : Option Nat) : (writes : Nat) → Bytes → Routine (Except Errno Unit)
  | 0, _ => pure (.ok ())
  | writes + 1, data => do
    if data.isEmpty then return .ok ()
    match ← write d data with
    | .ok n => writeAll d writes (data.drop n)
    | .error e => return .error e

/-- Write to the standard error stream. What nobody takes is lost. -/
def warn (message : Bytes) : Routine Unit := do
  let _ ← writeAll (← standard 2) message.length message

/-- Write a message on the standard error stream, after the name of the program. -/
def complain (message : Bytes) : Routine Unit := do
  warn ((← frame).name ++ Utf8.ofString ": " ++ message ++ Utf8.ofString "\n")

/-- Write to the standard output stream. A program that cannot do so gives up with a
message and an exit code. -/
def putOr (code : Nat) (message : Errno → Bytes) (data : Bytes) : Routine Unit := do
  match ← writeAll (← standard 1) data.length data with
  | .ok () => return
  | .error e =>
    complain (message e)
    exit code

/-- The words for output that cannot be written. -/
def writeError (e : Errno) : Bytes := Utf8.ofString "write error: " ++ e.sentence

/-- Write to the standard output stream, or give up with exit code 1. -/
def put (data : Bytes) : Routine Unit := putOr 1 writeError data

/-- The standard input stream is open. -/
def hasInput : Routine Bool := do
  return ((← look).2.opened 0).isSome

/-- Give each chunk of a stream to `f`, up to the end of the stream. -/
def foldChunks {β : Type} (d : Option Nat) (f : β → Bytes → Routine β) :
    (rounds : Nat) → β → Routine (Except Errno β)
  | 0, b => pure (.ok b)
  | rounds + 1, b => do
    match ← read d chunk with
    | .error e => return .error e
    | .ok data =>
      if data.isEmpty then return .ok b
      foldChunks d f rounds (← f b data)

/-- Everything in a stream. -/
def readAll (d : Option Nat) : Routine (Except Errno Bytes) := do
  match ← foldChunks d (fun (parts : List Bytes) data => pure (data :: parts)) patience [] with
  | .ok parts => return .ok parts.reverse.flatten
  | .error e => return .error e

/-- Do something again and again. -/
def repeatedly (p : Routine Unit) : (rounds : Nat) → Routine Unit
  | 0 => pure ()
  | rounds + 1 => do p; repeatedly p rounds

end Routine

end LineShell
