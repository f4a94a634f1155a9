import LineShell.Program.Routine

/-!
# Channels inside a program

A program can run others inside itself side by side. A channel is a descriptor that only
they know, and that the system never sees: what one of them writes to it, another reads
from it. `Routine.piped` runs a writer and a reader by turns, `Routine.collected` keeps what
a writer writes, and `Routine.supplied` gives a reader a text.
-/

namespace LineShell

namespace Channel

/-- What a script does next, as the channel sees it. -/
inductive Request where
  | read (count : Nat) (next : Except Errno Bytes → Script)
  | write (data : Bytes) (broken : Script) (next : Except Errno Nat → Script)
  /-- Something that has nothing to do with the channel. -/
  | other (action : Action Script)
  | ended (e : Ending)

/-- A view in which a channel is open. -/
def shown (channel : Nat) (view : View) : View :=
  { view with opened := fun n => if n = channel then some .pipe else view.opened n }

/-- What a script does next, as the channel sees it. -/
def request (channel : Nat) (s : Script) : Request :=
  match s.action with
  | .read d count next =>
    if d = channel then .read count next else .other (.read d count next)
  | .write d data broken next =>
    if d = channel then .write data (broken.getD (.mk (.raise 13))) next else .other (.write d data broken next)
  | .rewind d count next =>
    if d = channel then .other (.compute (next (.error .illegalSeek)))
    else .other (.rewind d count next)
  | .close d next =>
    if d = channel then .other (.compute next) else .other (.close d next)
  | .inspect d next =>
    if d = channel then .other (.compute (next none)) else .other (.inspect d next)
  | .files change next =>
    .other (.files (fun files view => change files (shown channel view)) fun files view =>
      next files (shown channel view))
  | .exit code => .ended (.ofCode code)
  | .raise signal => .ended (.killed signal)
  | a => .other a

/-- The most bytes in a channel. -/
def capacity : Nat := 65536

/-- A writer and a reader at the two ends of a channel. They take turns: each goes on until
it has to wait or has ended. -/
structure Pair where
  /-- The writer, until it has ended. -/
  writer : Option Script
  /-- The reader, or how it has ended. -/
  reader : Except Ending Script
  contents : Bytes := []
  writersTurn : Bool := true
  /-- The directory of the one that waits. -/
  away : NodeId

/-- Let the other one of a pair have its turn. Each keeps its own directory. -/
def Pair.switch (p : Pair) (go : Pair → Script) : Script :=
  .mk (.files (fun files _ => (files, p.away)) fun _ view =>
    go { p with writersTurn := !p.writersTurn, away := view.directory })

/-- Run a pair until both have ended, with at most so many actions, then go on with how the
reader has ended. -/
def run (channel : Nat) (next : Ending → Script) : (actions : Nat) → Pair → Script
  | 0, _ => next (.exited 0)
  | n + 1, p =>
    let go := run channel next n
    match p.writersTurn, p.writer, p.reader with
    | _, none, .error e => next e
    | true, none, _ => p.switch go
    | false, _, .error _ => p.switch go
    | true, some s, reader =>
      match request channel s with
      | .ended _ => go { p with writer := none }
      | .read _ answer => go { p with writer := some (answer (.error .badDescriptor)) }
      | .write data broken answer =>
        match reader with
        | .error _ => go { p with writer := some broken }
        | .ok _ =>
          let room := capacity - p.contents.length
          if data.isEmpty then go { p with writer := some (answer (.ok 0)) }
          else if room = 0 then p.switch go
          else go { p with
            writer := some (answer (.ok (min room data.length)))
            contents := p.contents ++ data.take room }
      | .other a => .mk (a.map fun s => go { p with writer := some s })
    | false, writer, .ok s =>
      match request channel s with
      | .ended e => go { p with reader := .error e }
      | .write _ _ answer => go { p with reader := .ok (answer (.error .badDescriptor)) }
      | .read count answer =>
        if p.contents.isEmpty && count != 0 && writer.isSome then p.switch go
        else go { p with
          reader := .ok (answer (.ok (p.contents.take count)))
          contents := p.contents.drop count }
      | .other a => .mk (a.map fun s => go { p with reader := .ok s })

/-- Run a writer until it has ended, then go on with what it has written and how it has
ended. -/
def collect (channel : Nat) (next : Bytes × Ending → Script) :
    (actions : Nat) → (parts : List Bytes) → Script → Script
  | 0, parts, _ => next (parts.reverse.flatten, .exited 0)
  | n + 1, parts, s =>
    match request channel s with
    | .ended e => next (parts.reverse.flatten, e)
    | .read _ answer => collect channel next n parts (answer (.error .badDescriptor))
    | .write data _ answer => collect channel next n (data :: parts) (answer (.ok data.length))
    | .other a => .mk (a.map (collect channel next n parts))

/-- Run a reader that finds a text in a channel. -/
def supply (channel : Nat) : (actions : Nat) → (text : Bytes) → Script → Script
  | 0, _, s => s
  | n + 1, text, s =>
    match request channel s with
    | .ended _ => s
    | .read count answer => supply channel n (text.drop count) (answer (.ok (text.take count)))
    | .write _ _ answer => supply channel n text (answer (.error .badDescriptor))
    | .other a => .mk (a.map (supply channel n text))

/-- More than any descriptor that the system gives. -/
def base : Nat := Nat.pow 2 32

/-- The number of a channel that no stream of a program has. -/
def free (e : Frame) : Nat :=
  ((List.range 10).filterMap e.stream).foldl (fun n d => max n (d + 1)) base

/-- Streams with one of them exchanged. -/
def exchange (stream : Nat → Option Nat) (n : Nat) (d : Option Nat) : Nat → Option Nat :=
  fun m => if m = n then d else stream m

end Channel

namespace Routine

open Channel

/-- Run a routine with a standard stream exchanged. -/
def withStream {α : Type} (n : Nat) (d : Option Nat) (p : Routine α) : Routine α := fun e k =>
  p { e with stream := exchange e.stream n d } k

/-- Run two routines as programs of their own side by side. The second reads on its standard
input stream what the first writes on its standard output stream. The answer is how the
second has ended. -/
def piped (left right : Routine Unit) : Routine Ending := do
  let (_, view) ← look
  let channel := free (← frame)
  let ending ← (fun e k => run channel k patience
    { writer := some (part (withStream 1 (some channel) left) e)
      reader := .ok (part (withStream 0 (some channel) right) e)
      away := view.directory } : Routine Ending)
  goTo view.directory
  return ending

/-- What a routine, as a program of its own, writes on its standard output stream, and how it
ends. -/
def collected (p : Routine Unit) : Routine (Bytes × Ending) := do
  let (_, view) ← look
  let channel := free (← frame)
  let r ← (fun e k =>
    collect channel k patience [] (part (withStream 1 (some channel) p) e) : Routine (Bytes × Ending))
  goTo view.directory
  return r

/-- Run a routine that finds a text in a channel. -/
def supplied {α : Type} (text : Bytes) (p : (channel : Nat) → Routine α) : Routine α := fun e k =>
  supply (free e) patience text (p (free e) e k)

end Routine

end LineShell
