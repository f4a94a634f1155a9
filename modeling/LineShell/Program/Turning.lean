import LineShell.Program.Arguments

/-!
# Turning texts around

`rev` turns each line around, and `tac` writes the lines of its inputs from last to first.
-/

namespace LineShell.Program

open Routine Arguments

namespace Rev

/-- The bytes that are written at a time. -/
def block : Nat := 4096

/-- A line from its last byte to its first, but for the line feed. -/
def turn (line : Bytes) : Bytes :=
  let text := chomp lineFeed line
  text.reverse ++ line.drop text.length

/-- Turn the lines of an input around. A failed read is told with the number of the lines
before it. -/
def turnInput (name : Bytes) (d : Option Nat) : Routine (Bytes × Bool) := do
  match ← readAll d with
  | .ok data => return ((linesOf lineFeed data).flatMap turn, true)
  | .error e =>
    complain (name ++ lit ": 0: " ++ e.sentence)
    return ([], false)

/-- Turn the lines of the inputs around. -/
def turnInputs : List Bytes → Routine (Bytes × Bool)
  | [] => pure ([], true)
  | path :: paths => do
    let (data, good) ← match ← openPath path .read with
      | .error e => do
        complain (lit "cannot open " ++ path ++ lit ": " ++ e.sentence)
        pure ([], false)
      | .ok d => do
        let r ← turnInput path (some d)
        close d
        pure r
    let (rest, others) ← turnInputs paths
    return (data ++ rest, good && others)

end Rev

/-- Turn each line around. -/
def rev : Utility := fun args => do
  let p ← arguments [] 1 args
  let (data, good) ← if p.operands.isEmpty then Rev.turnInput (lit "stdin") (← standard 0)
    else Rev.turnInputs p.operands
  match ← writeAll (← standard 1) data.length data with
  | .ok () => exit (if good then 0 else 1)
  | .error .badDescriptor => exit (if good then 0 else 1)
  | .error e =>
    complain (if data.length < Rev.block then writeError e else lit "write error")
    exit 1

namespace Tac

/-- The options. -/
def options : List Spec :=
  [flag 'b' "before", flag 'r' "regex", valued 's' "separator"]

/-- The pieces of a text from last to first. A separator belongs to the piece before it, or
to the one behind it if `before` says so. The text is given from its last byte to its first.
Every step takes a byte off, so as much fuel as there are bytes is enough. -/
def pieces (separator : Bytes) (before : Bool) : Nat → (piece : Bytes) → Bytes → List Bytes
  | 0, piece, _ => [piece]
  | _, piece, [] => [piece]
  | fuel + 1, piece, b :: rest =>
    if separator.reverse.isPrefixOf (b :: rest) then
      let rest := (b :: rest).drop separator.length
      if before then (separator ++ piece) :: pieces separator before fuel [] rest
      else piece :: pieces separator before fuel separator rest
    else pieces separator before fuel (b :: piece) rest

/-- The pieces of a text from last to first, joined. -/
def reversed (separator : Bytes) (before : Bool) (data : Bytes) : Bytes :=
  (pieces separator before data.length [] data.reverse).flatten

/-- Write one input. -/
def writeInput (separator : Bytes) (before : Bool) (path : Bytes) : Routine Bool := do
  let failed (e : Errno) : Routine Bool := do
    complain (Quoting.shell (spelledOut path) ++ lit ": read error: " ++ e.sentence)
    return false
  match ← openInput path with
  | .error e =>
    complain (lit "failed to open " ++ Quoting.always path ++ lit " for reading: " ++ e.sentence)
    return false
  | .ok d =>
    let good ← match ← readAll d with
      | .error .isDirectory => failed .invalid
      | .error e => failed e
      | .ok data => do
        put (reversed separator before data)
        pure true
    closeInput path d
    return good

end Tac

/-- Write the lines of each input from last to first. -/
def tac : Utility := fun args => do
  let p ← arguments Tac.options 1 args
  let separator := (p.value? 's').getD [lineFeed]
  let separator := if separator.isEmpty then [0] else separator
  let paths := inputsOf p.operands
  let good ← paths.mapM (Tac.writeInput separator (p.has 'b'))
  let closed ← closeStandardInput {} paths
  exit (if good.all id && closed then 0 else 1)

end LineShell.Program
