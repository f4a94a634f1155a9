import LineShell.Program.Arguments

/-!
# Counting

`wc` counts the lines, words and bytes of its inputs. A byte that cannot be printed is no
part of a word, unless other bytes make up the word already.
-/

namespace LineShell.Program

open Routine Arguments

/-- What is counted in a text. -/
structure Counts where
  lines : Nat := 0
  words : Nat := 0
  bytes : Nat := 0
  /-- The width of the widest line. -/
  width : Nat := 0
  inWord : Bool := false
  column : Nat := 0

namespace Counts

/-- The end of a word. -/
def endWord (c : Counts) : Counts :=
  { c with words := if c.inWord then c.words + 1 else c.words, inWord := false }

/-- The end of a line as it is shown. -/
def endRow (c : Counts) : Counts :=
  { c with width := max c.width c.column, column := 0 }

/-- Count one byte. -/
def step (c : Counts) (b : UInt8) : Counts :=
  let c := { c with bytes := c.bytes + 1 }
  if b = lineFeed then { c.endRow.endWord with lines := c.lines + 1 }
  else if b = 0x0D || b = 0x0C then c.endRow.endWord
  else if b = 0x09 then { c with column := c.column + (8 - c.column % 8) }.endWord
  else if b = 0x20 then { c with column := c.column + 1 }.endWord
  else if b = 0x0B then c.endWord
  else if ByteClass.isPrintable b then { c with column := c.column + 1, inWord := true }
  else c

/-- Count what is open at the end of a text. -/
def finish (c : Counts) : Counts := c.endRow.endWord

/-- The counts of two texts together. -/
def add (a b : Counts) : Counts :=
  { lines := a.lines + b.lines, words := a.words + b.words, bytes := a.bytes + b.bytes
    width := max a.width b.width }

/-- The counts that options ask for, in their order. -/
def shown (c : Counts) (p : Parsed) : List Nat :=
  let all := p.given.isEmpty
  [(all || p.has 'l', c.lines), (all || p.has 'w', c.words), (p.has 'm', c.bytes),
    (all || p.has 'c', c.bytes), (p.has 'L', c.width)].filterMap fun e =>
      if e.1 then some e.2 else none

end Counts

namespace Count

/-- The words for files that cannot be used. -/
def wording : Wording where
  cannotRead path e := plainly (spelledOut path) e

/-- The options. -/
def options : List Spec :=
  [flag 'c' "bytes", flag 'm' "chars", flag 'l' "lines", flag 'w' "words",
    flag 'L' "max-line-length", valued 'F' "files0-from"]

/-- The node of an operand. -/
def node? (path : Bytes) : Routine (Option NodeId) := do
  let (files, view) ← look
  if isStandardInput path then return (← inspect (← standard 0)).map Prod.fst
  else return (files.resolveNode view path).toOption

/-- The operand leads to something, be it a pipe. -/
def isThere (path : Bytes) : Routine Bool := do
  if isStandardInput path then hasInput else return (← node? path).isSome

/-- The width of the columns: that of all sizes together, and at least seven if an operand
is no file. A single count has no column. -/
def columnWidth (single : Bool) (paths : List Bytes) : Routine Nat := do
  if single then return 1
  let files := (← look).1
  let mut total := 0
  let mut least := 1
  for path in paths do
    match ← node? path with
    | some id => if files.isFile id then total := total + files.size id else least := 7
    | none => if ← isThere path then least := 7
  return max least (digits total).length

/-- A line of counts. -/
def line (width : Nat) (counts : List Nat) (name : Option Bytes) : Bytes :=
  (lit " ").intercalate (counts.map fun n => padLeft width (digits n))
    ++ (match name with
      | some name =>
        lit " " ++ (if name.contains lineFeed then Quoting.shell name else name)
      | none => [])
    ++ lit "\n"

/-- The words for output that cannot be written. The lines are written one by one, so a
file without room is told without a reason. -/
def writeWords (e : Errno) : Bytes :=
  if e = .badDescriptor then writeError e else lit "write error"

/-- Count the bytes of a stream. -/
def countStream (d : Option Nat) : (rounds : Nat) → Counts → Routine (Counts × Option Errno)
  | 0, c => pure (c, none)
  | rounds + 1, c => do
    match ← read d chunk with
    | .error e => return (c.finish, some e)
    | .ok data =>
      if data.isEmpty then return (c.finish, none)
      countStream d rounds (data.foldl Counts.step c)

/-- Write a line, unless one could not be written before. The answer is why. -/
def writeLine (lost : Option Errno) (line : Bytes) : Routine (Option Errno) := do
  if lost.isSome then return lost
  match ← writeAll (← standard 1) line.length line with
  | .ok () => return none
  | .error e => return some e

/-- What has been counted so far. -/
structure Tally where
  total : Counts := {}
  /-- All inputs could be read to their ends. -/
  complete : Bool := true
  /-- Why a line could not be written. -/
  lost : Option Errno := none

end Count

/-- Count lines, words and bytes. -/
def wc : Utility := fun args => do
  let p ← arguments Count.options 1 args
  let paths := inputsOf p.operands
  let single := (({} : Counts).shown p).length = 1 && paths.length = 1
  let width ← Count.columnWidth single paths
  let (t, opened) ← foldEach Count.wording (fun (t : Count.Tally) path d => do
    let (c, failure) ← Count.countStream d patience {}
    if let some e := failure then complain (Count.wording.cannotRead path e)
    let name := if p.operands.isEmpty then none else some path
    let lost ← Count.writeLine t.lost (Count.line width (c.shown p) name)
    return ({ total := t.total.add c, complete := t.complete && failure.isNone, lost := lost }, none))
    {} paths
  let lost ← if 1 < paths.length then
      Count.writeLine t.lost (Count.line width (t.total.shown p) (some (lit "total")))
    else pure t.lost
  let closed ← closeStandardInput Count.wording paths
  if let some e := lost then giveUp 1 (Count.writeWords e)
  exit (if opened && t.complete && closed then 0 else 1)

end LineShell.Program
