import LineShell.Program.Arguments

/-!
# Folding lines

`fold` breaks lines that are wider than a number of columns, or of bytes.
-/

namespace LineShell.Program

open Routine Arguments

namespace Fold

/-- Where lines break. -/
structure Rules where
  width : Nat := 80
  bytes : Bool := false
  /-- A line breaks behind its last blank if it has one. -/
  atBlanks : Bool := false

/-- The column behind a byte. -/
def Rules.advance (r : Rules) (column : Nat) (b : UInt8) : Nat :=
  if r.bytes then column + 1
  else if b = 0x08 then column - 1
  else if b = 0x0D then 0
  else if b = 0x09 then column + (8 - column % 8)
  else column + 1

/-- The part of a line that has no end yet, and the column behind it. -/
structure Position where
  part : Bytes := []
  column : Nat := 0

/-- Break the part of a line before a byte that does not fit: what is written, and the part
that is left. -/
def Rules.break (r : Rules) (part : Bytes) : Bytes × Bytes :=
  let front := if r.atBlanks then Text.dropEndWhile (fun b => !ByteClass.isBlank b) part else []
  if front.isEmpty then (part ++ [lineFeed], []) else (front ++ [lineFeed], part.drop front.length)

/-- Take a byte. A part can break only as often as it has bytes. -/
def Rules.take (r : Rules) (b : UInt8) : (breaks : Nat) → Position → Position × Bytes
  | 0, p => ({ p with part := p.part ++ [b] }, [])
  | breaks + 1, p =>
    if b = lineFeed then ({}, p.part ++ [lineFeed])
    else
      let column := r.advance p.column b
      if column ≤ r.width || p.part.isEmpty then (⟨p.part ++ [b], column⟩, [])
      else
        let (written, part) := r.break p.part
        let (next, more) := r.take b breaks ⟨part, part.foldl r.advance 0⟩
        (next, written ++ more)

/-- Take a chunk. -/
def Rules.chunk (r : Rules) (p : Position) (data : Bytes) : Position × Bytes :=
  let s := data.foldl (fun (s : Position × List Bytes) b =>
    let t := r.take b (s.1.part.length + 1) s.1
    (t.1, t.2 :: s.2)) (p, [])
  (s.1, s.2.reverse.flatten)

/-- Digits as an option, as in `-40`, written as the value of `-w`. -/
def modern (args : List Bytes) : List Bytes :=
  args.map fun a =>
    match a with
    | 0x2D :: ds => if !ds.isEmpty && ds.all ByteClass.isDigit then lit "-w" ++ ds else a
    | _ => a

end Fold

/-- Break wide lines. -/
def fold : Utility := fun args => do
  let p ← arguments [flag 'b' "bytes", flag 's' "spaces", valued 'w' "width"] 1 (Fold.modern args)
  let width ← match p.value? 'w' with
    | none => pure 80
    | some v =>
      match number? v with
      | some (n + 1) => pure (n + 1)
      | some 0 =>
        giveUp 1 (lit "invalid number of columns: " ++ Quoting.plain v ++ lit ": Numerical result out of range")
      | none => giveUp 1 (lit "invalid number of columns: " ++ Quoting.plain v)
  let r : Fold.Rules := { width := width, bytes := p.has 'b', atBlanks := p.has 's' }
  let (_, good) ← foldInputs {} (fun _ _ d => do
    let (q, failure) ← mapChunks d r.chunk patience {}
    put q.part
    return ((), failure)) () p.operands
  exit (if good then 0 else 1)

end LineShell.Program
