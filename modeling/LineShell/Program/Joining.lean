import LineShell.Program.Arguments

/-!
# Joining inputs line by line

`paste` puts lines of its inputs side by side, and `comm` tells which lines two sorted inputs
have in common.
-/

namespace LineShell.Program

open Routine Arguments

/-! ## Side by side -/

namespace Paste

/-- The separators that a list gives, each of at most one byte, or nothing if the list ends with
a backslash alone. Every step takes a byte off. -/
def separators? : (fuel : Nat) → Bytes → Option (List Bytes)
  | 0, _ => some []
  | _, [] => some []
  | _, [0x5C] => none
  | fuel + 1, 0x5C :: b :: rest =>
    let one := if b = 0x30 then [] else [(ByteClass.escaped? b).getD b]
    (separators? fuel rest).map (one :: ·)
  | fuel + 1, b :: rest => (separators? fuel rest).map ([b] :: ·)

/-- Join texts with separators, which are used in turn. -/
def join (separators : Array Bytes) : (turn : Nat) → List Bytes → Bytes
  | _, [] => []
  | _, [text] => text
  | turn, text :: rest =>
    text ++ separators.getD (turn % separators.size) [] ++ join separators (turn + 1) rest

/-- The lines of inputs as columns. Inputs that stand for the same stream take its lines in
turn. -/
def columns (paths : List Bytes) (contents : Bytes → List Bytes) : List (List Bytes) :=
  let shared := (paths.filter isStandardInput).length
  paths.zipIdx.map fun (path, i) =>
    if isStandardInput path then
      let turn := ((paths.take i).filter isStandardInput).length
      ((contents path).zipIdx.filter fun l => l.2 % shared = turn).map Prod.fst
    else contents path

/-- Columns as lines. -/
def rows (separators : Array Bytes) (ending : UInt8) (columns : List (List Bytes)) : Bytes :=
  let height := ((columns.map List.length).max?).getD 0
  (List.range height).flatMap fun i => join separators 0 (columns.map fun c => c.getD i []) ++ [ending]

end Paste

/-- Put lines side by side. -/
def paste : Utility := fun args => do
  let p ← arguments [flag 's' "serial", valued 'd' "delimiters", flag 'z' "zero-terminated"] 1 args
  let list := (p.value? 'd').getD (lit "\t")
  let ending : UInt8 := if p.has 'z' then 0 else lineFeed
  match Paste.separators? list.length list with
  | none => giveUp 1 (lit "delimiter list ends with an unescaped backslash: " ++ list)
  | some separators =>
    let separators := if separators.isEmpty then #[[]] else separators.toArray
    let paths := inputsOf p.operands
    if !p.has 's' then
      for path in paths do
        match ← openInput path with
        | .ok d => closeInput path d
        | .error e => giveUp 1 (plainly path e)
    let (contents, good) ← foldInputs {} (fun (contents : List (Bytes × List Bytes)) path d => do
      if !p.has 's' && (contents.lookup path).isSome then return (contents, none)
      match ← readAll d with
      | .ok data => return (contents ++ [(path, (linesOf ending data).map (chomp ending))], none)
      | .error e => return (contents ++ [(path, [])], some e)) [] paths
    if p.has 's' then put (contents.flatMap fun c => Paste.join separators 0 c.2 ++ [ending])
    else
      put (Paste.rows separators ending
        (Paste.columns paths fun path => (contents.lookup path).getD []))
    exit (if good then 0 else 1)

/-! ## In common -/

namespace Common

/-- What is written of two inputs. -/
structure Rules where
  /-- The columns that are left out: lines of the first input, of the second, and of both. -/
  hides : Nat → Bool := fun _ => false
  separator : Bytes := lit "\t"
  ending : UInt8 := lineFeed

/-- A line in a column, behind the separators of the columns before it that are shown. -/
def Rules.line (r : Rules) (column : Nat) (text : Bytes) : Bytes :=
  if r.hides column then []
  else ((List.range column).filter fun c => !r.hides c && c != 0).flatMap (fun _ => r.separator) ++ text
    ++ [r.ending]

/-- The lines of two inputs, each with its column. Every step takes a line off, so as much fuel
as there are lines is enough. -/
def merge : (fuel : Nat) → List Bytes → List Bytes → List (Nat × Bytes)
  | 0, _, _ => []
  | _, [], [] => []
  | fuel + 1, a :: as, [] => (1, a) :: merge fuel as []
  | fuel + 1, [], b :: bs => (2, b) :: merge fuel [] bs
  | fuel + 1, a :: as, b :: bs =>
    match compareBytes a b with
    | .lt => (1, a) :: merge fuel as (b :: bs)
    | .gt => (2, b) :: merge fuel (a :: as) bs
    | .eq => (3, a) :: merge fuel as bs

/-- The lines are in order. -/
def isSorted : List Bytes → Bool
  | a :: b :: rest => compareBytes a b != .gt && isSorted (b :: rest)
  | _ => true

end Common

/-- Tell the lines that two sorted inputs have in common. -/
def comm : Utility := fun args => do
  let p ← arguments [flag '1', flag '2', flag '3', valued 'o' "output-delimiter",
    flag 'c' "check-order", flag 'n' "nocheck-order", flag 't' "total", flag 'z' "zero-terminated"] 1 args
  let (left, right) ← match p.operands with
    | [] => refuse 1 (lit "missing operand")
    | [a] => refuse 1 (lit "missing operand after " ++ Quoting.plain a)
    | [a, b] => pure (a, b)
    | _ :: _ :: extra :: _ => refuse 1 (lit "extra operand " ++ Quoting.plain extra)
  let ending : UInt8 := if p.has 'z' then 0 else lineFeed
  let hidden := [p.has '1', p.has '2', p.has '3']
  let r : Common.Rules :=
    { hides := fun c => c != 0 && (hidden[c - 1]?).getD false
      separator := (p.value? 'o').getD (lit "\t"), ending := ending }
  let load (path : Bytes) : Routine (List Bytes) := do
    match ← openInput path with
    | .error e => giveUp 1 (plainly path e)
    | .ok d =>
      match ← readAll d with
      | .error e => giveUp 1 (plainly path e)
      | .ok data =>
        closeInput path d
        return (linesOf ending data).map (chomp ending)
  let a ← load left
  let b ← load right
  let lines := Common.merge (a.length + b.length) a b
  put (lines.flatMap fun l => r.line l.1 l.2)
  let count (column : Nat) : Nat := (lines.filter (·.1 = column)).length
  if p.has 't' then
    put (r.separator.intercalate [digits (count 1), digits (count 2), digits (count 3), lit "total"] ++ [ending])
  let disordered := (if Common.isSorted a then [] else [lit "1"]) ++ (if Common.isSorted b then [] else [lit "2"])
  let unpaired := 0 < count 1 || 0 < count 2
  if !p.has 'n' && (unpaired || p.has 'c') && !disordered.isEmpty then
    for file in disordered do
      complain (lit "file " ++ file ++ lit " is not in sorted order")
    complain (lit "input is not in sorted order")
    exit 1

end LineShell.Program
