import LineShell.Program.Arguments

/-!
# Comparing

`cmp` tells the first byte in which two files differ, or every such byte.
-/

namespace LineShell.Program

open Routine Arguments

namespace Compare

/-- Where two texts differ. -/
inductive Difference where
  | same
  /-- In the byte with a number and a line, counted from one. -/
  | byte (number line : Nat) (a b : UInt8)
  /-- One of them ends, after so many bytes. -/
  | ended (first : Bool) (after : Nat) (line : Nat) (inLine : Bool)

/-- The first difference of two texts. `n` bytes with `l` line feeds went before, and
`fed` says that the last of them was a line feed. -/
def firstDifference : Bytes → Bytes → (n l : Nat) → (fed : Bool) → Difference
  | [], [], _, _, _ => .same
  | [], _ :: _, n, l, fed => .ended true n (if fed then l else l + 1) (!fed)
  | _ :: _, [], n, l, fed => .ended false n (if fed then l else l + 1) (!fed)
  | a :: as, b :: bs, n, l, _ =>
    if a = b then firstDifference as bs (n + 1) (if a = lineFeed then l + 1 else l) (a = lineFeed)
    else .byte (n + 1) (l + 1) a b

/-- Every byte in which two texts differ, with its number. -/
def differences (a b : Bytes) : List (Nat × UInt8 × UInt8) :=
  ((a.zip b).zipIdx 1).filterMap fun e => if e.1.1 = e.1.2 then none else some (e.2, e.1)

/-- The octal digits of a byte, three wide. -/
def octal (b : UInt8) : Bytes :=
  let ds := (Nat.toDigits 8 b.toNat).map fun c => UInt8.ofNat c.toNat
  List.replicate (3 - ds.length) 0x20 ++ ds

/-- A byte as it is shown behind its digits. -/
def shown (b : UInt8) : Bytes :=
  let low (b : UInt8) : Bytes :=
    if b < 0x20 then [0x5E, b + 0x40] else if b = 0x7F then lit "^?" else [b]
  if b < 0x80 then low b else lit "M-" ++ low (b - 0x80)

/-- The options. -/
def options : List Spec :=
  [flag 'b' "print-bytes", flag 'c' "print-chars", valued 'i' "ignore-initial", flag 'l' "verbose",
    valued 'n' "bytes", flag 's' "quiet", flag 's' "silent"]

/-- Point to the help. -/
def refuse {α : Type} (message : Bytes) : Routine α := do
  complain message
  complain (lit "Try '" ++ (← frame).name ++ lit " --help' for more information.")
  exit 2

/-- The number that a value gives. -/
def number (option : String) (value : Bytes) : Routine Nat := do
  match Amount.read value with
  | .of n => return n
  | _ => refuse (lit "invalid --" ++ lit option ++ lit " value " ++ Quoting.plain value)

/-- The words for where a text has ended. -/
def endWords (name : Bytes) (all : Bool) (after line : Nat) (inLine : Bool) : Bytes :=
  lit "EOF on " ++ name
    ++ (if after = 0 then lit " which is empty"
      else lit " after byte " ++ digits after
        ++ (if all then []
          else (if inLine then lit ", in line " else lit ", line ") ++ digits line))

end Compare

open Compare in
/-- Compare two files. -/
def cmp : Utility := fun args => do
  let p ← match Arguments.parse options true args with
    | .ok p => pure p
    | .error e => Compare.refuse e
  let name := (← frame).name
  let ofOption (g : Given) : Routine (Nat × Nat) := do
    match Text.cutAt 0x3A g.value with
    | some (a, b) => return (← number "ignore-initial" a, ← number "ignore-initial" b)
    | none => return (← number "ignore-initial" g.value, ← number "ignore-initial" g.value)
  let skipped ← match p.given.filter (·.letter = 'i') with
    | [] => pure (0, 0)
    | gs => ofOption (gs.getLastD ⟨'i', []⟩)
  let limit ← match p.value? 'n' with
    | some v => do pure (some (← number "bytes" v))
    | none => pure none
  if p.has 'l' && p.has 's' then Compare.refuse (lit "options -l and -s are incompatible")
  let (left, right) ← match p.operands with
    | [] => Compare.refuse (lit "missing operand after " ++ Quoting.plain name)
    | [a] => pure (a, standardInput)
    | a :: b :: _ => pure (a, b)
  let skipped ← match p.operands.drop 2 with
    | [] => pure skipped
    | [a] => do pure (max skipped.1 (← number "ignore-initial" a), skipped.2)
    | [a, b] => do
      pure (max skipped.1 (← number "ignore-initial" a), max skipped.2 (← number "ignore-initial" b))
    | _ :: _ :: extra :: _ => Compare.refuse (lit "extra operand " ++ Quoting.plain extra)
  let failed {α : Type} (path : Bytes) (e : Errno) : Routine α :=
    giveUp 2 (path ++ lit ": " ++ e.sentence)
  let openFile (path : Bytes) : Routine (Option Nat) := do
    match ← openInput path with
    | .ok d => return d
    | .error e => if p.has 's' then exit 2 else failed path e
  let a ← openFile left
  let b ← openFile right
  let sameFile := match ← inspect a, ← inspect b with
    | some x, some y => x = y && skipped.1 = skipped.2
    | _, _ => false
  if sameFile then exit 0
  let load (path : Bytes) (d : Option Nat) (skip : Nat) : Routine Bytes := do
    match ← readAll d with
    | .ok data =>
      let data := data.drop skip
      return match limit with | some n => data.take n | none => data
    | .error e => failed path e
  let x ← load left a skipped.1
  let y ← load right b skipped.2
  let both (a b : UInt8) : Bytes × Bytes :=
    if p.has 'b' || p.has 'c' then (octal a ++ lit " " ++ shown a, octal b ++ lit " " ++ shown b)
    else (octal a, octal b)
  match firstDifference x y 0 0 false with
  | .same => exit 0
  | .byte n l u v =>
    if p.has 's' then exit 1
    else if p.has 'l' then
      let width := (digits (max x.length y.length)).length
      put ((differences x y).flatMap fun (n, u, v) =>
        let (u', v') := both u v
        let pad := if p.has 'b' || p.has 'c' then List.replicate (8 - u'.length) 0x20 else []
        List.replicate (width - (digits n).length) 0x20 ++ digits n ++ lit " " ++ u' ++ pad
          ++ lit " " ++ v' ++ lit "\n")
      if x.length != y.length then
        let first := x.length < y.length
        complain (endWords (if first then left else right) true (min x.length y.length) 0 false)
      exit 1
    else
      let shownBytes := p.has 'b' || p.has 'c'
      let (u', v') := both u v
      put (left ++ lit " " ++ right ++ lit " differ: " ++ lit (if shownBytes then "byte " else "char ")
        ++ digits n ++ lit ", line " ++ digits l
        ++ (if shownBytes then lit " is " ++ u' ++ lit " " ++ v' else []) ++ lit "\n")
      exit 1
  | .ended first after l inLine =>
    if !p.has 's' then
      complain (endWords (if first then left else right) (p.has 'l') after l inLine)
    exit 1

end LineShell.Program
