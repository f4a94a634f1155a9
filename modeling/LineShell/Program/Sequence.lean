import LineShell.Program.Formatting

/-!
# Sequences and waiting

`seq` writes numbers at equal distances, and `sleep` waits.
-/

namespace LineShell.Program

open Routine Arguments

namespace Sequence

/-- A number in units of `10 ^ -places`, as it was written. -/
structure Value where
  units : Int
  places : Nat := 0
  /-- The bytes that it was written with. -/
  width : Nat := 0
  /-- The number is zero with a minus sign. -/
  minusZero : Bool := false
  endless : Bool := false

/-- The value in finer units. -/
def Value.scaled (v : Value) (places : Nat) : Int := v.units * (Nat.pow 10 (places - v.places) : Int)

/-- The number that an argument writes. -/
def value (argument : Bytes) : Routine Value := do
  let text := argument.dropWhile ByteClass.isSpace
  if text.isEmpty || Format.realLength text != text.length then
    refuse 1 (lit "invalid floating point argument: " ++ Quoting.plain argument)
  match Real.read text with
  | .notNumber => refuse 1 (lit "invalid 'not-a-number' argument: " ++ Quoting.plain argument)
  | .none => refuse 1 (lit "invalid floating point argument: " ++ Quoting.plain argument)
  | .infinite negative => return { units := if negative then -1 else 1, endless := true }
  | .finite v e =>
    let minus := text.head? = some 0x2D
    let text := if text.head? = some 0x2B then text.drop 1 else text
    let places := (-e).toNat
    let units := if 0 ≤ e then v * (Nat.pow 10 e.toNat : Int) else v
    return { units := units, places := places, minusZero := minus && v = 0
             width := if text.any (ByteClass.lower · = 0x65) then
                 (signedDigits (units / (Nat.pow 10 places : Int))).length + (if places = 0 then 0 else places + 1)
               else text.length }

/-- A number with so many places behind the point. -/
def write (places : Nat) (n : Int) : Bytes :=
  (if n < 0 then lit "-" else []) ++ fixedSize places n.natAbs (-(places : Int))

/-- A number with zeros in front, up to a width. -/
def writeWide (width places : Nat) (n : Int) : Bytes :=
  let sign := if n < 0 then lit "-" else []
  let body := fixedSize places n.natAbs (-(places : Int))
  sign ++ List.replicate (width - sign.length - body.length) 0x30 ++ body

/-- A format with one conversion: the text before it, the conversion, and the text behind it. -/
structure Layout where
  front : Bytes
  conversion : Format.Conversion
  back : Bytes

/-- The text up to a conversion, with what stands for percent signs in it, and the rest. -/
def upToConversion : Bytes → Bytes × Bytes
  | [] => ([], [])
  | 0x25 :: 0x25 :: rest =>
    let r := upToConversion rest
    (0x25 :: r.1, r.2)
  | 0x25 :: rest => ([], 0x25 :: rest)
  | b :: rest =>
    let r := upToConversion rest
    (b :: r.1, r.2)

/-- The layout that a format describes. -/
def Layout.read (format : Bytes) : Except Bytes Layout :=
  let wrong (words : Bytes) : Except Bytes Layout :=
    .error (lit "format " ++ Quoting.plain format ++ words)
  let (front, rest) := upToConversion format
  match rest with
  | [] => wrong (lit " has no % directive")
  | _ :: rest =>
    let flags := rest.takeWhile fun b => (lit "-+#0 '").contains b
    let rest := rest.drop flags.length
    let width := rest.takeWhile ByteClass.isDigit
    let rest := rest.drop width.length
    let (precision, rest) := match rest with
      | 0x2E :: rest =>
        let ds := rest.takeWhile ByteClass.isDigit
        (some (ByteClass.decimalValue ds), rest.drop ds.length)
      | rest => (none, rest)
    let rest := if rest.head? = some 0x4C then rest.drop 1 else rest
    match rest with
    | [] => wrong (lit " ends in %")
    | letter :: rest =>
      if !(lit "efgaEFGA").contains letter then wrong (lit " has unknown %" ++ [letter] ++ lit " directive")
      else
        let (back, more) := upToConversion rest
        if more.isEmpty then
          .ok ⟨front, ⟨flags, ByteClass.decimalValue width, precision, letter⟩, back⟩
        else wrong (lit " has too many % directives")

/-- A number in a layout. -/
def Layout.write (l : Layout) (places : Nat) (n : Int) : Bytes :=
  l.front ++ l.conversion.real (.finite n (-(places : Int))) ++ l.back

/-- Write `count` numbers, or numbers without an end, beginning with `n` and going up by
`step`, a hundred at a time. `between` stands before all but the first. -/
def putAll (text : Int → Bytes) (between : Bytes) (step : Int) :
    (rounds : Nat) → (first : Bool) → Option Nat → Int → Routine Unit
  | 0, _, _, _ => pure ()
  | rounds + 1, first, count, n => do
    if count = some 0 then return
    let k := min (count.getD 100) 100
    put ((List.range k).flatMap fun (i : Nat) =>
      (if first && i = 0 then [] else between) ++ text (n + step * i))
    putAll text between step rounds false (count.map (· - k)) (n + step * k)

/-- The options. -/
def options : List Spec :=
  [flag 'w' "equal-width", valued 's' "separator", valued 'f' "format"]

/-- The options in front of the numbers. An argument that begins like a negative number is
none of them. -/
def splitOptions : Nat → List Bytes → Except Bytes Parsed
  | 0, args => .ok { operands := args }
  | _, [] => .ok {}
  | fuel + 1, a :: rest =>
    if a.head? != some 0x2D || a.length = 1 || a[1]?.any (fun b => b = 0x2E || ByteClass.isDigit b) then
      .ok { operands := a :: rest }
    else if a = lit "--" then .ok { operands := rest }
    else
      let takesNext := ((a.take 2 = lit "--") && !a.contains 0x3D
          && (longCandidates options (a.drop 2)).any (·.hasValue))
        || (a.take 2 != lit "--" && a.length = 2 && (a = lit "-s" || a = lit "-f"))
      let (mine, rest) := if takesNext then (a :: rest.take 1, rest.drop 1) else ([a], rest)
      match Arguments.parse options false mine with
      | .error e => .error e
      | .ok p => (splitOptions fuel rest).map fun q => { q with given := p.given ++ q.given }

end Sequence

open Sequence in
/-- Write the numbers from the first to the last. -/
def seq : Utility := fun args => do
  let p ← match splitOptions args.length args with
    | .ok p => pure p
    | .error e => refuse 1 e
  if p.operands.isEmpty then refuse 1 (lit "missing operand")
  if let some extra := p.operands[3]? then refuse 1 (lit "extra operand " ++ Quoting.plain extra)
  let layout ← match (p.value? 'f').map Layout.read with
    | none => pure none
    | some (.ok l) => pure (some l)
    | some (.error e) => giveUp 1 e
  if layout.isSome && p.has 'w' then
    refuse 1 (lit "format string may not be specified when printing equal width strings")
  let values ← p.operands.mapM Sequence.value
  let one : Value := { units := 1, width := 1 }
  let (first, step, last) := match values with
    | [last] => (one, one, last)
    | [first, last] => (first, one, last)
    | first :: step :: last :: _ => (first, step, last)
    | [] => (one, one, one)
  if step.units = 0 then
    refuse 1 (lit "invalid Zero increment value: " ++ Quoting.plain (p.operands.getD 1 []))
  let places := max first.places step.places
  let unit := max places last.places
  let a := first.scaled unit
  let d := step.scaled unit
  let z := last.scaled unit
  let count : Option Nat :=
    if last.endless then (if (0 < d) = (0 < last.units) then none else some 0)
    else some (if (0 < d && z < a) || (d < 0 && a < z) then 0 else ((z - a) / d).toNat + 1)
  let shown (v : Value) : Nat :=
    v.width + (if v.places < places then places - v.places + (if v.places = 0 then 1 else 0) else 0)
      - (if places < v.places then v.places - places + (if places = 0 then 1 else 0) else 0)
  let width := max (shown first) (shown last)
  let start := first.scaled places
  let text (n : Int) : Bytes :=
    match layout with
    | some l => l.write places n
    | none =>
      if p.has 'w' then writeWide width places n
      else (if first.minusZero && n = start then lit "-" else []) ++ Sequence.write places n
  let between := (p.value? 's').getD [lineFeed]
  putAll text between (step.scaled places) patience true count start
  if count != some 0 then put [lineFeed]

namespace Sleep

/-- The moments in a second. -/
def momentsPerSecond : Nat := 1000

/-- The moments that an argument asks for. -/
def moments? (argument : Bytes) : Option Nat := do
  let text := argument.dropWhile ByteClass.isSpace
  let used := Format.realLength text
  let unit ← match text.drop used with
    | [] | [0x73] => some 1
    | [0x6D] => some 60
    | [0x68] => some 3600
    | [0x64] => some 86400
    | _ => none
  if used = 0 then none
  match Real.read (text.take used) with
  | .finite v e =>
    if v < 0 then none else return scaleSize (v.toNat * momentsPerSecond * unit) e
  | .infinite false => return patience
  | _ => none

end Sleep

/-- Wait. -/
def sleep : Utility := fun args => do
  let p ← arguments [] 1 args
  if p.operands.isEmpty then refuse 1 (lit "missing operand")
  let wrong := p.operands.filter fun a => (Sleep.moments? a).isNone
  for a in wrong do complain (lit "invalid time interval " ++ Quoting.plain a)
  if !wrong.isEmpty then pointToHelp 1
  repeatedly moment ((p.operands.filterMap Sleep.moments?).foldl (· + ·) 0)

end LineShell.Program
