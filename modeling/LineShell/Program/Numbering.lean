import LineShell.Program.Arguments
import LineShell.Program.Pattern

/-!
# Numbering lines

`nl` writes numbers in front of lines. A text is made up of pages of three sections each,
a head, a body and a foot, which marked lines set apart.
-/

namespace LineShell.Program

open Routine Arguments

namespace Number

/-- The lines of a section that have a number. -/
inductive Style where
  | all
  | filled
  | none
  | fitting (p : Pattern)

/-- A section of a page. -/
inductive Section where
  | head
  | body
  | foot
deriving DecidableEq, Repr

/-- How numbers stand in their column. -/
inductive Form where
  | left
  | right
  | zeros
deriving DecidableEq, Repr

/-- How lines are numbered. -/
structure Rules where
  style : Section → Style := fun s => match s with
    | .body => .filled
    | _ => .none
  delimiter : Bytes := lit "\\:"
  step : Int := 1
  first : Int := 1
  joined : Nat := 1
  form : Form := .right
  width : Nat := 6
  separator : Bytes := lit "\t"
  keeps : Bool := false

/-- The place in a text. The number is none when there are no more. -/
structure Position where
  within : Section := .body
  number : Int := 1
  empties : Nat := 0

/-- A number in its column. -/
def Rules.column (r : Rules) (n : Int) : Bytes :=
  let ds := signedDigits n
  let blanks := List.replicate (r.width - ds.length) 0x20
  match r.form with
  | .left => ds ++ blanks
  | .right => blanks ++ ds
  | .zeros =>
    let sign := if n < 0 then lit "-" else []
    let body := digits n.natAbs
    sign ++ List.replicate (r.width - sign.length - body.length) 0x30 ++ body

/-- The section that a marked line begins. -/
def Rules.mark? (r : Rules) (line : Bytes) : Option Section :=
  let d := r.delimiter
  if d.isEmpty then none
  else if line = d ++ d ++ d then some .head
  else if line = d ++ d then some .body
  else if line = d then some .foot
  else none

/-- Take a line. -/
def Rules.take (r : Rules) (p : Position) (raw : Bytes) : Position × Bytes :=
  let line := chomp lineFeed raw
  match r.mark? line with
  | some s =>
    ({ p with within := s, number := if r.keeps then p.number else r.first }, lit "\n")
  | none =>
    let plain := List.replicate (r.width + r.separator.length) 0x20 ++ line ++ lit "\n"
    let numbered : Position × Bytes :=
      ({ p with number := p.number + r.step, empties := 0 },
        r.column p.number ++ r.separator ++ line ++ lit "\n")
    match r.style p.within with
    | .all =>
      if 1 < r.joined && line.isEmpty then
        if p.empties + 1 = r.joined then numbered else ({ p with empties := p.empties + 1 }, plain)
      else numbered
    | .filled => if line.isEmpty then (p, plain) else numbered
    | .none => (p, plain)
    | .fitting f => if (f.search? line.toArray 0).isSome then numbered else (p, plain)

/-- The options. -/
def options : List Spec :=
  [valued 'b' "body-numbering", valued 'd' "section-delimiter", valued 'f' "footer-numbering",
    valued 'h' "header-numbering", valued 'i' "line-increment", valued 'l' "join-blank-lines",
    valued 'n' "number-format", flag 'p' "no-renumber", valued 's' "number-separator",
    valued 'v' "starting-line-number", valued 'w' "number-width"]

/-- The signed number that a text writes. -/
def signed? (value : Bytes) : Option Int :=
  match value.dropWhile ByteClass.isSpace with
  | 0x2D :: ds => (number? ds).map fun n => -(n : Int)
  | 0x2B :: ds => (number? ds).map fun n => (n : Int)
  | ds => (number? ds).map fun n => (n : Int)

/-- The number that a value gives, at least `least`. -/
def number (what : String) (least : Int) (value : Bytes) : Routine Int := do
  match signed? value with
  | some n =>
    if n < least then
      giveUp 1 (lit what ++ lit ": " ++ Quoting.plain value ++ lit ": Numerical result out of range")
    return n
  | none => giveUp 1 (lit what ++ lit ": " ++ Quoting.plain value)

/-- The style that a value gives. -/
def readStyle (what : String) (value : Bytes) : Routine Style := do
  match value with
  | [0x61] => return .all
  | [0x74] => return .filled
  | [0x6E] => return .none
  | 0x70 :: pattern =>
    match Pattern.parse false pattern with
    | .ok p => return .fitting p
    | .error e => giveUp 1 e.words
  | _ => refuse 1 (lit "invalid " ++ lit what ++ lit " numbering style: " ++ Quoting.plain value)

/-- The rules with a style for a section. -/
def Rules.withStyle (r : Rules) (s : Section) (style : Style) : Rules :=
  { r with style := fun t => if t = s then style else r.style t }

/-- The rules with one more option. -/
def Rules.with (r : Rules) (g : Given) : Routine Rules := do
  match g.letter with
  | 'b' => return r.withStyle .body (← readStyle "body" g.value)
  | 'h' => return r.withStyle .head (← readStyle "header" g.value)
  | 'f' => return r.withStyle .foot (← readStyle "footer" g.value)
  | 'v' => return { r with first := ← number "invalid starting line number" (-(Nat.pow 2 63 : Int)) g.value }
  | 'i' => return { r with step := ← number "invalid line number increment" (-(Nat.pow 2 63 : Int)) g.value }
  | 'l' => return { r with joined := (← number "invalid line number of blank lines" 1 g.value).toNat }
  | 'w' => return { r with width := (← number "invalid line number field width" 1 g.value).toNat }
  | 's' => return { r with separator := g.value }
  | 'p' => return { r with keeps := true }
  | 'd' => return { r with delimiter := if g.value.length = 1 then g.value ++ lit ":" else g.value }
  | 'n' =>
    if g.value = lit "ln" then return { r with form := .left }
    else if g.value = lit "rn" then return { r with form := .right }
    else if g.value = lit "rz" then return { r with form := .zeros }
    else refuse 1 (lit "invalid line numbering format: " ++ Quoting.plain g.value)
  | _ => return r

end Number

/-- Number the lines of the inputs. -/
def nl : Utility := fun args => do
  let p ← arguments Number.options 1 args
  let r ← p.given.foldlM Number.Rules.with {}
  filterLines lineFeed {} r.take (fun _ => []) { number := r.first } p.operands

end LineShell.Program
