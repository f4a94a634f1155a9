import LineShell.Program.Arguments

/-!
# Columns

`cut` passes on some of the bytes, or of the fields, of each line. A `Ranges` value says
which by their numbers, counted from one.
-/

namespace LineShell.Program

open Routine Arguments

namespace Cut

/-- A range of numbers, without an end or with one. -/
structure Range where
  first : Nat
  last : Option Nat := none
deriving DecidableEq, Repr

/-- The number is in the range. -/
def Range.contains (r : Range) (n : Nat) : Bool := r.first ≤ n && r.last.all (n ≤ ·)

/-- What a list of ranges is of. -/
inductive Unit where
  | byte
  | field
deriving DecidableEq, Repr

/-- The words for numbers that are counted from one. -/
def Unit.fromOne : Unit → Bytes
  | .byte => lit "byte/character positions are numbered from 1"
  | .field => lit "fields are numbered from 1"

/-- The number that digits write, which begin `text`. -/
def Unit.number (u : Unit) (ds : Bytes) : Except Bytes Nat :=
  let n := ByteClass.decimalValue ds
  if n + 1 < amountBound then .ok n
  else match u with
    | .byte => .error (lit "byte/character offset " ++ Quoting.plain ds ++ lit " is too large")
    | .field => .error (lit "field number " ++ Quoting.plain ds ++ lit " is too large")

/-- The words for text that is no range. -/
def Unit.stray (u : Unit) (text : Bytes) : Bytes :=
  match u with
  | .byte => lit "invalid byte/character position " ++ Quoting.plain text
  | .field => lit "invalid field value " ++ Quoting.plain text

/-- The byte stands between ranges. -/
def isBetween (b : UInt8) : Bool := b = 0x2C || ByteClass.isBlank b

/-- The range at the front of a list, and what follows it. -/
def Unit.range (u : Unit) (text : Bytes) : Except Bytes (Range × Bytes) := do
  let ds := text.takeWhile ByteClass.isDigit
  let low ← u.number ds
  match text.drop ds.length with
  | 0x2D :: rest =>
    if !ds.isEmpty && low = 0 then throw u.fromOne
    let es := rest.takeWhile ByteClass.isDigit
    let high ← u.number es
    let rest := rest.drop es.length
    match rest with
    | 0x2D :: _ =>
      throw (match u with
        | .byte => lit "invalid byte or character range"
        | .field => lit "invalid field range")
    | b :: _ => if !isBetween b then throw (u.stray rest)
    | [] => pure ()
    let low := if ds.isEmpty then 1 else low
    if ds.isEmpty && es.isEmpty then throw (lit "invalid range with no endpoint: -")
    else if es.isEmpty then return (⟨low, none⟩, rest)
    else if high < low then throw (lit "invalid decreasing range")
    else return (⟨low, some high⟩, rest)
  | rest =>
    match rest with
    | b :: _ => if !isBetween b then throw (u.stray rest)
    | [] => pure ()
    if low = 0 then throw u.fromOne
    return (⟨low, some low⟩, rest)

/-- The ranges of a list. Every round takes a range off, so as much fuel as there are bytes,
and one more, is enough. -/
def Unit.ranges (u : Unit) : Nat → Bytes → Except Bytes (List Range)
  | 0, _ => .ok []
  | fuel + 1, text => do
    let (r, rest) ← u.range text
    match rest with
    | [] => return [r]
    | _ :: rest => return r :: (← u.ranges fuel rest)

/-- Put a range to those that begin before it. Ranges that overlap become one. -/
def join (ranges : List Range) (r : Range) : List Range :=
  match ranges with
  | [] => [r]
  | before :: others =>
    if before.last.all (r.first ≤ ·) then
      let last := match before.last, r.last with
        | some a, some b => some (max a b)
        | _, _ => none
      ⟨before.first, last⟩ :: others
    else r :: before :: others

/-- Ranges in order, none of which overlap. -/
def ordered (ranges : List Range) : List Range :=
  ((ranges.mergeSort fun a b => a.first ≤ b.first).foldl join []).reverse

/-- The ranges of the numbers, from `n` on, that are in none of the ranges. -/
def complement : (n : Nat) → List Range → List Range
  | n, [] => [⟨n, none⟩]
  | n, r :: rest =>
    let gap : List Range := if n < r.first then [⟨n, some (r.first - 1)⟩] else []
    match r.last with
    | some last => gap ++ complement (last + 1) rest
    | none => gap

/-- What is cut out of lines. -/
structure Rules where
  unit : Unit
  ranges : List Range
  delimiter : UInt8 := 0x09
  /-- What is written between the parts of a line. -/
  joint : Option Bytes := none
  /-- Lines without a delimiter are left out. -/
  delimitedOnly : Bool := false
  ending : UInt8 := lineFeed

/-- A number is in one of the ranges. -/
def Rules.selects (r : Rules) (n : Nat) : Bool := r.ranges.any (·.contains n)

/-- The bytes of a line that are passed on. -/
def Rules.bytes (r : Rules) (line : Bytes) : Bytes :=
  let chosen := (line.zipIdx 1).filter fun x => r.selects x.2
  match r.joint with
  | none => chosen.map Prod.fst
  | some joint =>
    chosen.zipIdx.flatMap fun ((b, n), i) =>
      (if i != 0 && r.ranges.any (·.first = n) then joint else []) ++ [b]

/-- The fields of a line that are passed on. -/
def Rules.fields (r : Rules) (line : Bytes) : Bytes :=
  (r.joint.getD [r.delimiter]).intercalate
    (((partsOf r.delimiter line).zipIdx 1).filterMap fun x => if r.selects x.2 then some x.1 else none)

/-- The part of a line that is passed on. -/
def Rules.apply (r : Rules) (line : Bytes) : Bytes :=
  let text := chomp r.ending line
  match r.unit with
  | .byte => r.bytes text ++ [r.ending]
  | .field =>
    if text.contains r.delimiter then r.fields text ++ [r.ending]
    else if r.delimitedOnly then []
    else text ++ [r.ending]

/-- The options. -/
def options : List Spec :=
  [valued 'b' "bytes", valued 'c' "characters", valued 'd' "delimiter", valued 'f' "fields",
    flag 'n', flag 's' "only-delimited", valued 'O' "output-delimiter", flag 'C' "complement",
    flag 'z' "zero-terminated"]

/-- The rules that the options ask for. -/
def Rules.ofOptions (p : Parsed) : Except Bytes Rules := do
  let lists := p.given.filter fun g => g.letter = 'b' || g.letter = 'c' || g.letter = 'f'
  let delimiters := p.given.filter (·.letter = 'd')
  if delimiters.any fun g => 1 < g.value.length then
    throw (lit "the delimiter must be a single character")
  match lists with
  | [] => throw (lit "you must specify a list of bytes, characters, or fields")
  | [list] =>
    let unit := if list.letter = 'f' then Unit.field else .byte
    if unit = .byte && !delimiters.isEmpty then
      throw (lit "an input delimiter may be specified only when operating on fields")
    if unit = .byte && p.has 's' then
      throw (lit "suppressing non-delimited lines makes sense\n\tonly when operating on fields")
    let ranges := ordered (← unit.ranges (list.value.length + 1) list.value)
    return {
      unit := unit
      ranges := if p.has 'C' then complement 1 ranges else ranges
      delimiter := match delimiters.getLast? with
        | some g => g.value.headD 0
        | none => 0x09
      joint := (p.value? 'O').map fun j => if j.isEmpty then [0] else j
      delimitedOnly := p.has 's'
      ending := if p.has 'z' then 0 else lineFeed }
  | _ => throw (lit "only one list may be specified")

end Cut

open Cut in
/-- Pass on parts of each line. -/
def cut : Utility := fun args => do
  let p ← arguments Cut.options 1 args
  match Rules.ofOptions p with
  | .error message => refuse 1 message
  | .ok r => filterLines r.ending {} (fun () line => ((), r.apply line)) (fun () => []) () p.operands

end LineShell.Program
