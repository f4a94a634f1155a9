import LineShell.Program.Arguments

/-!
# Neighbouring lines that are the same

`uniq` passes on one line of each run of lines that are the same, or those of some runs
only, or all of them in groups.
-/

namespace LineShell.Program

open Routine Arguments

namespace Uniq

/-- The empty lines around groups. -/
structure Spacing where
  before : Bool := false
  between : Bool := false
  after : Bool := false

/-- What is passed on. -/
structure Rules where
  count : Bool := false
  /-- The lines that have no equal beside them. -/
  single : Bool := true
  /-- One line of each run. -/
  one : Bool := true
  /-- The other lines of runs. -/
  others : Bool := false
  /-- All lines, whatever the runs. -/
  all : Bool := false
  spacing : Spacing := {}
  ending : UInt8 := lineFeed
  fold : Bool := false
  fields : Nat := 0
  skipped : Nat := 0
  compared : Option Nat := none

/-- The part of a line that is compared. -/
def Rules.key (r : Rules) (line : Bytes) : Bytes :=
  let past (line : Bytes) : Bytes :=
    (line.dropWhile ByteClass.isBlank).dropWhile fun b => !ByteClass.isBlank b
  let rest := ((List.range (min r.fields line.length)).foldl (fun l _ => past l) line).drop r.skipped
  let rest := match r.compared with
    | some n => rest.take n
    | none => rest
  if r.fold then rest.map ByteClass.upper else rest

/-- The place in the text: the line that waits, how many lines were the same as it, and
whether a run was passed on before. -/
structure Position where
  line : Option Bytes := none
  repeats : Nat := 0
  spaced : Bool := false

/-- The waiting line as it is passed on, if it is. `same` says that the next is the same. -/
def Rules.shown (r : Rules) (line : Bytes) (repeats : Nat) (same : Bool) : Bytes :=
  if !(if repeats = 0 then r.single else if same then r.others else r.one) then []
  else (if r.count then padLeft 7 (digits (repeats + 1)) ++ lit " " else []) ++ line ++ [r.ending]

/-- Take a line where only some lines of runs are passed on: the new place, and the text to
write. -/
def Rules.stepRuns (r : Rules) (p : Position) (line : Bytes) : Position × Bytes :=
  match p.line with
  | none => ({ p with line := some line }, [])
  | some waiting =>
    let same := r.key waiting = r.key line
    let repeats := if same then p.repeats + 1 else p.repeats
    let space := if same && repeats = 1 && (r.spacing.before || (r.spacing.between && p.spaced))
      then [r.ending] else []
    let spaced := p.spaced || (!same && 0 < repeats)
    if same && !r.others then ({ p with repeats := repeats, spaced := spaced }, space)
    else (⟨some line, if same then repeats else 0, spaced⟩, space ++ r.shown waiting repeats same)

/-- Take a line where all lines are passed on in groups. -/
def Rules.stepGroups (r : Rules) (p : Position) (line : Bytes) : Position × Bytes :=
  let isNew := p.line.all fun waiting => r.key waiting != r.key line
  let space := if isNew && (r.spacing.before || (r.spacing.between && p.spaced)) then [r.ending] else []
  (⟨some line, 0, true⟩, space ++ line ++ [r.ending])

/-- Take a line. -/
def Rules.step (r : Rules) (p : Position) (line : Bytes) : Position × Bytes :=
  if r.all then r.stepGroups p (chomp r.ending line) else r.stepRuns p (chomp r.ending line)

/-- What is written at the end. -/
def Rules.finish (r : Rules) (p : Position) : Bytes :=
  if r.all then (if r.spacing.after && p.spaced then [r.ending] else [])
  else match p.line with
    | some line => r.shown line p.repeats false
    | none => []

/-- The words for files that cannot be used. -/
def wording : Wording where
  cannotRead path _ := lit "error reading " ++ Quoting.always path
  cannotClose _ := none

/-- The options. -/
def options : List Spec :=
  [flag 'c' "count", flag 'd' "repeated", flag 'D', perhapsValued 'A' "all-repeated",
    flag 'u' "unique", flag 'i' "ignore-case", valued 'f' "skip-fields", valued 's' "skip-chars",
    valued 'w' "check-chars", flag 'z' "zero-terminated", perhapsValued 'G' "group"]
    ++ "0123456789".toList.map fun c => flag c

/-- The number that a value gives. -/
def number (what : String) (value : Bytes) : Routine Nat := do
  match Amount.read value with
  | .of n => return n
  | .tooLarge => return amountBound
  | .malformed => giveUp 1 (value ++ lit ": invalid number of " ++ lit what)

/-- The spacing of groups. -/
def groupSpacing (value : Bytes) : Routine Spacing :=
  if value.isEmpty then pure ⟨false, true, false⟩
  else choice "--group" [(["prepend"], ⟨true, false, false⟩), (["append"], ⟨false, true, true⟩),
    (["separate"], ⟨false, true, false⟩), (["both"], ⟨true, false, true⟩)] value

/-- The spacing of runs. -/
def runSpacing (value : Bytes) : Routine Spacing :=
  if value.isEmpty then pure {}
  else choice "--all-repeated" [(["none"], {}), (["prepend"], ⟨true, false, false⟩),
    (["separate"], ⟨false, true, false⟩)] value

/-- The rules with one more option. Digits make up the number of fields that are skipped. -/
def Rules.with (r : Rules) (g : Given) : Routine Rules := do
  match g.letter with
  | 'c' => return { r with count := true }
  | 'd' => return { r with single := false }
  | 'D' => return { r with single := false, others := true }
  | 'A' => return { r with single := false, others := true, spacing := ← runSpacing g.value }
  | 'u' => return { r with one := false }
  | 'i' => return { r with fold := true }
  | 'f' => return { r with fields := ← number "fields to skip" g.value }
  | 's' => return { r with skipped := ← number "bytes to skip" g.value }
  | 'w' => return { r with compared := some (← number "bytes to compare" g.value) }
  | 'z' => return { r with ending := 0 }
  | 'G' => return { r with all := true, spacing := ← groupSpacing g.value }
  | c => return { r with fields := r.fields * 10 + (c.toNat - 0x30) }

/-- The rules that the options ask for. -/
def Rules.ofOptions (p : Parsed) : Routine Rules := do
  let r ← p.given.foldlM Rules.with {}
  if r.all && (r.count || r.others || !r.single || !r.one) then
    refuse 1 (lit "--group is mutually exclusive with -c/-d/-D/-u")
  if r.count && r.others then
    refuse 1 (lit "printing all duplicated lines and repeat counts is meaningless")
  return r

/-- The descriptor on which the lines go. -/
def output (path : Bytes) : Routine (Option Nat) := do
  if isStandardInput path then standard 1
  else match ← openPath path .write with
    | .ok d => return some d
    | .error e => giveUp 1 (plainly path e)

end Uniq

open Uniq in
/-- Pass on lines by the runs that they are in. -/
def uniq : Utility := fun args => do
  let p ← arguments Uniq.options 1 args
  if let some extra := p.operands[2]? then refuse 1 (lit "extra operand " ++ Quoting.plain extra)
  let r ← Rules.ofOptions p
  let path := p.operands.headD standardInput
  match ← openInput path with
  | .error e => giveUp 1 (plainly path e)
  | .ok d =>
    let o ← Uniq.output (p.operands.getD 1 standardInput)
    redirected (fun n => if n = 1 then o else if n = 0 then d else if n = 2 then some 2 else none) (do
      let (position, failure) ← mapLines r.ending d r.step {}
      match failure with
      | some e => giveUp 1 (Uniq.wording.cannotRead path e)
      | none => put (r.finish position))

end LineShell.Program
