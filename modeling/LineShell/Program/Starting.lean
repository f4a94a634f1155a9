import LineShell.Program.Arguments

/-!
# Starting other programs

`nohup`, `nice` and `timeout` run the program that their operands name. `nohup` and `nice` put
it in their own place, and `timeout` waits for its end. Time does not pass for programs, so
none takes too long.
-/

namespace LineShell.Program

open Routine Arguments

namespace Starting

/-- The exit code of a program that fails before it starts another. -/
def failure : Nat := 125

/-- Run the program that words name in place of the running one. If there is none, `message`
gives the words for why. -/
def start (launcher : Launcher) (message : Bytes → Errno → Bytes) (words : List Bytes) : Routine Unit := do
  let environment := (← frame).environment
  let (files, view) ← look
  match launcher files view environment words with
  | .ok (name, p) => named name p
  | .error e => do
    complain (message (words.headD []) e)
    exit (if e = .noEntry then 127 else 126)

/-- The words for a program that cannot be run. -/
def cannotRun (name : Bytes) (e : Errno) : Bytes :=
  lit "failed to run command " ++ Quoting.plain name ++ lit ": " ++ e.sentence

/-- A text is a length of time: a decimal number, with a letter for the unit or without. -/
def isTime (text : Bytes) : Bool :=
  let number := match text.getLast? with
    | some unit => if (lit "smhd").contains unit then text.dropLast else text
    | none => text
  let parts := partsOf 0x2E number
  parts.length ≤ 2 && parts.any (fun p => !p.isEmpty) && parts.all fun p => p.all ByteClass.isDigit

end Starting

/-- Run a program that is not to end with the terminal. -/
def nohup (launcher : Launcher) : Utility := fun args => do
  let p ← leadingArguments [] Starting.failure args
  if p.operands.isEmpty then refuse Starting.failure (lit "missing operand")
  Starting.start launcher Starting.cannotRun p.operands

/-- Run a program at another priority, or tell the own priority if no program is named. -/
def nice (launcher : Launcher) : Utility := fun args => do
  let isOld (a : Bytes) : Bool := a.head? = some 0x2D && (number? (a.drop 1)).isSome
  let args := if isOld (args.headD []) then args.drop 1 else args
  let p ← leadingArguments [valued 'n' "adjustment"] Starting.failure args
  if let some v := p.value? 'n' then
    let ds := if v.head? = some 0x2D || v.head? = some 0x2B then v.drop 1 else v
    if (number? ds).isNone then
      giveUp Starting.failure (lit "invalid adjustment " ++ Quoting.plain v)
  if p.operands.isEmpty then
    if p.has 'n' then refuse Starting.failure (lit "a command must be given with an adjustment")
    put (lit "0\n")
    exit 0
  Starting.start launcher (fun name e => Quoting.plain name ++ lit ": " ++ e.sentence) p.operands

/-- Run a program for a limited time. -/
def timeout (launcher : Launcher) : Utility := fun args => do
  let p ← leadingArguments [flag 'f' "foreground", valued 'k' "kill-after", flag 'p' "preserve-status",
    valued 's' "signal", flag 'v' "verbose"] Starting.failure args
  match p.operands with
  | [] | [_] => pointToHelp Starting.failure
  | time :: words =>
    if !Starting.isTime time then
      refuse Starting.failure (lit "invalid time interval " ++ Quoting.plain time)
    match ← inside (Starting.start launcher Starting.cannotRun words) with
    | .exited code => exit code
    | .killed signal => exit (128 + signal)

end LineShell.Program
