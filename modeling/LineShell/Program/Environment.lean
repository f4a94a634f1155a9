import LineShell.Program.Arguments

/-!
# Environments

The environment of a program is a list of names and values that it passes on to the programs
it starts. `env` lists it, or runs a program in another one, and `printenv` gives values of it.
-/

namespace LineShell.Program

open Routine Arguments

namespace Environment

/-- The environment with a value for a name. -/
def set (name value : Bytes) (e : List (Bytes × Bytes)) : List (Bytes × Bytes) :=
  if (e.lookup name).isSome then e.map fun v => if v.1 = name then (name, value) else v
  else e ++ [(name, value)]

/-- The environment without a name. -/
def unset (name : Bytes) (e : List (Bytes × Bytes)) : List (Bytes × Bytes) :=
  e.filter (·.1 != name)

/-- The environment as a text, with a byte behind each value. -/
def listing (ending : UInt8) (e : List (Bytes × Bytes)) : Bytes :=
  e.flatMap fun v => v.1 ++ lit "=" ++ v.2 ++ [ending]

end Environment

/-- The options of `env`. -/
def envSpecs : List Spec :=
  [flag 'i' "ignore-environment", flag '0' "null", valued 'u' "unset", valued 'C' "chdir",
    flag 'v' "debug"]

/-- The exit code of a program that fails before it starts another. -/
def envFailure : Nat := 125

/-- Run a program in another environment, or list the environment if no program is named. -/
def env (launcher : Launcher) : Utility := fun args => do
  let p ← leadingArguments envSpecs envFailure args
  let (bare, operands) :=
    if p.operands.head? = some standardInput then (true, p.operands.drop 1) else (p.has 'i', p.operands)
  let isSetting (a : Bytes) : Bool := a.contains 0x3D
  let settings := (operands.takeWhile isSetting).filterMap (Text.cutAt 0x3D)
  let words := operands.dropWhile isSetting
  for g in p.given do
    if g.letter = 'u' && (g.value.isEmpty || g.value.contains 0x3D) then
      giveUp envFailure (lit "cannot unset " ++ Quoting.plain g.value ++ lit ": Invalid argument")
  let own := (← frame).environment
  let kept := p.given.foldl (fun e g => if g.letter = 'u' then Environment.unset g.value e else e)
    (if bare then [] else own)
  let environment := settings.foldl (fun e s => Environment.set s.1 s.2 e) kept
  if words.isEmpty then
    if p.has 'C' then refuse envFailure (lit "must specify command with --chdir (-C)")
    put (Environment.listing (if p.has '0' then 0 else lineFeed) environment)
    exit 0
  if p.has '0' then refuse envFailure (lit "cannot specify --null (-0) with command")
  if let some path := p.value? 'C' then
    let (files, view) ← look
    match files.resolveDirectory view path with
    | .ok id => goTo id
    | .error e =>
      giveUp envFailure (lit "cannot change directory to " ++ Quoting.shell path ++ lit ": " ++ e.sentence)
  let (files, view) ← look
  match launcher files view environment words with
  | .ok (name, p) => named name (inEnvironment environment p)
  | .error e => do
    complain (Quoting.plain (words.headD []) ++ lit ": " ++ e.sentence)
    if e = .noEntry && (words.headD []).contains 0x20 then
      complain (lit "use -[v]S to pass options in shebang lines")
    exit (if e = .noEntry then 127 else 126)

/-- Write the values of names, or all names and values if none is given. -/
def printenv : Utility := fun args => do
  let p ← leadingArguments [flag '0' "null"] 2 args
  let ending := if p.has '0' then 0 else lineFeed
  let own := (← frame).environment
  if p.operands.isEmpty then
    putOr 2 writeError (Environment.listing ending own)
    exit 0
  let found := p.operands.map fun name => own.lookup name
  putOr 2 writeError ((found.filterMap fun v => v).flatMap fun v => v ++ [ending])
  exit (if found.all Option.isSome then 0 else 1)

end LineShell.Program
