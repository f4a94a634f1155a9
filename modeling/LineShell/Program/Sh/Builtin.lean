import LineShell.Program.Formatting
import LineShell.Program.Sh.Condition
import LineShell.Program.Sh.Expansion
import LineShell.Program.Sh.Reader

/-!
# The commands of the shell itself

`Builtin.find?` gives what a command of the shell does with its arguments. Such commands can
change the state of the shell. Failures of some of them end it.
-/

namespace LineShell.Program.Sh

open Routine Shell

namespace Builtin

/-- Fail with a message. The failure of some commands ends the shell. -/
def fail (message : Bytes) : Shell Unit := do
  if specials.contains (← get).command then fatal message
  say message
  setStatus 2

/-- Write to the standard output stream. -/
def write (data : Bytes) : Shell Unit := do
  match ← act (do writeAll (← standard 1) data.length data) with
  | .ok () => setStatus 0
  | .error _ => do
    say ((← get).command ++ lit ": I/O error")
    setStatus 1

/-- The number that an argument writes, or a failure. -/
def withNumber (b : Bytes) (f : Nat → Shell Unit) : Shell Unit :=
  match number? b with
  | some n => f n
  | none => fail (lit "Illegal number: " ++ b)

/-- Refuse options of a command that has none. -/
def withoutOptions (f : List Bytes → Shell Unit) (args : List Bytes) : Shell Unit :=
  match args with
  | (0x2D :: b :: _) :: rest =>
    if b = 0x2D then f rest else fail (lit "Illegal option -" ++ [b])
  | args => f args

/-! ## Writing -/

/-- A value that a shell reads back. -/
def quotedValue (b : Bytes) : Bytes :=
  0x27 :: (b.flatMap fun c => if c = 0x27 then lit "'\"'\"'" else [c]) ++ [0x27]

/-- Write arguments. Backslashes in them have a meaning. -/
def echo (args : List Bytes) : Shell Unit := do
  let (bare, words) := if args.head? = some (lit "-n") then (true, args.drop 1) else (false, args)
  let text := (lit " ").intercalate words
  let (text, stopped) := Echo.unescape false text.length text
  write (text ++ if bare || stopped then [] else [lineFeed])

/-- The words for an argument of `printf` that is no number. -/
def complaint? : Format.Complaint → Option Bytes
  | .notNumeric a => some (a ++ lit ": expected numeric value")
  | .partlyNumeric a => some (a ++ lit ": not completely converted")
  | .outOfRange a => some (a ++ lit ": Numerical result out of range")
  | .trailing _ => none

/-- A conversion up to its letter. -/
def directive (text : Bytes) : Bytes :=
  text.take ((text.takeWhile fun b => !ByteClass.isAlpha b).length + 1)

/-- Write by a format. -/
def printf (args : List Bytes) : Shell Unit :=
  match args with
  | [] => fail (lit "usage: printf format [arg ...]")
  | format :: args => do
    let r := Format.all format (args.length + 1) args
    write r.bytes
    for c in r.complaints do
      if let some words := complaint? c then say words
    match r.failure with
    | some (.conversion text) =>
      fail (if text.length < 2 then lit "missing format character"
        else directive text ++ lit ": invalid directive")
    | some _ => setStatus 2
    | none => if !(r.complaints.filterMap complaint?).isEmpty then setStatus 1

/-- Tell whether a condition holds. -/
def test (args : List Bytes) : Shell Unit := do
  let s ← get
  let (files, view) ← act look
  if s.command = lit "[" && args.getLast? != some (lit "]") then fail (lit "missing ]")
  else
    let args := if s.command = lit "[" then args.dropLast else args
    match Condition.truth ⟨files, view⟩ args.length args with
    | .ok v => setStatus (if v then 0 else 1)
    | .error message => fail message

/-! ## Where a script goes on -/

/-- The number of loops that an argument gives. -/
def loops (f : Nat → Interruption) (args : List Bytes) : Shell Unit := do
  let all := (← get).loops
  setStatus 0
  withNumber (args.headD (lit "1")) fun n => do
    if n = 0 then fail (lit "Illegal number: 0")
    if 0 < all then throw (f (min n all - 1))

/-- End the shell, or a function. -/
def ending (f : Nat → Interruption) (args : List Bytes) : Shell Unit := do
  match args with
  | [] => throw (f (← get).status)
  | n :: _ => withNumber n fun n => do
    setStatus (n % 256)
    throw (f (n % 256))

/-! ## Places -/

/-- A path without points, from an absolute path on. -/
def normalized (start path : Bytes) : Bytes :=
  let names := fun (p : Bytes) => (partsOf Path.slash p).filter fun n => !n.isEmpty && n != Path.here
  let go (done : List Bytes) (n : Bytes) : List Bytes :=
    if n = Path.above then done.drop 1 else n :: done
  let all := (if Path.isAbsolute path then names path else names start ++ names path).foldl go []
  Path.slash :: [Path.slash].intercalate all.reverse

/-- The path of the own directory. -/
def place : Shell Bytes := do
  match ((← get).find? (lit "PWD")).bind Variable.value with
  | some path => return path
  | none =>
    let (files, view) ← act look
    return Path.slash :: [Path.slash].intercalate (files.pathTo view.directory)

/-- Go to another directory. -/
def changeDirectory (args : List Bytes) : Shell Unit := do
  let s ← get
  let value (name : String) : Bytes := ((s.find? (lit name)).bind Variable.value).getD []
  let isBack := args.head? = some (lit "-")
  let target := if isBack then value "OLDPWD" else args.headD (value "HOME")
  let here ← place
  let path := normalized here target
  let (files, view) ← act look
  match files.resolveDirectory view target, files.resolveDirectory view path with
  | .error _, _ => fail (lit "can't cd to " ++ target)
  | .ok _, .error _ => fail (lit "can't cd to " ++ target)
  | .ok _, .ok id => do
    act (goTo id)
    modify fun s =>
      let exported (v : Bytes) : Variable := { value := some v, isExported := true }
      (s.setVariable (lit "OLDPWD") (exported here)).setVariable (lit "PWD") (exported path)
    if isBack then write (path ++ [lineFeed]) else setStatus 0

/-! ## Signals -/

/-- The names of signals from the first on. -/
def signalNames : List String :=
  ["HUP", "INT", "QUIT", "ILL", "TRAP", "ABRT", "BUS", "FPE", "KILL", "USR1", "SEGV", "USR2",
    "PIPE", "ALRM", "TERM", "STKFLT", "CHLD", "CONT", "STOP", "TSTP", "TTIN", "TTOU", "URG",
    "XCPU", "XFSZ", "VTALRM", "PROF", "WINCH", "IO", "PWR", "SYS"]

/-- The number of a signal, by its number or its name. -/
def signal? (b : Bytes) : Option Nat :=
  match number? b with
  | some n => if n ≤ 64 then some n else none
  | none => (signalNames.findIdx? fun n => lit n = b.map ByteClass.upper).map (· + 1)

/-- A signal that does nothing when nobody waits for it. -/
def isHarmless (signal : Nat) : Bool :=
  [0, 17, 18, 23, 28].contains signal

/-- Get a signal. -/
def receive (evaluate : Bytes → Shell Unit) (signal : Nat) : Shell Unit := do
  match (← get).traps.lookup signal with
  | some action =>
    if signal = 9 then act (die signal)
    let status := (← get).status
    if !action.isEmpty then evaluate action
    setStatus status
  | none => if !isHarmless signal then act (die signal)

/-- Send a signal to processes. Only the own process can be sent one. -/
def send (evaluate : Bytes → Shell Unit) (signal : Nat) : List Bytes → Shell Unit
  | [] => return
  | target :: rest => do
    let pid ← act self
    match number? target with
    | none => fail (lit "Illegal number: " ++ target)
    | some n => do
      if n = pid then receive evaluate signal
      else
        say (lit "No such process\n")
        setStatus 1
      send evaluate signal rest

/-- Write the names of signals, or of those that have killed programs with a status. -/
def listSignals (args : List Bytes) : Shell Unit := do
  match args with
  | [] => write ((lit "0" :: signalNames.map lit).flatMap (· ++ [lineFeed]))
  | b :: _ =>
    withNumber b fun n => do
      match signalNames[(if 128 < n then n - 128 else n) - 1]? with
      | some name => if n = 0 then unknown b else write (lit name ++ [lineFeed])
      | none => unknown b
where
  /-- Refuse a signal. -/
  unknown (b : Bytes) : Shell Unit := fail (lit "invalid signal number or exit status: " ++ b)

/-- Send a signal to processes. -/
def kill (evaluate : Bytes → Shell Unit) (args : List Bytes) : Shell Unit := do
  let usage : Shell Unit :=
    fail (lit "Usage: kill [-s sigspec | -signum | -sigspec] [pid | job]... or\nkill -l [exitstatus]")
  let toAll (signal : Nat) (targets : List Bytes) : Shell Unit := do
    if targets.isEmpty then usage
    else
      setStatus 0
      send evaluate signal targets
  match args with
  | [] => usage
  | (0x2D :: name) :: rest =>
    match signal? name with
    | some n => toAll n rest
    | none =>
      if name = lit "s" then
        match rest with
        | [] => fail (lit "No arg for -s option")
        | b :: rest =>
          match signal? b with
          | some n => toAll n rest
          | none => fail (lit "invalid signal number or name: " ++ b)
      else if name = lit "l" then listSignals rest
      else if name = lit "-" then toAll 15 rest
      else fail (lit "Illegal option -" ++ name.take 1)
  | args => toAll 15 args

/-- Say what to do at signals, or at the end. -/
def trap (args : List Bytes) : Shell Unit := do
  let named (b : Bytes) : Option Nat := if b = lit "EXIT" then some 0 else signal? b
  let nameOf (n : Nat) : Bytes := if n = 0 then lit "EXIT" else lit (signalNames.getD (n - 1) "")
  match args with
  | [] =>
    write ((← get).traps.flatMap fun t => lit "trap -- " ++ quotedValue t.2 ++ lit " " ++ nameOf t.1 ++ lit "\n")
  | action :: signals =>
    let resets := action = lit "-" || (number? action).isSome
    setStatus 0
    for b in (if (number? action).isSome then args else signals) do
      match named b with
      | none => do
        act (warn (lit "trap: " ++ b ++ lit ": bad trap\n"))
        setStatus 1
      | some n => modify fun s =>
        let others := s.traps.filter (·.1 != n)
        { s with traps := if resets then others else (others ++ [(n, action)]).mergeSort fun a b => a.1 ≤ b.1 }

/-! ## Options and variables -/

/-- The options by their names. -/
def optionNames : List (String × Char) :=
  [("errexit", 'e'), ("noglob", 'f'), ("noexec", 'n'), ("xtrace", 'x'), ("verbose", 'v'),
    ("nounset", 'u'), ("allexport", 'a'), ("noclobber", 'C'), ("notify", 'b'), ("monitor", 'm')]

/-- Turn options on or off by their letters. -/
def turn (on : Bool) (s : State) : Bytes → Except Bytes State
  | [] => .ok s
  | b :: rest =>
    if optionNames.any fun o => o.2.toNat = b.toNat then
      let others := s.options.filter (· != b)
      turn on { s with options := if on then others ++ [b] else others } rest
    else .error (lit "Illegal option -" ++ [b])

/-- Turn an option on or off by its name. -/
def turnNamed (on : Bool) (s : State) (name : Bytes) : Except Bytes State :=
  match optionNames.find? fun o => lit o.1 = name with
  | some o => turn on s [UInt8.ofNat o.2.toNat]
  | none => .error (lit "Illegal option -o " ++ name)

/-- Turn options on and off, and set the arguments of the script if there are any. -/
def setOptions (isSet : Bool) : Nat → State → List Bytes → Except Bytes State
  | 0, s, _ => .ok s
  | _, s, [] => .ok (if isSet then { s with arguments := [] } else s)
  | fuel + 1, s, a :: rest =>
    if a = lit "--" || a = lit "-" then
      .ok (if a = lit "-" && rest.isEmpty then s else { s with arguments := rest })
    else match a, rest with
      | [sign, 0x6F], name :: rest => do
        setOptions false fuel (← turnNamed (sign = 0x2D) s name) rest
      | sign :: letters, rest =>
        if sign = 0x2D || sign = 0x2B then do setOptions false fuel (← turn (sign = 0x2D) s letters) rest
        else .ok { s with arguments := a :: rest }
      | [], rest => .ok { s with arguments := [] :: rest }

/-- A list of variables. -/
def listing (start : Bytes) (vs : List (Bytes × Variable)) : Bytes :=
  (vs.mergeSort fun a b => compareBytes a.1 b.1 != .gt).flatMap fun v =>
    start ++ v.1 ++ (v.2.value.map fun b => lit "=" ++ quotedValue b).getD [] ++ lit "\n"

/-- Turn options on and off, or list the variables. -/
def set (args : List Bytes) : Shell Unit := do
  let s ← get
  if args.isEmpty then
    write (listing [] (s.bindings.filter (·.2.value.isSome)))
    return
  match setOptions false args.length s args with
  | .ok s => do
    modify fun _ => s
    setStatus 0
  | .error message => fail message

/-- Mark variables, with new values if they are given. -/
def mark (f : Variable → Variable) (has : Variable → Bool) (args : List Bytes) : Shell Unit := do
  let s ← get
  let names := args.filter (· != lit "-p")
  if names.isEmpty then
    write (listing (s.command ++ lit " ") (s.bindings.filter fun v => has v.2))
    return
  setStatus 0
  for a in names do
    let (name, value) := match Text.cutAt 0x3D a with
      | some (name, value) => (name, some value)
      | none => (a, none)
    if !Sh.isName name then fail (name ++ lit ": bad variable name")
    if let some value := value then assign name value
    modify fun s => s.setVariable name (f ((s.find? name).getD {}))

/-- Take variables, or functions, away. -/
def unset (args : List Bytes) : Shell Unit := do
  setStatus 0
  for name in args.filter (·.head? != some 0x2D) do
    if !Sh.isName name then fail (name ++ lit ": bad variable name")
    if (((← get).find? name).map Variable.isFixed).getD false then
      fail (name ++ lit ": is read only")
    modify fun s =>
      if args.head? = some (lit "-f") then
        { s with functions := s.functions.filter (·.1 != name) }
      else { s with bindings := s.bindings.filter (·.1 != name) }

/-- Make variables of a function, which have their old values again when it has ended. -/
def makeLocal (args : List Bytes) : Shell Unit := do
  if (← get).depth = 0 then fatal (lit "not in a function")
  setStatus 0
  for a in args do
    let (name, value) := (Text.cutAt 0x3D a).getD (a, [])
    modify fun s => { s with locals := (name, s.find? name) :: s.locals }
    if a.contains 0x3D then assign name value

/-- Take so many arguments of the script off. -/
def shift (args : List Bytes) : Shell Unit := do
  let go (n : Nat) : Shell Unit := do
    let s ← get
    if s.arguments.length < n then fail (lit "can't shift that many")
    else modify fun s => { s with arguments := s.arguments.drop n, status := 0 }
  match args with
  | [] => go 1
  | n :: _ => withNumber n go

/-! ## Reading -/

/-- Read a line from the standard input stream, byte by byte. A backslash takes the byte
behind it for itself, or joins lines. The answer says whether the line has an end. -/
def readMarks (raw : Bool) : Nat → List Mark → Shell (List Mark × Bool)
  | 0, line => return (line.reverse, false)
  | fuel + 1, line => do
    match ← act (do read (← standard 0) 1) with
    | .ok [b] =>
      if b = lineFeed then return (line.reverse, true)
      else if b = 0x5C && !raw then
        match ← act (do read (← standard 0) 1) with
        | .ok [c] => readMarks raw fuel (if c = lineFeed then line else ⟨c, true⟩ :: line)
        | _ => return (line.reverse, false)
      else readMarks raw fuel (⟨b, false⟩ :: line)
    | _ => return (line.reverse, false)

/-- Give the words of a line to names in turn. The last name gets all that is left. -/
def assignWords (separators : Bytes) : List Bytes → List Mark → Shell Unit
  | [], _ => return
  | name :: names, line => do
    let isBlank (m : Mark) : Bool := !m.quoted && Fields.isBlankSeparator separators m.byte
    let isEnd (m : Mark) : Bool := !m.quoted && separators.contains m.byte
    let line := line.dropWhile isBlank
    if names.isEmpty then
      assign name (Mark.bytes ((line.reverse.dropWhile isBlank).reverse))
    else
      assign name (Mark.bytes (line.takeWhile (!isEnd ·)))
      let rest := (line.dropWhile (!isEnd ·)).dropWhile isBlank
      let rest := match rest with
        | m :: more => if isEnd m then more else m :: more
        | [] => []
      assignWords separators names rest

/-- Read a line into variables. -/
def readLine (args : List Bytes) : Shell Unit := do
  let raw := args.head? = some (lit "-r")
  let names := if raw then args.drop 1 else args
  match names.find? (!Sh.isName ·) with
  | some name => fail (name ++ lit ": bad variable name")
  | none => do
    if names.isEmpty then fail (lit "arg count")
    else
      let (line, isWhole) ← readMarks raw patience []
      assignWords (← get).separators names line
      setStatus (if isWhole then 0 else 1)

/-- Show or set the mask for the modes of new files. -/
def mask (args : List Bytes) : Shell Unit := do
  match args with
  | [] => write (padLeftZero 4 (Format.digitsTo 8 (← get).mask) ++ [lineFeed])
  | b :: _ =>
    if b.all ByteClass.isOctal then
      modify fun s => { s with mask := ByteClass.octalValue b % 512, status := 0 }
    else if ByteClass.isDigit (b.headD 0) then fail (lit "Illegal number: " ++ b)
    else setStatus 0
where
  /-- A text with zeros in front. -/
  padLeftZero (width : Nat) (b : Bytes) : Bytes := List.replicate (width - b.length) 0x30 ++ b

/-! ## Finding commands -/

/-- The commands of the shell that need nothing but their arguments. -/
def plain : List (String × (List Bytes → Shell Unit)) :=
  [(":", fun _ => setStatus 0), ("true", fun _ => setStatus 0), ("false", fun _ => setStatus 1),
    ("echo", echo), ("printf", withoutOptions printf), ("test", test), ("[", test),
    ("exit", ending fun n => .exit n), ("return", ending fun _ => .back),
    ("break", loops .leave), ("continue", loops .again), ("cd", changeDirectory),
    ("chdir", changeDirectory),
    ("pwd", withoutOptions fun _ => do write ((← place) ++ [lineFeed])),
    ("trap", trap), ("set", set), ("shift", shift),
    ("export", mark (fun v => { v with isExported := true }) Variable.isExported),
    ("readonly", mark (fun v => { v with isFixed := true }) Variable.isFixed),
    ("unset", unset), ("local", makeLocal), ("read", readLine), ("umask", mask),
    ("ulimit", fun _ => setStatus 0), ("jobs", fun _ => setStatus 0), ("hash", fun _ => setStatus 0),
    ("times", fun _ => write (lit "0m0.000000s 0m0.000000s\n0m0.000000s 0m0.000000s\n")),
    ("wait", fun args => do
      settle
      setStatus (if args.isEmpty then 0 else 127))]

/-- The names of the other commands of the shell. -/
def others : List Bytes :=
  ["kill", "eval", ".", "exec", "command", "type"].map lit

/-- The name is that of a command of the shell. -/
def isName (name : Bytes) : Bool :=
  others.contains name || plain.any fun c => lit c.1 = name

/-- What a command of the shell that needs nothing but its arguments does. -/
def plain? (name : Bytes) : Option (List Bytes → Shell Unit) :=
  (plain.find? fun c => lit c.1 = name).map Prod.snd

end Builtin

end LineShell.Program.Sh
