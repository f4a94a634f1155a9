import LineShell.Program.Sh.Builtin

/-!
# Running scripts

`Shell.perform` runs a statement. Programs that a script starts run inside the shell's own
process. A script is read line by line, and a line that cannot be read ends it. `sh` is the
shell as a program.
-/

namespace LineShell.Program.Sh

open Routine

namespace Shell

/-! ## Programs -/

/-- What is said of a program that a signal has killed, if anything. -/
def epitaph (signal : Nat) : Bytes :=
  let texts : List (Nat × String) :=
    [(1, "Hangup"), (3, "Quit"), (4, "Illegal instruction"), (5, "Trace/breakpoint trap"),
      (6, "Aborted"), (7, "Bus error"), (8, "Floating point exception"), (9, "Killed"),
      (10, "User defined signal 1"), (11, "Segmentation fault"), (12, "User defined signal 2"),
      (14, "Alarm clock"), (15, "Terminated"), (16, "Stack fault"), (24, "CPU time limit exceeded"),
      (25, "File size limit exceeded"), (26, "Virtual timer expired"),
      (27, "Profiling timer expired"), (29, "I/O possible"), (30, "Power failure"),
      (31, "Bad system call")]
  match texts.lookup signal with
  | some text => lit text
  | none =>
    if signal < 32 then []
    else if signal < 34 then lit "Unknown signal " ++ digits signal
    else lit "Real-time signal " ++ digits (signal - 34)

/-- A file for a program is not there. -/
def isAbsence (e : Errno) : Bool := e = .noEntry || e = .notDirectory

/-- The words for a program that cannot be started. -/
def refusal (e : Errno) : Bytes := if isAbsence e then lit "not found" else e.sentence

/-- The status for a program that cannot be started. -/
def refusalStatus (e : Errno) : Nat :=
  if isAbsence e || e = .tooManyLinks || e = .nameTooLong then 127 else 126

/-- Become a program. -/
def replace (launcher : Launcher) (words : List Bytes) : Shell Unit := do
  let (files, view) ← act look
  match launcher files view (← searching) words with
  | .ok (name, p) => act do
    named name p
    exit 0
  | .error e => do
    say (words.headD [] ++ lit ": " ++ refusal e)
    leave (refusalStatus e)

/-- Do something as a process of its own, and wait for it. -/
def await (p : Routine Unit) : Shell Unit := do
  let e ← apart p
  if let .killed n := e then
    if !(epitaph n).isEmpty then act (warn (epitaph n ++ lit "\n"))
  setStatus (statusOf e)

/-- Run a program. -/
def start (launcher : Launcher) (words : List Bytes) : Shell Unit := do
  let s ← get
  if s.last && s.traps.isEmpty then replace launcher words
  else
    let (files, view) ← act look
    match launcher files view (← searching) words with
    | .ok (name, p) => await (named name p)
    | .error e => do
      say (words.headD [] ++ lit ": " ++ refusal e)
      setStatus (refusalStatus e)

/-- The path of a program, as the search path gives it. -/
def path? (name : Bytes) : Shell (Option Bytes) := do
  let s ← get
  let (files, view) ← act look
  let found (path : Bytes) : Bool := ((files.resolveNode view path).toOption.map files.isFile).getD false
  if name.contains Path.slash then return if found name then some name else none
  let places := partsOf 0x3A (((s.find? (lit "PATH")).bind Variable.value).getD [])
  return (places.map fun d => if d.isEmpty then name else d ++ Path.slash :: name).find? found

/-- Say what names stand for. -/
def describe (long : Bool) : List Bytes → Shell Unit
  | [] => return
  | name :: rest => do
    let s ← get
    let known (what : String) : Bytes := if long then name ++ lit what else name
    let text ← if reserved.contains name then pure (some (known " is a shell keyword"))
      else if (s.functions.lookup name).isSome then pure (some (known " is a shell function"))
      else if specials.contains name then pure (some (known " is a special shell builtin"))
      else if Builtin.isName name then pure (some (known " is a shell builtin"))
      else do
        let path ← path? name
        pure (path.map fun p => if long then name ++ lit " is " ++ p else p)
    match text with
    | some text => Builtin.write (text ++ [lineFeed])
    | none => if long then Builtin.write (name ++ lit ": not found\n")
    describe long rest
    if text.isNone then setStatus 127

/-! ## Redirections -/

/-- Close descriptors. -/
def closeAll : List Nat → Shell Unit
  | [] => return
  | d :: rest => do
    act (close d)
    closeAll rest

/-- The streams after a file has been opened for one of them. Nobody sees the descriptor
under which the system has opened it. -/
def placed (stream : Nat → Option Nat) (n d : Nat) : Nat → Option Nat :=
  Channel.exchange (Channel.exchange stream d (if stream d = some d then none else stream d)) n (some d)

/-- Change a stream. -/
def setStream (n : Nat) (d : Option Nat) : Shell Unit :=
  modify fun s => { s with stream := Channel.exchange s.stream n d }

/-- Do something that finds a text in a channel. -/
def supplying {α : Type} (text : Bytes) (p : (channel : Nat) → Shell α) : Shell α :=
  fun s => redirected s.stream (supplied text fun channel => p channel s)

/-- Do something with redirections in force, and say whether they could be made. The
descriptors opened for them are closed again, unless they are to be kept. -/
def redirecting (evaluate : Bytes → Shell Unit) (keep : Bool) (p : Shell Unit) :
    (opened : List Nat) → List Redirect → Shell Bool
  | opened, [] => ExceptT.mk do
    let r ← p.run
    if !keep then
      let _ ← (closeAll opened).run
    return r.map fun _ => true
  | opened, r :: rest => do
    let failing (message : Bytes) : Shell Bool := do
      say message
      closeAll opened
      return false
    let target ← text evaluate r.word
    match r.kind with
    | .document => supplying target fun channel => do
      setStream r.descriptor (some channel)
      redirecting evaluate keep p opened rest
    | .copy =>
      match target with
      | [b] =>
        if b = Arguments.dash then
          setStream r.descriptor none
          redirecting evaluate keep p opened rest
        else if !ByteClass.isDigit b then fatal (lit "Bad fd number")
        else
          let n := b.toNat - 0x30
          let (_, view) ← act look
          if (view.opened n).isNone then failing ([b] ++ lit ": " ++ Errno.badDescriptor.sentence)
          else
            setStream r.descriptor ((← get).stream n)
            redirecting evaluate keep p opened rest
      | _ => fatal (lit "Bad fd number")
    | .openFile mode =>
      match ← act (openPath target mode) with
      | .ok d => do
        modify fun s => { s with stream := placed s.stream r.descriptor d }
        redirecting evaluate keep p (d :: opened) rest
      | .error e =>
        let what := if mode = .read then lit "cannot open " else lit "cannot create "
        let why := if !isAbsence e then e.sentence
          else if mode = .read then lit "No such file"
          else lit "Directory nonexistent"
        failing (what ++ target ++ lit ": " ++ why)

/-- Do something with redirections in force. One that fails gives status 2. -/
def withRedirects (evaluate : Bytes → Shell Unit) (rs : List Redirect) (p : Shell Unit) : Shell Unit :=
  keepingStreams do
    if !(← redirecting evaluate false p [] rs) then setStatus 2

/-! ## Commands -/

/-- Give variables the values of words. The answer has the names and values. -/
def assignAll (evaluate : Bytes → Shell Unit) (exported : Bool) :
    List (Bytes × Word) → Shell (List (Bytes × Bytes))
  | [] => return []
  | (name, w) :: rest => do
    let value ← text evaluate w
    assign name value
    if exported then
      modify fun s => s.setVariable name { (s.find? name).getD {} with isExported := true }
    return (name, value) :: (← assignAll evaluate exported rest)

/-- Do something, after which variables are what they were before. -/
def keepingVariables (names : List Bytes) (p : Shell Unit) : Shell Unit := do
  let before := (← get).bindings
  p.after fun s => names.foldl (fun s name =>
    match before.lookup name with
    | some v => s.setVariable name v
    | none => { s with bindings := s.bindings.filter (·.1 != name) }) s

/-- Show a command before it is run, if that is asked for. -/
def trace (stream : Nat → Option Nat) (assigned : List (Bytes × Bytes)) (words : List Bytes) :
    Shell Unit := do
  if (← get).has 'x' then
    let parts := assigned.map (fun a => a.1 ++ lit "=" ++ a.2) ++ words
    act (redirected stream (warn (lit "+ " ++ (lit " ").intercalate parts ++ lit "\n")))

/-- End the shell if a command has failed and nobody looks at its status. -/
def check (p : Shell Unit) : Shell Unit := do
  p
  let s ← get
  if s.status != 0 && s.has 'e' && !s.tested then leave s.status

/-- Run a command of the shell itself. -/
def builtin (launcher : Launcher) (evaluate : Bytes → Shell Unit) : (commands : Nat) →
    (name : Bytes) → (args : List Bytes) → Shell Unit
  | 0, _, _ => return
  | commands + 1, name, args => commanded name do
    match Builtin.plain? name with
    | some f => f args
    | none =>
      if name = lit "kill" then Builtin.kill evaluate args
      else if name = lit "eval" then
        setStatus 0
        notLast (evaluate ((lit " ").intercalate args))
      else if name = lit "type" then
        setStatus 0
        describe true args
      else if name = lit "exec" then
        if args.isEmpty then setStatus 0 else replace launcher args
      else if name = lit "command" then
        match args with
        | [] => setStatus 0
        | a :: rest =>
          if a = lit "-v" || a = lit "-V" then
            setStatus 0
            describe (a = lit "-V") (rest.take 1)
          else
            let words := if a = lit "-p" || a = lit "--" then rest else args
            let first := words.headD []
            modify fun s => { s with command := [] }
            if words.isEmpty then setStatus 0
            else if Builtin.isName first then builtin launcher evaluate commands first (words.drop 1)
            else start launcher words
      else
        -- the command `.`
        match args with
        | [] => setStatus 0
        | a :: _ =>
          match ← path? a with
          | none =>
            fatal (if a.contains Path.slash then lit "cannot open " ++ a ++ lit ": No such file"
              else a ++ lit ": not found")
          | some path =>
            match ← act (openPath path .read) with
            | .error e => fatal (lit "cannot open " ++ a ++ lit ": " ++ e.sentence)
            | .ok d => do
              let data ← act (readAll (some d))
              act (close d)
              setStatus 0
              ExceptT.mk do
                return match ← (commanded path (notLast (evaluate (data.toOption.getD [])))).run with
                  | .error .back => .ok ()
                  | r => r

/-- The commands inside which a command of the shell can stand. -/
def commandDepth : Nat := 1000

/-- Run a command: a function, a command of the shell itself, or a program. -/
def command (launcher : Launcher) (evaluate : Bytes → Shell Unit) (perform : Statement → Shell Unit)
    (words : List Bytes) : Shell Unit := do
  let name := words.headD []
  let args := words.drop 1
  match (← get).functions.lookup name with
  | some body => called args (perform body)
  | none =>
    if Builtin.isName name then builtin launcher evaluate commandDepth name args
    else start launcher words

/-- Run a simple command: its words, with assignments and redirections. -/
def simple (launcher : Launcher) (evaluate : Bytes → Shell Unit) (perform : Statement → Shell Unit)
    (assignments : List (Bytes × Word)) (words : List Word) (redirects : List Redirect) :
    Shell Unit := do
  modify fun s => { s with answer := 0 }
  let words ← fields evaluate words
  let outer := (← get).stream
  match words with
  | [] =>
    withRedirects evaluate redirects do
      let assigned ← assignAll evaluate false assignments
      if !assigned.isEmpty then trace outer assigned []
      setStatus (← get).answer
  | name :: _ =>
    let isSpecial := specials.contains name && ((← get).functions.lookup name).isNone
    let run : Shell Unit := do
      let go : Shell Unit := do
        let assigned ← assignAll evaluate (!isSpecial) assignments
        trace outer assigned words
        command launcher evaluate perform words
      if isSpecial then go else keepingVariables (assignments.map Prod.fst) go
    let isKept := name = lit "exec" && words.length = 1
    let redirected (p : Shell Unit) : Shell Bool := redirecting evaluate isKept p [] redirects
    let made ← if isKept then redirected run else keepingStreams (redirected run)
    if !made then
      if isSpecial then leave 2
      setStatus 2

/-! ## Statements -/

/-- Run the lines of a script. A line that cannot be read ends the shell. Every line takes a
lexeme off, so as much fuel is enough. -/
def lines (perform : Statement → Shell Unit) : Nat → List Lexeme → Shell Unit
  | 0, _ => return
  | fuel + 1, ls => do
    match Reader.line ls with
    | .error fault => do
      modify fun s => { s with line := fault.line }
      fatal (lit "Syntax error: " ++ fault.message)
    | .ok (a, rest) =>
      let isLast := match rest with
        | [] => true
        | l :: _ => match l.kind with
          | .ending => true
          | _ => false
      let go : Shell Unit := if (← get).has 'n' then pure () else perform a
      if isLast then go
      else
        notLast go
        lines perform fuel rest

/-- Run a script. -/
def evaluateBy (perform : Statement → Shell Unit) (script : Bytes) : Shell Unit :=
  let ls := Lexeme.ofScript script
  lines perform (ls.length + 1) ls

/-- Do a round of a loop for each value of a variable. -/
def rounds (name : Bytes) (body : Shell Unit) : List Bytes → Shell Unit
  | [] => return
  | value :: values => do
    let more ← round do
      assign name value
      body
      return true
    if more then rounds name body values

/-- Do rounds of a loop while a condition has a given truth. -/
def roundsWhile (truth : Bool) (condition : Shell Bool) (body : Shell Unit) :
    Nat → (status : Nat) → Shell Unit
  | 0, _ => return
  | fuel + 1, status => do
    let more ← round do
      if (← condition) = truth then
        body
        return true
      setStatus status
      return false
    if more then roundsWhile truth condition body fuel (← get).status

/-- The statement of the first arm with a pattern that fits a text. -/
def chosen (evaluate : Bytes → Shell Unit) (subject : Bytes) :
    List (List Word × Statement) → Shell Statement
  | [] => return .nothing
  | (ws, a) :: rest => do
    for w in ws do
      if Glob.fits (Glob.parts (← marks evaluate w)) subject then return a
    chosen evaluate subject rest

/-- Run a statement. Every step goes one deeper into it, or to the next round of a loop. -/
def perform (launcher : Launcher) : (fuel : Nat) → Statement → Shell Unit
  | 0, _ => return
  | fuel + 1, statement => do
    let go := perform launcher fuel
    let evaluate := evaluateBy go
    match statement with
    | .nothing => return
    | .simple line assignments words redirects => do
      modify fun s => { s with line := line }
      check (simple launcher evaluate go assignments words redirects)
    | .sequence a b => do
      notLast (go a)
      go b
    | .both a b => if ← testing (go a) then go b
    | .either a b => if !(← testing (go a)) then go b
    | .negated a => setStatus (if ← testing (go a) then 1 else 0)
    | .piped a b => check do
      let left ← alone evaluate (go a)
      let right ← alone evaluate (go b)
      let e ← act (piped left right)
      setStatus (statusOf e)
    | .background a => do
      let p ← alone evaluate (go a)
      let stream := (← get).stream
      let job : Routine Unit := do
        let d ← openPath (lit "/dev/null") .read
        redirected (Channel.exchange stream 0 d.toOption) p
      modify fun s => { s with jobs := s.jobs ++ [job], status := 0 }
    | .conditional c yes no => do
      if ← testing (go c) then go yes
      else
        setStatus 0
        go no
    | .loop truth c body =>
      roundsWhile truth (testing (go c)) (go body) patience 0
    | .each name words body => do
      let values ← match words with
        | some ws => fields evaluate ws
        | none => pure (← get).arguments
      setStatus 0
      rounds name (go body) values
    | .choice word arms => do
      let subject ← text evaluate word
      let a ← chosen evaluate subject arms
      setStatus 0
      go a
    | .function name body => modify fun s =>
      { s with functions := (name, body) :: s.functions.filter (·.1 != name), status := 0 }
    | .redirected line a redirects => do
      modify fun s => { s with line := line }
      withRedirects evaluate redirects (notLast (go a))
    | .subshell a => check do
      await (← alone evaluate (go a))

/-- The search path of a shell that is given none. -/
def usualPath : Bytes := lit "/usr/local/sbin:/usr/local/bin:/usr/sbin:/usr/bin:/sbin:/bin"

/-- Run a script to its end. -/
def runScript (launcher : Launcher) (s : State) (script : Bytes) : Routine Unit := do
  let (files, view) ← look
  let here := Path.slash :: [Path.slash].intercalate (files.pathTo view.directory)
  let exported (b : Bytes) : Variable := { value := some b, isExported := true }
  let e ← frame
  let s := { s with
    bindings := e.environment.map fun (v : Bytes × Bytes) => (v.1, exported v.2)
    stream := e.stream }
  let evaluate := evaluateBy (perform launcher patience)
  let s := if (s.find? (lit "PATH")).isSome then s else s.assign (lit "PATH") usualPath
  let (status, _) ← (concluding evaluate (evaluate script)).run
    (s.setVariable (lit "PWD") (exported here))
  exit status

end Shell

/-! ## The program -/

/-- What the arguments of `sh` ask for. -/
structure Request where
  state : State
  /-- The first operand is a script. -/
  isScript : Bool := false
  /-- The script stands on the standard input stream. -/
  isInput : Bool := false
  operands : List Bytes := []

/-- Read the options of `sh`. Every step takes an argument off. -/
def Request.read : Nat → Request → List Bytes → Except Bytes Request
  | 0, r, args => .ok { r with operands := args }
  | _, r, [] => .ok r
  | fuel + 1, r, a :: rest =>
    match a with
    | sign :: letters =>
      if (sign != 0x2D && sign != 0x2B) || a = lit "+" then .ok { r with operands := a :: rest }
      else if a = lit "-" || a = lit "--" then .ok { r with operands := rest }
      else do
        let own := lit "csil"
        let s ← Builtin.turn (sign = 0x2D) r.state (letters.filter fun b => !own.contains b && b != 0x6F)
        let r := { r with
          state := s
          isScript := r.isScript || letters.contains 0x63
          isInput := r.isInput || letters.contains 0x73 }
        if letters.contains 0x6F then
          match rest with
          | name :: rest => Request.read fuel { r with state := ← Builtin.turnNamed (sign = 0x2D) s name } rest
          | [] => return r
        else Request.read fuel r rest
    | [] => .ok { r with operands := a :: rest }

/-- The descriptors that scripts can name. -/
def namedDescriptors : Nat := 10

/-- Say whether a descriptor can be had behind those that scripts can name. -/
def hasSpare : (tries : Nat) → Routine Bool
  | 0 => return true
  | tries + 1 => do
    match ← openPath (lit "/dev/null") .read with
    | .error _ => return false
    | .ok d => do
      let r ← if namedDescriptors ≤ d then pure true else hasSpare tries
      close d
      return r

/-- Run the script that the option `-c` gives, the script in a file, or the script on the
standard input stream. -/
def sh (launcher : Launcher) : Utility := fun args => do
  let name := (← frame).name
  let refuse (message : Bytes) : Routine Unit := do
    warn (name ++ lit ": 0: " ++ message ++ lit "\n")
    exit 2
  match Request.read (args.length + 1) { state := { name := name } } args with
  | .error message => refuse message
  | .ok r =>
    match r.isScript, r.isInput, r.operands with
    | true, _, [] => refuse (lit "-c requires an argument")
    | true, _, script :: rest =>
      Shell.runScript launcher
        { r.state with name := rest.headD name, arguments := rest.drop 1, last := true } script
    | false, false, path :: rest =>
      match ← openPath path .read with
      | .error e =>
        refuse (lit "cannot open " ++ path ++ lit ": "
          ++ if Shell.isAbsence e then lit "No such file" else e.sentence)
      | .ok d => do
        if d < namedDescriptors && !(← hasSpare (namedDescriptors + 1)) then
          refuse (digits d ++ lit ": " ++ Errno.invalid.sentence)
        let data ← readAll (some d)
        close d
        Shell.runScript launcher { r.state with name := path, arguments := rest } (data.toOption.getD [])
    | false, _, operands => do
      let data ← readAll (← standard 0)
      Shell.runScript launcher { r.state with arguments := operands } (data.toOption.getD [])

end LineShell.Program.Sh
