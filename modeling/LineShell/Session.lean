import LineShell.Builtin
import LineShell.Config
import LineShell.Executor
import LineShell.Input
import LineShell.Output

/-!
# A session

A `Session` is a shell at work: its history, what it has written, and the world in which
it runs commands. `Session.handle` does what one line asks for,
and `Session.run` reads lines from an input and handles them until the line `exit` or
the end of the input. A line that fails is reported, and the session goes on.
-/

namespace LineShell

/-- What comes after a line. -/
inductive Flow where
  | proceed
  | exit
deriving DecidableEq, Repr

/-- Why a line failed. -/
inductive LineError where
  | malformed (e : SyntaxError)
  | exec (e : ExecError)
  | changeDirectory (path : Text) (e : IoError)
  | io (e : IoError)
deriving DecidableEq, Repr

/-- The words for a line that failed. -/
def LineError.message : LineError → Bytes
  | .malformed e => e.message
  | .exec e => e.message
  | .changeDirectory path e =>
    Utf8.ofString "cd: " ++ Utf8.encode path ++ Utf8.ofString ": " ++ e.message
  | .io e => Utf8.ofString "IO error: " ++ e.message

/-- A shell at work in the world `ω`. -/
structure Session (ω : Type) where
  config : Config
  history : History
  world : ω
  out : Sink := {}

/-- What a session that has ended leaves behind. -/
structure Session.Ending (ω : Type) where
  /-- The session ended as asked, or a prompt could not be written. -/
  result : Except IoError Unit
  session : Session ω
  /-- The input that was not read. -/
  rest : Bytes

namespace Session

variable {ω : Type}

/-- A new session, if its history can be set aside. -/
def start? (config : Config) (world : ω) : Option (Session ω) :=
  (History.reserve? config.historySize).map fun h =>
    { config := config, history := h, world := world }

/-- Change the directory of the world. -/
def changeDirectory (host : Host ω) (path : Text) (s : Session ω) :
    Except LineError Flow × Session ω :=
  match host.changeDirectory path s.world with
  | (.ok (), w) => (.ok .proceed, { s with world := w })
  | (.error e, w) => (.error (.changeDirectory path e), { s with world := w })

/-- Write the listing of the history. -/
def list (s : Session ω) : Except LineError Flow × Session ω :=
  match s.out.writeAll s.history.pieces with
  | (.ok (), out) => (.ok .proceed, { s with out := out })
  | (.error e, out) => (.error (.io e), { s with out := out })

/-- Execute the command of a line. -/
def execute (host : Host ω) (line : Text) (s : Session ω) :
    Except LineError Flow × Session ω :=
  match parse s.config.maxArguments (Utf8.encode line) with
  | .error e => (.error (.malformed e), s)
  | .ok c =>
    match host.execute c s.world with
    | (.ok _, w) => (.ok .proceed, { s with world := w })
    | (.error e, w) => (.error (.exec e), { s with world := w })

/-- Do what a line asks for. Every line but a change of directory is entered in the
history first. -/
def handle (host : Host ω) (line : Text) (s : Session ω) :
    Except LineError Flow × Session ω :=
  match directoryOfLine? line with
  | some path => s.changeDirectory host path
  | none =>
    let s := { s with history := s.history.append line }
    match Builtin.ofLine? line with
    | some .history => s.list
    | some .exit => (.ok .exit, s)
    | none => s.execute host line

/-- Do what a line asks for, and report it if it failed. -/
def submit (host : Host ω) (line : Text) (s : Session ω) : Flow × Session ω :=
  match s.handle host line with
  | (.ok flow, s) => (flow, s)
  | (.error e, s) => (.proceed, { s with world := host.report (complaint e.message) s.world })

/-- Show the prompt, in an interactive session. -/
def showPrompt (interactive : Bool) (s : Session ω) : Except IoError Unit × Session ω :=
  if interactive then
    ((s.out.write (Utf8.encode s.config.prompt)).1,
      { s with out := (s.out.write (Utf8.encode s.config.prompt)).2 })
  else (.ok (), s)

/-- Read lines from the input and handle them, up to the line `exit`, the end of the
input, or a prompt that cannot be written. -/
def run (host : Host ω) (interactive : Bool) (input : Bytes) (s : Session ω) : Ending ω :=
  match s.showPrompt interactive with
  | (.error e, s) => ⟨.error e, s, input⟩
  | (.ok (), s) =>
    match _h : readLine s.config.lineMax input with
    | none => ⟨.ok (), s, input⟩
    | some (line, rest) =>
      match s.submit host line with
      | (.exit, s) => ⟨.ok (), s, rest⟩
      | (.proceed, s) => run host interactive rest s
termination_by input.length
decreasing_by exact length_lt_of_readLine (by assumption)

end Session

end LineShell
