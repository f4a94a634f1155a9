import LineShell.Config.Load
import LineShell.ProcessTable.Scan
import LineShell.Session
import LineShell.System.Run

/-!
# The two programs

`CommandLine.minish` is the shell as a program: it reads its settings, then reads lines
from descriptor 0, and writes on descriptors 1 and 2. `CommandLine.proctop` lists the
processes, or sends a signal to one.
-/

namespace LineShell.CommandLine

variable {σ : Type}

/-- The exit code of a program that was not used as it should be. -/
def misuse : Nat := 2

/-- A line of text. -/
def lineOf (text : Bytes) : Bytes := text ++ Utf8.ofString "\n"

/-! ## The shell -/

/-- The most bytes that the shell reads from descriptor 0 at a time. -/
def chunk : Nat := 8192

/-- The rounds after which a program stops to repeat itself. -/
def patience : Nat := Nat.pow 2 40

/-- The variable that names the settings file. -/
def settingsVariable : Bytes := Utf8.ofString "MINISH_CONFIG"

/-- The settings of the shell, with the words for a settings file that cannot be used. It
then has the settings by default. -/
def settings (files : Files) (view : View) : Option Bytes → Config × Bytes
  | none => ({}, [])
  | some path =>
    match Config.load files view path with
    | .ok c => (c, [])
    | .error e => ({}, complaint (path ++ Utf8.ofString ": " ++ e.message))

/-- Read from descriptor 0 until a line feed or the end has been read, in addition to what
is in `buffer`. The answer says whether it was a line feed. -/
def fill : (rounds : Nat) → (buffer : Bytes) → System σ → Except Errno Bytes × System σ
  | 0, buffer, s => (.ok buffer, s)
  | rounds + 1, buffer, s =>
    if buffer.contains lineFeed then (.ok buffer, s)
    else match s.readFromShell 0 chunk with
      | (.error e, s) => (.error e, s)
      | (.ok data, s) =>
        if data.isEmpty then (.ok buffer, s) else fill rounds (buffer ++ data) s

/-- Write on descriptor 1 what a session has written. -/
def speak (s : Session (System σ)) : Session (System σ) :=
  { s with world := s.world.writeFromShell 1 s.out.written, out := {} }

/-- Read lines and handle them, up to the line `exit` or the end. The answer is the exit
code. -/
def converse (m : Machine σ) : (rounds : Nat) → (buffer : Bytes) → Session (System σ) →
    Nat × Session (System σ)
  | 0, _, s => (0, s)
  | rounds + 1, buffer, s =>
    match fill patience buffer s.world with
    | (.error e, w) =>
      let message := complaint (Utf8.ofString "error reading input: " ++ e.numbered)
      (1, { s with world := w.writeFromShell 2 message })
    | (.ok buffer, w) =>
      match readLine s.config.lineMax buffer with
      | none => (0, { s with world := w })
      | some (line, buffer) =>
        match { s with world := w }.submit (System.host m) line with
        | (.exit, s) => (0, speak s)
        | (.proceed, s) => converse m rounds buffer (speak s)

/-- The shell as a program. `path` names its settings file. The answer is the exit code,
none if the history cannot be set aside. -/
def minish (m : Machine σ) (path : Option Bytes) (s : System σ) : Option (Nat × System σ) :=
  let (config, warning) := settings s.files s.shellView path
  (Session.start? config (s.writeFromShell 2 warning)).map fun session =>
    let (code, session) := converse m patience [] session
    (code, session.world)

/-! ## The process lister -/

/-- The directory of the processes. -/
def processDirectory : Bytes := Utf8.ofString "/proc"

/-- What the process lister writes in front of its messages. -/
def proctopComplaint (message : Bytes) : Bytes := lineOf (Utf8.ofString "proctop: " ++ message)

/-- The numbers that stand for a process at all times: the own group, the first process,
and every process. -/
def isAlwaysThere (pid : Int) : Bool := pid = 0 || pid = 1 || pid = -1

/-- The system's answer to a signal. -/
def kill (pid _signal : Int) : Except Errno Unit :=
  if isAlwaysThere pid then .ok () else .error .noProcess

/-- The process lister as a program. The answer is the exit code. -/
def proctop (users : Nat → Option Text) (arguments : List Text) (s : System σ) :
    Nat × System σ :=
  match arguments with
  | [] =>
    match ProcessTable.scan users s.files s.shellView processDirectory with
    | .ok entries => (0, s.writeFromShell 1 (Utf8.encode (ProcessTable.render entries)))
    | .error e => (1, s.writeFromShell 2 (proctopComplaint e.message))
  | [pid, signal] =>
    match Decimal.integer? pid, Decimal.integer? signal with
    | some pid, some signal =>
      match sendSignal kill pid signal with
      | .ok () => (0, s)
      | .error e => (1, s.writeFromShell 2 (proctopComplaint e.message))
    | _, _ =>
      (misuse,
        s.writeFromShell 2 (proctopComplaint (Utf8.ofString "PID and SIG must be integers")))
  | _ => (misuse, s.writeFromShell 2 (lineOf (Utf8.ofString "usage: proctop [<pid> <sig>]")))

end LineShell.CommandLine
