import LineShell.Errno
import LineShell.Text.Blank

/-!
# The process table

A status line says of a process its number, its name in parentheses, and its state.
The name may hold parentheses itself, so it goes up to the last one (`Stat.parse?`).
`ProcessTable.render` sets processes out in columns of fixed width.
-/

namespace LineShell

/-- What a status line says of a process. -/
structure Stat where
  pid : Int
  name : Text
  state : Char
deriving DecidableEq, Repr

/-- The most characters of a process name. -/
def Stat.nameWidth : Nat := 24

/-- Read a status line. -/
def Stat.parse? (line : Text) : Option Stat := do
  let (before, rest) ← Text.cutAt '(' line
  let (name, after) ← Text.cutAtLast ')' rest
  let pid ← Decimal.integer? (Text.trim before)
  let state ← (Text.trimStart after).head?
  return ⟨pid, name.take nameWidth, state⟩

/-- A process as it is listed. -/
structure ProcessEntry where
  pid : Int
  uid : Nat
  user : Text
  name : Text
  state : Char
deriving DecidableEq, Repr

namespace ProcessTable

/-- The most characters of a user name. -/
def userWidth : Nat := 14

/-- The width of the column of numbers. -/
def pidWidth : Nat := 7

/-- The name of a user, if the list of users has one, and the user's number otherwise. -/
def userName (users : Nat → Option Text) (uid : Nat) : Text :=
  match users uid with
  | some name => name.take userWidth
  | none => Decimal.ofNat uid

/-- `t` with blanks in front, up to `width` characters. -/
def alignRight (width : Nat) (t : Text) : Text :=
  List.replicate (width - t.length) ' ' ++ t

/-- The line over the columns. -/
def header : Text :=
  "PID    | User          | PROCNAME                | State  |".toList

/-- The line between the header, the processes and the end. -/
def separator : Text :=
  "-------|---------------|-------------------------|--------|".toList

/-- The line of a process. -/
def row (e : ProcessEntry) : Text :=
  alignRight pidWidth (Decimal.ofInt e.pid) ++ ['|', ' ']
    ++ alignRight userWidth (e.user.take userWidth) ++ ['|', ' ']
    ++ alignRight Stat.nameWidth (e.name.take Stat.nameWidth) ++ ['|', ' ']
    ++ [e.state] ++ "      |".toList

/-- The lines of the table. -/
def lines (entries : List ProcessEntry) : List Text :=
  header :: separator :: entries.map row ++ [separator]

/-- The table. -/
def render (entries : List ProcessEntry) : Text :=
  (lines entries).flatMap (· ++ ['\n'])

theorem length_alignRight (width : Nat) (t : Text) :
    (alignRight width t).length = max width t.length := by
  simp only [alignRight, List.length_append, List.length_replicate]
  omega

end ProcessTable

/-- Why a signal was not sent. -/
inductive SignalError where
  /-- There is no such signal. -/
  | invalidSignal (signal : Int)
  /-- The system refused to send it. -/
  | kill (pid signal : Int) (e : Errno)
deriving DecidableEq, Repr

/-- The words for a signal that was not sent. -/
def SignalError.message : SignalError → Bytes
  | .invalidSignal n => Utf8.ofString "invalid signal " ++ Utf8.encode (Decimal.ofInt n)
  | .kill pid n e =>
    Utf8.ofString "kill(" ++ Utf8.encode (Decimal.ofInt pid) ++ Utf8.ofString ", "
      ++ Utf8.encode (Decimal.ofInt n) ++ Utf8.ofString ") failed: " ++ e.named

/-- The numbers of the standard signals. -/
def isSignal (n : Int) : Bool := 1 ≤ n && n ≤ 31

/-- Send a signal, where `kill` is the system's answer. Signal 0 only asks whether the
process is there. -/
def sendSignal (kill : Int → Int → Except Errno Unit) (pid signal : Int) :
    Except SignalError Unit :=
  if signal = 0 || isSignal signal then
    match kill pid signal with
    | .ok () => .ok ()
    | .error e => .error (.kill pid signal e)
  else .error (.invalidSignal signal)

end LineShell
