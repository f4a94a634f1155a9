import LineShell.Command
import LineShell.Errno

/-!
# Executing a command

An executor gives a command's status, or says why the command could not be run.
-/

namespace LineShell

/-- Why a command could not be run. -/
inductive ExecError where
  /-- No process could be made. -/
  | fork (e : Errno)
  /-- No pipe could be made. -/
  | pipe (e : Errno)
  /-- A file could not be put in place of a descriptor. -/
  | install (descriptor : Int) (e : Errno)
  /-- A file could not be opened. -/
  | redirect (path : Bytes) (e : IoError)
  /-- A process could not be waited for. -/
  | wait (pid : Int) (e : Errno)
deriving DecidableEq, Repr

/-- The words for a command that could not be run, in pieces. -/
def ExecError.pieces : ExecError → List Bytes
  | .fork e => Utf8.ofString "fork failed: " :: e.namedPieces
  | .pipe e => Utf8.ofString "pipe failed: " :: e.namedPieces
  | .install d e =>
    [Utf8.ofString "cannot install descriptor "] ++ (Decimal.pieces d).map Utf8.encode
      ++ [Utf8.ofString ": "] ++ e.namedPieces
  | .redirect path e => path :: Utf8.ofString ": " :: e.pieces
  | .wait pid e =>
    [Utf8.ofString "wait for pid "] ++ (Decimal.pieces pid).map Utf8.encode
      ++ [Utf8.ofString " failed: "] ++ e.namedPieces

/-- The words for a command that could not be run. -/
def ExecError.message (e : ExecError) : Bytes := e.pieces.flatten

/-- What an executor answers. -/
abbrev ExecResult := Except ExecError Nat

/-- What a shell needs of the world around it: to change its directory, to execute a
command, and to report what went wrong. -/
structure Host (ω : Type) where
  changeDirectory : Text → ω → Except IoError Unit × ω
  execute : Command → ω → ExecResult × ω
  report : Bytes → ω → ω

/-- A world that runs nothing: it records the commands and the reports it is given, and
answers the commands from a list, with status 0 when the list has run out. -/
structure Recorder where
  answers : List ExecResult := []
  commands : List Command := []
  reports : List Bytes := []

/-- Record a command and give the next answer. -/
def Recorder.execute (c : Command) (r : Recorder) : ExecResult × Recorder :=
  match r.answers with
  | [] => (.ok 0, { r with commands := r.commands ++ [c] })
  | a :: rest => (a, { r with answers := rest, commands := r.commands ++ [c] })

/-- Record a report. -/
def Recorder.report (message : Bytes) (r : Recorder) : Recorder :=
  { r with reports := r.reports ++ [message] }

/-- A host like `h` that records what it is given to execute and to report. -/
def Host.recording {ω : Type} (h : Host ω) : Host (Recorder × ω) where
  changeDirectory path w :=
    ((h.changeDirectory path w.2).1, (w.1, (h.changeDirectory path w.2).2))
  execute c w := ((w.1.execute c).1, ((w.1.execute c).2, w.2))
  report message w := (w.1.report message, w.2)

/-- What the shell writes of something that went wrong. -/
def complaint (message : Bytes) : Bytes :=
  Utf8.ofString "minish: " ++ message ++ Utf8.ofString "\n"

/-- The pieces that are written one by one. A piece without bytes is not written. -/
def written (pieces : List Bytes) : List Bytes := pieces.filter fun b => !b.isEmpty

theorem flatten_written (pieces : List Bytes) : (written pieces).flatten = pieces.flatten :=
  List.flatten_filter_not_isEmpty

/-- What is written one by one of something that went wrong. -/
def complaintPieces (words : List Bytes) : List Bytes :=
  written (Utf8.ofString "minish: " :: words ++ [Utf8.ofString "\n"])

theorem flatten_complaintPieces (words : List Bytes) :
    (complaintPieces words).flatten = complaint words.flatten := by
  simp [complaintPieces, flatten_written, complaint]

end LineShell
