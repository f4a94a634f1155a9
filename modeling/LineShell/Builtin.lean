import LineShell.Text.Blank

/-!
# Commands of the shell itself

Three lines are not given to a program. `history` and `exit` must make up the whole
line, up to its line feed. A line that begins with `cd` and a space changes the
directory to the rest of the line, without the blanks around it.
-/

namespace LineShell

/-- A command of the shell itself. -/
inductive Builtin where
  | history
  | exit
deriving DecidableEq, Repr

namespace Builtin

/-- The line that asks for a command of the shell. -/
def line : Builtin → Text
  | .history => "history\n".toList
  | .exit => "exit\n".toList

/-- The command of the shell that a line asks for. -/
def ofLine? (line : Text) : Option Builtin :=
  [Builtin.history, Builtin.exit].find? fun b => b.line = line

@[simp]
theorem ofLine?_line (b : Builtin) : ofLine? b.line = some b := by
  cases b <;> rfl

end Builtin

/-- The directory to which a line changes. -/
def directoryOfLine? : Text → Option Text
  | 'c' :: 'd' :: ' ' :: rest => some (Text.trim (Text.dropEndWhile (· = '\n') rest))
  | _ => none

end LineShell
