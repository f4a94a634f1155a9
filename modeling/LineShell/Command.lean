import LineShell.Text

/-!
# Command trees

A `Command` runs a program, opens a file for the command inside it, or joins two
commands by a pipe. `Command.unwrap` takes the redirections off a command, the
innermost first, and `Command.wrap` puts them on again.
-/

namespace LineShell

/-- The way a redirected file is used. -/
inductive Direction where
  | input
  | output
deriving DecidableEq, Repr

/-- The descriptor a direction stands for when none is given. -/
def Direction.descriptor : Direction → Int
  | .input => 0
  | .output => 1

/-- A file opened in place of a descriptor. -/
structure Redirection where
  direction : Direction
  path : Bytes
  descriptor : Int := direction.descriptor
deriving DecidableEq, Repr

/-- What a line asks for. -/
inductive Command where
  /-- Run the program named first, with these arguments. -/
  | exec (argv : List Bytes)
  /-- Open a file for the command inside. -/
  | redirect (target : Command) (redirection : Redirection)
  /-- Join the output of one command to the input of another. -/
  | pipe (left right : Command)
deriving DecidableEq, Repr

namespace Command

/-- A command that names no program and opens nothing. -/
def isNoop : Command → Bool
  | .exec argv => argv.isEmpty
  | _ => false

/-- The number of pipes. -/
def pipeCount : Command → Nat
  | .exec _ => 0
  | .redirect target _ => target.pipeCount
  | .pipe left right => left.pipeCount + right.pipeCount + 1

/-- The argument lists of the programs, from left to right. -/
def leaves : Command → List (List Bytes)
  | .exec argv => [argv]
  | .redirect target _ => target.leaves
  | .pipe left right => left.leaves ++ right.leaves

/-- The command is a redirection. -/
def isRedirect : Command → Bool
  | .redirect _ _ => true
  | _ => false

/-- The command inside the redirections, and the redirections, the innermost first. -/
def unwrap : Command → Command × List Redirection
  | .redirect target r => (target.unwrap.1, target.unwrap.2 ++ [r])
  | c => (c, [])

/-- The command inside redirections, the first of them innermost. -/
def wrap (c : Command) (rs : List Redirection) : Command :=
  rs.foldl .redirect c

@[simp]
theorem wrap_nil (c : Command) : c.wrap [] = c := rfl

theorem wrap_concat (c : Command) (rs : List Redirection) (r : Redirection) :
    c.wrap (rs ++ [r]) = .redirect (c.wrap rs) r := by
  simp [wrap]

end Command

end LineShell
