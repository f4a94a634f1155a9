import LineShell.Program.Arguments

/-!
# Who runs a program

`whoami` and `id` tell the user that programs run as, and `tty` the terminal, of which there is
none.
-/

namespace LineShell.Program

open Routine Arguments

namespace Identity

/-- The name of the user and of the group. -/
def name : Bytes := lit "root"

/-- The number of the user and of the group. -/
def number : Nat := 0

/-- The number and the name, as they are shown together. -/
def shown : Bytes := digits number ++ lit "(" ++ name ++ lit ")"

end Identity

/-- Tell the name of the user. -/
def whoami : Utility := fun args => do
  let p ← arguments [] 1 args
  match p.operands with
  | [] => put (Identity.name ++ lit "\n")
  | extra :: _ => refuse 1 (lit "extra operand " ++ Quoting.plain extra)

/-- Tell the names and numbers of the user and of the groups. -/
def identify : Utility := fun args => do
  let p ← arguments [flag 'u' "user", flag 'g' "group", flag 'G' "groups", flag 'n' "name",
    flag 'r' "real", flag 'z' "zero", flag 'a'] 1 args
  let kinds := ['u', 'g', 'G'].filter p.has
  if 1 < kinds.length then giveUp 1 (lit "cannot print \"only\" of more than one choice")
  if kinds.isEmpty && (p.has 'n' || p.has 'r') then
    giveUp 1 (lit "cannot print only names or real IDs in default format")
  match p.operands.find? (· != Identity.name) with
  | some user => giveUp 1 (Quoting.plain user ++ lit ": no such user")
  | none =>
    let text := if kinds.isEmpty then
        (lit " ").intercalate (["uid=", "gid=", "groups="].map fun k => lit k ++ Identity.shown)
      else if p.has 'n' then Identity.name
      else digits Identity.number
    put (text ++ (if p.has 'z' then [0] else [lineFeed]))

/-- Tell the terminal of the standard input stream. -/
def tty : Utility := fun args => do
  let p ← arguments [flag 's' "silent", flag 's' "quiet"] 2 args
  match p.operands with
  | extra :: _ => refuse 2 (lit "extra operand " ++ Quoting.plain extra)
  | [] =>
    if !p.has 's' then putOr 3 writeError (lit "not a tty\n")
    exit 1

end LineShell.Program
