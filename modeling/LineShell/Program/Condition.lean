import LineShell.Program.Arguments

/-!
# Conditions

`test` tells by its exit code whether a condition holds, and `[` does so when a closing
bracket ends its arguments. Up to four arguments are read by their number, and more of them
as conditions that are denied, joined and put in parentheses.
-/

namespace LineShell.Program

open Routine Arguments

namespace Condition

/-- What conditions are about: the file tree, and a place in it. -/
structure World where
  files : Files
  view : View

/-- A condition on a file. -/
def World.file (w : World) (letter : UInt8) (path : Bytes) : Bool :=
  let last : Last := if letter = 0x4C || letter = 0x68 then .keep else .follow
  match w.files.resolve w.view path last with
  | .ok (.descriptor _) => (lit "erwpOG").contains letter
  | .ok (.vacant ..) => false
  | .error _ => false
  | .ok (.node id) =>
    match w.files.node? id with
    | none => false
    | some node =>
      let isDirectory := node.isDirectory
      let isLink := match node with | .link _ => true | _ => false
      let isDevice := match node with | .device _ => true | _ => false
      let isProgram := match node with | .program _ => true | _ => false
      let isExecutable := match node with
        | .file _ x => x
        | .device _ => false
        | _ => true
      if (lit "erwOG").contains letter then true
      else if letter = 0x66 then w.files.isFile id || isProgram
      else if letter = 0x64 then isDirectory
      else if letter = 0x4C || letter = 0x68 then isLink
      else if letter = 0x73 then isDirectory || isProgram || 0 < w.files.size id
      else if letter = 0x78 then isExecutable
      else if letter = 0x63 then isDevice
      else false

/-- The letters of conditions on one operand. -/
def letters : Bytes := lit "bcdefghkLprsSuwxOGNnzt"

/-- The letter of an operator for one operand. -/
def letter? : Bytes → Option UInt8
  | [0x2D, letter] => some letter
  | _ => none

/-- The integer that an operand writes. -/
def integer (b : Bytes) : Except Bytes Int :=
  let text := Text.trimWhile ByteClass.isBlank b
  let digits := match text with
    | s :: rest => if s = 0x2D || s = 0x2B then rest else text
    | [] => []
  if digits.isEmpty || !digits.all ByteClass.isDigit then
    .error (lit "invalid integer " ++ Quoting.plain b)
  else
    let n := ByteClass.decimalValue digits
    .ok (if text.head? = some 0x2D then -(n : Int) else n)

/-- A condition on one operand. -/
def World.unary (w : World) (operator : Bytes) (letter : UInt8) (operand : Bytes) :
    Except Bytes Bool :=
  if !letters.contains letter then
    .error (Quoting.plain operator ++ lit ": unary operator expected")
  else if letter = 0x6E then .ok (!operand.isEmpty)
  else if letter = 0x7A then .ok operand.isEmpty
  else if letter = 0x74 then (integer operand).map fun _ => false
  else .ok (w.file letter operand)

/-- The operators between two operands. -/
def binaries : List Bytes :=
  [lit "=", lit "==", lit "!=", lit "-eq", lit "-ne", lit "-lt", lit "-le", lit "-gt", lit "-ge",
    lit "-ef", lit "-nt", lit "-ot"]

/-- A condition on two operands. -/
def World.binary (w : World) (a operator b : Bytes) : Except Bytes Bool := do
  let node? (path : Bytes) : Option NodeId := (w.files.resolveNode w.view path).toOption
  if operator = lit "=" || operator = lit "==" then return a = b
  if operator = lit "!=" then return a != b
  if operator = lit "-ef" then return (node? a).isSome && node? a = node? b
  if operator = lit "-nt" then return (node? a).isSome && (node? b).isNone
  if operator = lit "-ot" then return (node? a).isNone && (node? b).isSome
  let m ← integer a
  let n ← integer b
  return match operator.drop 1 with
    | [0x65, _] => m = n
    | [0x6E, _] => m != n
    | [0x6C, 0x74] => m < n
    | [0x6C, _] => m ≤ n
    | [_, 0x74] => n < m
    | _ => n ≤ m

/-- What is wrong when the arguments end too early. `last` is the last of them. -/
def tooShort {α : Type} (last : Bytes) : Except Bytes α :=
  .error (lit "missing argument after " ++ Quoting.plain last)

/-- The arguments up to a closing parenthesis, if it comes soon. -/
def groupSize (args : List Bytes) : Nat :=
  let n := ((args.drop 1).takeWhile (· != lit ")")).length + 1
  if 4 ≤ n then args.length else min n args.length

/-- A condition of one argument. -/
def one (last : Bytes) : List Bytes → Except Bytes (Bool × List Bytes)
  | a :: rest => .ok (!a.isEmpty, rest)
  | [] => tooShort last

/-- A condition of two arguments. -/
def World.two (w : World) (last : Bytes) : List Bytes → Except Bytes (Bool × List Bytes)
  | a :: b :: rest =>
    if a = lit "!" then .ok (b.isEmpty, rest)
    else match letter? a with
      | some l => (w.unary a l b).map (·, rest)
      | none => tooShort last
  | _ => tooShort last

mutual

/-- A condition of so many arguments. -/
def World.counted (w : World) (last : Bytes) (fuel : Nat) (n : Nat) (args : List Bytes) :
    Except Bytes (Bool × List Bytes) :=
  match fuel, n, args with
  | 0, _, _ => tooShort last
  | _ + 1, 1, args => one last args
  | _ + 1, 2, args => w.two last args
  | fuel + 1, 3, args => w.three last fuel args
  | fuel + 1, 4, a :: rest =>
    if a = lit "!" then (w.three last fuel rest).map fun r => (!r.1, r.2)
    else if a = lit "(" && rest[2]? = some (lit ")") then
      (w.two last rest).map fun r => (r.1, r.2.drop 1)
    else w.any last fuel (a :: rest)
  | fuel + 1, _, args => w.any last fuel args

/-- A condition of three arguments. -/
def World.three (w : World) (last : Bytes) (fuel : Nat) (args : List Bytes) :
    Except Bytes (Bool × List Bytes) :=
  match fuel, args with
  | 0, _ => tooShort last
  | fuel + 1, a :: op :: b :: rest =>
    if binaries.contains op then (w.binary a op b).map (·, rest)
    else if a = lit "!" then (w.two last (op :: b :: rest)).map fun r => (!r.1, r.2)
    else if a = lit "(" && b = lit ")" then .ok (!op.isEmpty, rest)
    else if op = lit "-a" || op = lit "-o" then w.any last fuel (a :: op :: b :: rest)
    else .error (Quoting.plain op ++ lit ": binary operator expected")
  | _, _ => tooShort last

/-- Conditions joined by `-o`. -/
def World.any (w : World) (last : Bytes) (fuel : Nat) (args : List Bytes) :
    Except Bytes (Bool × List Bytes) :=
  match fuel with
  | 0 => tooShort last
  | fuel + 1 => do
    let (a, rest) ← w.all last fuel args
    match rest with
    | op :: rest =>
      if op != lit "-o" then return (a, op :: rest)
      let (b, rest) ← w.any last fuel rest
      return (a || b, rest)
    | [] => return (a, [])

/-- Conditions joined by `-a`. -/
def World.all (w : World) (last : Bytes) (fuel : Nat) (args : List Bytes) :
    Except Bytes (Bool × List Bytes) :=
  match fuel with
  | 0 => tooShort last
  | fuel + 1 => do
    let (a, rest) ← w.term last fuel args
    match rest with
    | op :: rest =>
      if op != lit "-a" then return (a, op :: rest)
      let (b, rest) ← w.all last fuel rest
      return (a && b, rest)
    | [] => return (a, [])

/-- One condition, perhaps denied or in parentheses. -/
def World.term (w : World) (last : Bytes) (fuel : Nat) (args : List Bytes) :
    Except Bytes (Bool × List Bytes) :=
  match fuel, args with
  | 0, _ => tooShort last
  | _, [] => tooShort last
  | fuel + 1, a :: rest =>
    if a = lit "!" then (w.term last fuel rest).map fun r => (!r.1, r.2)
    else if a = lit "(" then do
      if rest.isEmpty then tooShort last
      let (v, rest) ← w.counted last fuel (groupSize rest) rest
      match rest with
      | [] => .error (lit "')' expected")
      | b :: rest =>
        if b = lit ")" then return (v, rest)
        else .error (lit "')' expected, found " ++ Quoting.plain b)
    else match a, rest with
      | a, l :: op :: b :: rest' =>
        if a = lit "-l" && binaries.contains op then
          (w.binary (digits l.length) op b).map (·, rest')
        else if binaries.contains l then (w.binary a l op).map (·, b :: rest')
        else w.single last a rest
      | a, op :: b :: rest' =>
        if binaries.contains op then (w.binary a op b).map (·, rest') else w.single last a rest
      | a, rest => w.single last a rest

/-- A condition on one operand, or of a word alone. -/
def World.single (w : World) (last : Bytes) (a : Bytes) (rest : List Bytes) :
    Except Bytes (Bool × List Bytes) :=
  match letter? a with
  | none => .ok (!a.isEmpty, rest)
  | some l =>
    if !letters.contains l then .error (Quoting.plain a ++ lit ": unary operator expected")
    else match rest with
      | [] => tooShort last
      | b :: rest => (w.unary a l b).map (·, rest)

end

/-- The truth of a condition, or what is wrong with it. -/
def World.truth (w : World) (args : List Bytes) : Except Bytes Bool := do
  if args.isEmpty then return false
  let (v, rest) ← w.counted (args.getLastD []) (args.length * 4 + 8) args.length args
  match rest with
  | [] => return v
  | extra :: _ => .error (lit "extra argument " ++ Quoting.plain extra)

end Condition

/-- Tell whether a condition holds. -/
def test : Utility := fun args => do
  let (files, view) ← look
  match (⟨files, view⟩ : Condition.World).truth args with
  | .ok v => exit (if v then 0 else 1)
  | .error e => giveUp 2 e

/-- Tell whether a condition in brackets holds. -/
def bracket : Utility := fun args => do
  if args.getLast? = some (lit "]") then test args.dropLast
  else giveUp 2 (lit "missing ']'")

end LineShell.Program
