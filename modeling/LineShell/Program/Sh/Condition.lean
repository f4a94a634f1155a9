import LineShell.Program.Condition

/-!
# Conditions of a shell

The command `test` of a shell reads conditions by rules of its own: one of three arguments
with an operator in the middle compares, and in all others operators bind by their strength.
`Condition.truth` is the truth of a condition.
-/

namespace LineShell.Program.Sh.Condition

open LineShell.Program.Condition (World)

/-- What an operator does. -/
inductive Role where
  | unary
  | binary
  | not
  | and
  | or
  | opening
  | closing
deriving DecidableEq, Repr

/-- The operators. -/
def roles : List (String × Role) :=
  (["-r", "-w", "-x", "-e", "-f", "-d", "-c", "-b", "-p", "-u", "-g", "-k", "-s", "-t", "-z", "-n",
    "-h", "-O", "-G", "-L", "-S"].map (·, .unary))
    ++ (["=", "!=", "<", ">", "-eq", "-ne", "-gt", "-ge", "-lt", "-le", "-nt", "-ot", "-ef"].map
      (·, .binary))
    ++ [("!", .not), ("-a", .and), ("-o", .or), ("(", .opening), (")", .closing)]

/-- What an argument does as an operator. -/
def role? (b : Bytes) : Option Role :=
  (roles.find? fun r => lit r.1 = b).map Prod.snd

/-- What the first of some arguments is. -/
inductive Token where
  | nothing
  | operand
  | operator (r : Role)
deriving DecidableEq, Repr

/-- An operator for one operand is itself an operand if none follows, or if what follows is
compared with something. -/
def isOperand : List Bytes → Bool
  | [] => true
  | [_] => false
  | b :: _ => role? b = some .binary

/-- What the first of some arguments is. -/
def token : List Bytes → Token
  | [] => .nothing
  | b :: rest =>
    match role? b with
    | none => .operand
    | some .unary => if isOperand rest then .operand else .operator .unary
    | some .opening => if rest.isEmpty then .operand else .operator .opening
    | some r => .operator r

/-- The words for something wrong with an operator. -/
def wrong {α : Type} (operator : Bytes) (words : String) : Except Bytes α :=
  .error (if operator.isEmpty then lit words else operator ++ lit ": " ++ lit words)

/-- The number that an operand writes. -/
def number (b : Bytes) : Except Bytes Int :=
  let text := Text.trimWhile ByteClass.isSpace b
  let ds := match text with
    | c :: rest => if c = 0x2D || c = 0x2B then rest else text
    | [] => []
  let n : Int := ByteClass.decimalValue ds
  if ds.isEmpty || !ds.all ByteClass.isDigit || Nat.pow 2 63 ≤ n then .error (lit "Illegal number: " ++ b)
  else .ok (if text.head? = some 0x2D then -n else n)

/-- A comparison. -/
def compare (w : World) (a operator b : Bytes) : Except Bytes Bool :=
  if operator = lit "<" then .ok (compareBytes a b = .lt)
  else if operator = lit ">" then .ok (compareBytes a b = .gt)
  else if (["=", "!=", "-nt", "-ot", "-ef"].map lit).contains operator then w.binary a operator b
  else do
    let m ← number a
    let n ← number b
    w.binary (signedDigits m) operator (signedDigits n)

mutual

/-- Conditions joined by `-o`. Each function gives the truth and the arguments from the last
that it has read on. -/
def any (w : World) : Nat → Token → List Bytes → Except Bytes (Bool × List Bytes)
  | 0, _, args => .ok (false, args)
  | fuel + 1, t, args => do
    let (a, args) ← all w fuel t args
    if token (args.drop 1) != .operator .or then return (a, args)
    let (b, args) ← any w fuel (token (args.drop 2)) (args.drop 2)
    return (a || b, args)

/-- Conditions joined by `-a`. -/
def all (w : World) : Nat → Token → List Bytes → Except Bytes (Bool × List Bytes)
  | 0, _, args => .ok (false, args)
  | fuel + 1, t, args => do
    let (a, args) ← denied w fuel t args
    if token (args.drop 1) != .operator .and then return (a, args)
    let (b, args) ← all w fuel (token (args.drop 2)) (args.drop 2)
    return (a && b, args)

/-- A condition that may be denied. -/
def denied (w : World) : Nat → Token → List Bytes → Except Bytes (Bool × List Bytes)
  | 0, _, args => .ok (false, args)
  | fuel + 1, t, args =>
    if t != .operator .not then single w fuel t args
    else
      let t := token (args.drop 1)
      (denied w fuel t (if t = .nothing then args else args.drop 1)).map fun r => (!r.1, r.2)

/-- One condition. -/
def single (w : World) : Nat → Token → List Bytes → Except Bytes (Bool × List Bytes)
  | 0, _, args => .ok (false, args)
  | fuel + 1, t, args =>
    match t, args with
    | .nothing, _ => .ok (false, args)
    | _, [] => .ok (false, args)
    | .operator .opening, _ :: args => do
      if token args = .operator .closing then return (false, args)
      let (v, args) ← any w fuel (token args) args
      if token (args.drop 1) != .operator .closing then wrong [] "closing paren expected"
      return (v, args.drop 1)
    | .operator .unary, op :: args =>
      match args with
      | [] => wrong op "argument expected"
      | a :: _ =>
        let letter := (op.drop 1).headD 0
        if letter = 0x7A then .ok (a.isEmpty, args)
        else if letter = 0x6E then .ok (!a.isEmpty, args)
        else if letter = 0x74 then (number a).map fun _ => (false, args)
        else .ok (w.file letter a, args)
    | _, a :: rest =>
      match rest with
      | op :: more =>
        if role? op = some .binary then
          match more with
          | [] => wrong op "argument expected"
          | b :: _ => (compare w a op b).map (·, more)
        else .ok (!a.isEmpty, args)
      | [] => .ok (!a.isEmpty, args)

end

/-- The truth of a condition, or what is wrong with it. `denials` bounds how often it is
denied at its front. -/
def truth (w : World) : (denials : Nat) → List Bytes → Except Bytes Bool
  | _, [] => .ok false
  | denials, args => do
    let whole (t : Token) (args : List Bytes) : Except Bytes Bool := do
      let (v, rest) ← any w (8 * args.length + 8) t args
      match rest with
      | a :: _ :: _ => wrong a "unexpected operator"
      | _ => return v
    if args.length = 3 && (args[1]?.bind role?) = some .binary then whole .operand args
    else if args.length = 3 || args.length = 4 then
      if args.head? = some (lit "(") && args.getLast? = some (lit ")") then
        let args := (args.drop 1).dropLast
        whole (token args) args
      else if args.head? = some (lit "!") then
        match denials with
        | 0 => return false
        | denials + 1 => return !(← truth w denials (args.drop 1))
      else whole (token args) args
    else whole (token args) args

end LineShell.Program.Sh.Condition
