import LineShell.Program.Arguments
import LineShell.Program.Pattern

/-!
# Expressions in arguments

`Expression.value` reads arguments as an expression, each argument one number, text or
operator, and gives its value. `expr` writes that value, and its exit code says whether
the value is neither empty nor zero.
-/

namespace LineShell.Program

open Routine Arguments

namespace Expression

/-- The operators between two operands, from the weakest to the strongest. -/
def levels : List (List Bytes) :=
  [["|"], ["&"], ["<", "<=", "=", "==", "!=", ">=", ">"], ["+", "-"], ["*", "/", "%"], [":"]].map
    fun level => level.map lit

/-- The whole number that a value writes. -/
def integer? (b : Bytes) : Option Int :=
  let (negative, ds) := match b with
    | 0x2D :: ds => (true, ds)
    | ds => (false, ds)
  if ds.isEmpty || !ds.all ByteClass.isDigit then none
  else
    let n := ByteClass.decimalValue ds
    some (if negative then -(n : Int) else n)

/-- The value is empty or zero. -/
def isNull (b : Bytes) : Bool := b.isEmpty || integer? b = some 0

/-- The value of a truth. -/
def truth (v : Bool) : Bytes := if v then lit "1" else lit "0"

/-- The value of a number. -/
def ofInt (n : Int) : Bytes := signedDigits n

/-- The length of the match of a pattern at the front of a text, or what its first group
matches. -/
def matchFront (text pattern : Bytes) : Except Bytes Bytes :=
  match Pattern.parse false pattern with
  | .error e => .error e.words
  | .ok p =>
    let line := text.toArray
    match p.longest? line 0 with
    | none => .ok (if p.hasGroup then [] else lit "0")
    | some n =>
      if p.hasGroup then
        .ok (match p.captured? line 0 n with
          | some (i, j) => (text.drop i).take (j - i)
          | none => [])
      else .ok (digits n)

/-- The two numbers that an operator works on. -/
def numbers (a b : Bytes) : Except Bytes (Int × Int) :=
  match integer? a, integer? b with
  | some m, some n => .ok (m, n)
  | _, _ => .error (lit "non-integer argument")

/-- The order of two values: as numbers if both are numbers. -/
def order (a b : Bytes) : Ordering :=
  match integer? a, integer? b with
  | some m, some n => compare m n
  | _, _ => compareBytes a b

/-- The value of an operator between two values. -/
def combine (op a b : Bytes) : Except Bytes Bytes :=
  if op = lit "<" then .ok (truth (order a b = .lt))
  else if op = lit "<=" then .ok (truth (order a b != .gt))
  else if op = lit "=" || op = lit "==" then .ok (truth (order a b = .eq))
  else if op = lit "!=" then .ok (truth (order a b != .eq))
  else if op = lit ">=" then .ok (truth (order a b != .lt))
  else if op = lit ">" then .ok (truth (order a b = .gt))
  else if op = lit ":" then matchFront a b
  else do
    let (m, n) ← numbers a b
    if op = lit "+" then return ofInt (m + n)
    if op = lit "-" then return ofInt (m - n)
    if op = lit "*" then return ofInt (m * n)
    if n = 0 then .error (lit "division by zero")
    if op = lit "/" then return ofInt (m.tdiv n)
    return ofInt (m.tmod n)

/-- The words for an argument that is missing behind another. -/
def missing (last : Bytes) : Bytes := lit "syntax error: missing argument after " ++ Quoting.plain last

/-- The position of the first byte of a text that is in a set, counted from one. -/
def index (text set : Bytes) : Nat :=
  let i := text.findIdx set.contains
  if i < text.length then i + 1 else 0

/-- A piece of a text, by the position of its first byte and its length. -/
def piece (text position length : Bytes) : Bytes :=
  match integer? position, integer? length with
  | some p, some n => if 0 < p && 0 < n then (text.drop (p.toNat - 1)).take n.toNat else []
  | _, _ => []

mutual

/-- Read an expression of operators of the given levels, with so many steps allowed. What
does not matter is read but not worked out. -/
def readLevel (last : Bytes) (matters : Bool) : Nat → List (List Bytes) → List Bytes →
    Except Bytes (Bytes × List Bytes)
  | 0, _, _ => .error (missing last)
  | fuel + 1, [], args => readTerm last matters fuel args
  | fuel + 1, level :: stronger, args => do
    let (a, rest) ← readLevel last matters fuel stronger args
    readMore matters fuel level stronger a rest

/-- Read what follows a value on its level. -/
def readMore (matters : Bool) : Nat → List Bytes → List (List Bytes) → Bytes → List Bytes →
    Except Bytes (Bytes × List Bytes)
  | 0, _, _, a, rest => .ok (a, rest)
  | _, _, _, a, [] => .ok (a, [])
  | fuel + 1, level, stronger, a, op :: rest =>
    if !level.contains op then .ok (a, op :: rest)
    else if op = lit "|" then do
      let (b, rest) ← readLevel op (matters && isNull a) fuel stronger rest
      readMore matters fuel level stronger
        (if !isNull a then a else if !isNull b then b else lit "0") rest
    else if op = lit "&" then do
      let (b, rest) ← readLevel op (matters && !isNull a) fuel stronger rest
      readMore matters fuel level stronger
        (if isNull a || isNull b then lit "0" else a) rest
    else do
      let (b, rest) ← readLevel op matters fuel stronger rest
      let v ← if matters then combine op a b else pure a
      readMore matters fuel level stronger v rest

/-- Read one value, which may be in parentheses or made by a named operation. -/
def readTerm (last : Bytes) (matters : Bool) : Nat → List Bytes → Except Bytes (Bytes × List Bytes)
  | 0, _ => .error (missing last)
  | _, [] => .error (missing last)
  | fuel + 1, a :: rest => do
    if a = lit "(" then
      let (v, more) ← readLevel a matters fuel levels rest
      match more with
      | [] => .error (lit "syntax error: expecting ')' after " ++ Quoting.plain (rest.getLastD a))
      | b :: rest =>
        if b = lit ")" then return (v, rest)
        else .error (lit "syntax error: expecting ')' instead of " ++ Quoting.plain b)
    else if a = lit ")" then .error (lit "syntax error: unexpected ')'")
    else if a = lit "+" then
      match rest with
      | [] => .error (missing a)
      | b :: rest => return (b, rest)
    else if a = lit "length" then
      let (v, rest) ← readTerm a matters fuel rest
      return (digits v.length, rest)
    else if a = lit "match" then
      let (v, rest) ← readTerm a matters fuel rest
      let (w, rest) ← readTerm v matters fuel rest
      return (← if matters then matchFront v w else pure v, rest)
    else if a = lit "index" then
      let (v, rest) ← readTerm a matters fuel rest
      let (w, rest) ← readTerm v matters fuel rest
      return (digits (index v w), rest)
    else if a = lit "substr" then
      let (v, rest) ← readTerm a matters fuel rest
      let (p, rest) ← readTerm v matters fuel rest
      let (n, rest) ← readTerm p matters fuel rest
      return (piece v p n, rest)
    else return (a, rest)

end

/-- The value of an expression, or what is wrong with it. -/
def value (args : List Bytes) : Except Bytes Bytes := do
  let (v, rest) ← readLevel [] true ((args.length + 1) * 16) levels args
  match rest with
  | [] => return v
  | extra :: _ => .error (lit "syntax error: unexpected argument " ++ Quoting.plain extra)

end Expression

/-- Write the value of an expression. -/
def expr : Utility := fun args => do
  let args := if args.head? = some (lit "--") then args.drop 1 else args
  if args.isEmpty then refuse 2 (lit "missing operand")
  match Expression.value args with
  | .error e => giveUp 2 e
  | .ok v =>
    putOr 3 writeError (v ++ [lineFeed])
    exit (if Expression.isNull v then 1 else 0)

end LineShell.Program
