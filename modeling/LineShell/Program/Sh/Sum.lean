import LineShell.Program.Arguments

/-!
# Sums

A sum is made of whole numbers of 64 bits, variables, and operators as in a program text.
`Sum.ofText` reads a sum, and `Sum.value` works it out. A sum can change variables.
-/

namespace LineShell.Program.Sh

/-- A sum. -/
inductive Sum where
  | number (n : Int)
  | variable (name : Bytes)
  | unary (op : UInt8) (a : Sum)
  | binary (op : Bytes) (a b : Sum)
  | conditional (c a b : Sum)
  /-- A variable becomes the value, joined to its own by the operator if there is one. -/
  | assign (name : Bytes) (op : Bytes) (a : Sum)
deriving Inhabited

namespace Sum

/-! ## Reading -/

/-- Why a sum has no value. -/
inductive Fault where
  /-- Something else should stand here. -/
  | expecting (what : String)
  | division
  /-- The value of a variable is no number. -/
  | number (text : Bytes)

/-- A part of the text of a sum. -/
inductive Token where
  | number (n : Int)
  | name (b : Bytes)
  | operator (b : Bytes)
deriving DecidableEq, Repr

/-- The operators, longer ones before those they begin with. -/
def operators : List Bytes :=
  ["<<=", ">>=", "<=", ">=", "==", "!=", "&&", "||", "<<", ">>", "+=", "-=", "*=", "/=", "%=", "&=",
    "|=", "^=", "<", ">", "=", "+", "-", "*", "/", "%", "!", "~", "&", "|", "^", "?", ":", "(",
    ")"].map lit

/-- A number kept to 64 bits with a sign. -/
def wrap (n : Int) : Int := n.bmod (Nat.pow 2 64)

/-- The number at the front of a text, and what follows. -/
def literal (text : Bytes) : Int × Bytes :=
  let (n, used) := match text with
    | 0x30 :: x :: rest =>
      let hs := rest.takeWhile ByteClass.isHex
      if (x = 0x78 || x = 0x58) && !hs.isEmpty then (ByteClass.hexValue hs, hs.length + 2)
      else
        let os := text.takeWhile ByteClass.isOctal
        (ByteClass.octalValue os, os.length)
    | text =>
      let ds := text.takeWhile ByteClass.isDigit
      (ByteClass.decimalValue ds, ds.length)
  (min n (Nat.pow 2 63 - 1), text.drop used)

/-- Cut a text into tokens. Every step takes a byte off. -/
def tokens : Nat → Bytes → Except Fault (List Token)
  | 0, _ => .ok []
  | _, [] => .ok []
  | fuel + 1, b :: rest =>
    if ByteClass.isSpace b then tokens fuel rest
    else if ByteClass.isDigit b then
      let (n, after) := literal (b :: rest)
      (tokens fuel after).map (.number n :: ·)
    else if ByteClass.isWord b then
      let name := (b :: rest).takeWhile ByteClass.isWord
      (tokens fuel ((b :: rest).drop name.length)).map (.name name :: ·)
    else match operators.find? (·.isPrefixOf (b :: rest)) with
      | some op => (tokens fuel (rest.drop (op.length - 1))).map (.operator op :: ·)
      | none => .error (.expecting "EOF")

/-- How strongly an operator between two sums binds. -/
def strength? (op : Bytes) : Option Nat :=
  [("||", 1), ("&&", 2), ("|", 3), ("^", 4), ("&", 5), ("==", 6), ("!=", 6), ("<", 7), (">", 7),
    ("<=", 7), (">=", 7), ("<<", 8), (">>", 8), ("+", 9), ("-", 9), ("*", 10), ("/", 10),
    ("%", 10)].findSome? fun e => if lit e.1 = op then some e.2 else none

/-- The operator of an assignment, without the equals sign. -/
def assignment? (op : Bytes) : Option Bytes :=
  if (["=", "+=", "-=", "*=", "/=", "%=", "<<=", ">>=", "&=", "|=", "^="].map lit).contains op then
    some op.dropLast
  else none

/-- A sum at the front of tokens, and what follows. -/
abbrev Read (α : Type) := List Token → Except Fault (α × List Token)

mutual

/-- Read an assignment, a condition, or a sum. Every step takes a token off or goes deeper
by a few, so a small multiple of their number is enough fuel. -/
def whole : Nat → Read Sum
  | 0, _ => .error (.expecting "primary")
  | fuel + 1, ts =>
    match ts with
    | .name name :: .operator op :: rest =>
      match assignment? op with
      | some op => do
        let (a, rest) ← whole fuel rest
        return (.assign name op a, rest)
      | none => choice fuel ts
    | ts => choice fuel ts

/-- Read a condition, or a sum. -/
def choice : Nat → Read Sum
  | 0, _ => .error (.expecting "primary")
  | fuel + 1, ts => do
    let (c, ts) ← joined fuel 1 ts
    if ts.head? != some (.operator (lit "?")) then return (c, ts)
    let (a, ts) ← whole fuel (ts.drop 1)
    if ts.head? != some (.operator (lit ":")) then throw (.expecting "':'")
    let (b, ts) ← choice fuel (ts.drop 1)
    return (.conditional c a b, ts)

/-- Read a sum whose operators bind at least so strongly. -/
def joined : Nat → (least : Nat) → Read Sum
  | 0, _, _ => .error (.expecting "primary")
  | fuel + 1, least, ts => do
    let (a, ts) ← term fuel ts
    joinedTo fuel least a ts

/-- Read on behind the first part of a sum. -/
def joinedTo : Nat → (least : Nat) → Sum → Read Sum
  | 0, _, a, ts => .ok (a, ts)
  | fuel + 1, least, a, ts =>
    match ts with
    | .operator op :: rest =>
      match strength? op with
      | some n =>
        if least ≤ n then do
          let (b, rest) ← joined fuel (n + 1) rest
          joinedTo fuel least (.binary op a b) rest
        else .ok (a, ts)
      | none => .ok (a, ts)
    | ts => .ok (a, ts)

/-- Read a number, a variable, a sum in parentheses, or one of them behind a sign. -/
def term : Nat → Read Sum
  | 0, _ => .error (.expecting "primary")
  | fuel + 1, ts =>
    match ts with
    | .number n :: rest => .ok (.number n, rest)
    | .name name :: rest => .ok (.variable name, rest)
    | .operator [b] :: rest =>
      if (lit "+-!~").contains b then do
        let (a, rest) ← term fuel rest
        return (.unary b a, rest)
      else if b = 0x28 then do
        let (a, rest) ← whole fuel rest
        match rest with
        | .operator [0x29] :: rest => return (a, rest)
        | _ => throw (.expecting "')'")
      else .error (.expecting "primary")
    | _ => .error (.expecting "primary")

end

/-- Read a sum. A blank text is zero. -/
def ofText (text : Bytes) : Except Fault Sum := do
  let ts ← tokens (text.length + 1) text
  if ts.isEmpty then return .number 0
  let (a, rest) ← whole (16 * ts.length + 16) ts
  if rest.isEmpty then return a else throw (.expecting "EOF")

/-! ## Working out -/

/-- Variables by their names, as the sum finds and leaves them. -/
abbrev Variables := List (Bytes × Bytes)

/-- The number that the value of a variable writes. -/
def ofValue (value : Bytes) : Except Fault Int :=
  let text := Text.trimWhile ByteClass.isSpace value
  if text.isEmpty then .ok 0
  else
    let (negative, ds) := match text with
      | 0x2D :: rest => (true, rest)
      | 0x2B :: rest => (false, rest)
      | text => (false, text)
    match literal ds with
    | (n, []) => if ds.isEmpty then .error (.number value) else .ok (if negative then -n else n)
    | _ => .error (.number value)

/-- The number of a truth. -/
def ofTruth (c : Bool) : Int := if c then 1 else 0

/-- The bits of a number. -/
def bits (n : Int) : Nat := (n % (Nat.pow 2 64 : Int)).toNat

/-- Two numbers joined by an operator. -/
def combine (op : Bytes) (a b : Int) : Except Fault Int :=
  if op = lit "+" then .ok (wrap (a + b))
  else if op = lit "-" then .ok (wrap (a - b))
  else if op = lit "*" then .ok (wrap (a * b))
  else if op = lit "/" then if b = 0 then .error .division else .ok (wrap (a.tdiv b))
  else if op = lit "%" then if b = 0 then .error .division else .ok (a.tmod b)
  else if op = lit "<" then .ok (ofTruth (a < b))
  else if op = lit ">" then .ok (ofTruth (a > b))
  else if op = lit "<=" then .ok (ofTruth (a ≤ b))
  else if op = lit ">=" then .ok (ofTruth (a ≥ b))
  else if op = lit "==" then .ok (ofTruth (a = b))
  else if op = lit "!=" then .ok (ofTruth (a != b))
  else if op = lit "&" then .ok (wrap (bits a &&& bits b : Nat))
  else if op = lit "|" then .ok (wrap (bits a ||| bits b : Nat))
  else if op = lit "^" then .ok (wrap (bits a ^^^ bits b : Nat))
  else if op = lit "<<" then .ok (wrap (a * (Nat.pow 2 (bits b % 64) : Int)))
  else .ok (a / (Nat.pow 2 (bits b % 64) : Int))

/-- A number behind a sign. -/
def signed (op : UInt8) (n : Int) : Int :=
  if op = 0x2D then wrap (-n)
  else if op = 0x21 then ofTruth (n = 0)
  else if op = 0x7E then -n - 1
  else n

/-- The value of a sum, and what it leaves of the variables. `value?` gives the values of
those that it has not changed. -/
def value (value? : Bytes → Option Bytes) : Sum → Variables → Except Fault (Int × Variables)
  | .number n, vs => .ok (n, vs)
  | .variable name, vs => do
    let text := ((vs.lookup name).or (value? name)).getD []
    return (← ofValue text, vs)
  | .unary op a, vs => do
    let (n, vs) ← a.value value? vs
    return (signed op n, vs)
  | .binary op a b, vs => do
    let (m, vs) ← a.value value? vs
    if op = lit "&&" && m = 0 then return (0, vs)
    if op = lit "||" && m != 0 then return (1, vs)
    let (n, vs) ← b.value value? vs
    if op = lit "&&" || op = lit "||" then return (ofTruth (n != 0), vs)
    return (← combine op m n, vs)
  | .conditional c a b, vs => do
    let (n, vs) ← c.value value? vs
    if n != 0 then a.value value? vs else b.value value? vs
  | .assign name op a, vs => do
    let (n, vs) ← a.value value? vs
    let n ← if op.isEmpty then pure n
      else do
        let m ← ofValue (((vs.lookup name).or (value? name)).getD [])
        combine op m n
    return (n, (name, signedDigits n) :: vs)

/-- The words for a sum without a value. -/
def Fault.words (text : Bytes) : Fault → Bytes
  | .expecting what =>
    lit "arithmetic expression: expecting " ++ lit what ++ lit ": \"" ++ text ++ lit "\""
  | .division => lit "arithmetic expression: division by zero: \"" ++ text ++ lit "\""
  | .number value => lit "Illegal number: " ++ value

end Sum

end LineShell.Program.Sh
