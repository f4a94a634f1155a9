import LineShell.Program.Real
import LineShell.Program.Writing

/-!
# Writing by a format

A format is plain text with escapes and conversions. Each conversion takes an argument and
writes it as text or as a number. `printf` goes over its format as often as it takes to use
all arguments.
-/

namespace LineShell.Program

open Routine Arguments

namespace Format

/-- A conversion: its flags, width, precision and letter. -/
structure Conversion where
  flags : Bytes := []
  width : Nat := 0
  precision : Option Nat := none
  letter : UInt8
deriving DecidableEq, Repr

/-- The conversion has a flag. -/
def Conversion.has (c : Conversion) (flag : UInt8) : Bool := c.flags.contains flag

/-- Pad a text to the width of a conversion. -/
def Conversion.pad (c : Conversion) (b : Bytes) : Bytes :=
  let blanks := List.replicate (c.width - b.length) 0x20
  if c.has 0x2D then b ++ blanks else blanks ++ b

/-- A sign and digits, with zeros between them up to the width if asked for. -/
def Conversion.signed (c : Conversion) (zeros : Bool) (negative : Bool) (lead digits : Bytes) : Bytes :=
  let sign := if negative then lit "-"
    else if c.has 0x2B then lit "+"
    else if c.has 0x20 then lit " "
    else []
  let front := sign ++ lead
  let missing := if zeros && c.has 0x30 && !c.has 0x2D then
      c.width - front.length - digits.length else 0
  c.pad (front ++ List.replicate missing 0x30 ++ digits)

/-- The digits of a number to a base of at most sixteen. -/
def digitsTo (base : Nat) (n : Nat) : Bytes :=
  (Nat.toDigits base n).map fun c => UInt8.ofNat c.toNat

/-- A whole number as a conversion writes it. -/
def Conversion.whole (c : Conversion) (n : Int) : Bytes :=
  let wrapped := if n < 0 then Nat.pow 2 64 - n.natAbs else n.natAbs
  let isSigned := c.letter = 0x64 || c.letter = 0x69
  let body := if isSigned then digitsTo 10 n.natAbs
    else if c.letter = 0x6F then digitsTo 8 wrapped
    else if c.letter = 0x78 then digitsTo 16 wrapped
    else if c.letter = 0x58 then (digitsTo 16 wrapped).map ByteClass.upper
    else digitsTo 10 wrapped
  let body := if c.precision = some 0 && n = 0 then [] else body
  let body := match c.precision with
    | some p => List.replicate (p - body.length) 0x30 ++ body
    | none => body
  let body := if c.letter = 0x6F && c.has 0x23 && body.head? != some 0x30 then 0x30 :: body else body
  let lead := if c.has 0x23 && n != 0 && c.letter = 0x78 then lit "0x"
    else if c.has 0x23 && n != 0 && c.letter = 0x58 then lit "0X"
    else []
  if isSigned then c.signed c.precision.isNone (n < 0) lead body
  else { c with flags := c.flags.filter fun f => f != 0x2B && f != 0x20 }.signed
    c.precision.isNone false lead body

/-- A number with a point as a conversion writes it. -/
def Conversion.real (c : Conversion) (r : Real) : Bytes :=
  let isFinite := match r with | .finite .. | .none => true | _ => false
  let r := match r with | .none => Real.finite 0 0 | r => r
  c.signed isFinite r.isNegative [] (r.write c.letter (c.precision.getD 6))

/-! ## Arguments as numbers -/

/-- What is wrong with an argument. -/
inductive Complaint where
  | notNumeric (argument : Bytes)
  /-- The argument begins with a number, and goes on. -/
  | partlyNumeric (argument : Bytes)
  | outOfRange (argument : Bytes)
  /-- More stands behind a quoted character. -/
  | trailing (rest : Bytes)
deriving DecidableEq, Repr

/-- The complaint makes the exit code 1. -/
def Complaint.isError : Complaint → Bool
  | .trailing _ => false
  | _ => true

/-- A number that an argument gives, and what is wrong with the argument. -/
structure Reading (α : Type) where
  value : α
  complaint : Option Complaint := none

/-- What is wrong with an argument that is not wholly a number. -/
def unread (argument : Bytes) (isStarted : Bool) : Option Complaint :=
  some (if isStarted then .partlyNumeric argument else .notNumeric argument)

/-- The number of a quoted character. -/
def quotedByte? : Bytes → Option (Reading Nat)
  | q :: c :: rest =>
    if q = 0x27 || q = 0x22 then
      some { value := c.toNat, complaint := if rest.isEmpty then none else some (.trailing rest) }
    else none
  | _ => none

/-- The whole number that an argument gives, with a base that its first digits tell. -/
def readWhole (isSigned : Bool) (argument : Bytes) : Reading Int :=
  match quotedByte? argument with
  | some r => { value := r.value, complaint := r.complaint }
  | none =>
    let b := argument.dropWhile ByteClass.isSpace
    let (negative, ds) := match b with
      | 0x2D :: rest => (true, rest)
      | 0x2B :: rest => (false, rest)
      | b => (false, b)
    let octal (ds : Bytes) : Nat × Nat :=
      let os := ds.takeWhile ByteClass.isOctal
      (ByteClass.octalValue os, os.length)
    let (n, used) := match ds with
      | 0x30 :: x :: rest =>
        let hs := rest.takeWhile ByteClass.isHex
        if (x = 0x78 || x = 0x58) && !hs.isEmpty then (ByteClass.hexValue hs, hs.length + 2)
        else octal ds
      | 0x30 :: _ => octal ds
      | ds =>
        let run := ds.takeWhile ByteClass.isDigit
        (ByteClass.decimalValue run, run.length)
    let v : Int := if negative then -(n : Int) else n
    let low : Int := if isSigned then -(Nat.pow 2 63 : Int) else -((Nat.pow 2 64 : Int) - 1)
    let high : Int := if isSigned then (Nat.pow 2 63 : Int) - 1 else (Nat.pow 2 64 : Int) - 1
    if v < low || high < v then
      { value := if isSigned then max low (min high v) else high
        complaint := some (.outOfRange argument) }
    else if used = 0 then
      { value := 0, complaint := if argument.isEmpty then none else unread argument false }
    else { value := v, complaint := if used = ds.length then none else unread argument true }

/-- The length of the number with a point at the front of a text. -/
def realLength (text : Bytes) : Nat :=
  let digits (t : Bytes) : Nat := (t.takeWhile ByteClass.isDigit).length
  let sign := match text with | b :: _ => if b = 0x2D || b = 0x2B then 1 else 0 | [] => 0
  let rest := text.drop sign
  let letters := (rest.take 8).map ByteClass.lower
  if letters = lit "infinity" then sign + 8
  else if letters.take 3 = lit "inf" || letters.take 3 = lit "nan" then sign + 3
  else match rest with
    | 0x30 :: x :: h :: more =>
      if (x = 0x78 || x = 0x58) && ByteClass.isHex h then
        sign + 2 + ((h :: more).takeWhile ByteClass.isHex).length
      else sign + decimal digits rest
    | rest => sign + decimal digits rest
where
  /-- The length of a number in decimal digits. -/
  decimal (digits : Bytes → Nat) (text : Bytes) : Nat :=
    let whole := digits text
    let part := match text.drop whole with
      | 0x2E :: rest => if whole = 0 && digits rest = 0 then 0 else digits rest + 1
      | _ => 0
    let exponent := match text.drop (whole + part) with
      | e :: rest =>
        let sign := match rest with | b :: _ => if b = 0x2D || b = 0x2B then 1 else 0 | [] => 0
        let n := digits (rest.drop sign)
        if ByteClass.lower e = 0x65 && n != 0 && whole + part != 0 then 1 + sign + n else 0
      | [] => 0
    whole + part + exponent

/-- The number with a point that an argument gives. -/
def readReal (argument : Bytes) : Reading Real :=
  match quotedByte? argument with
  | some r => { value := .finite r.value 0, complaint := r.complaint }
  | none =>
    let text := argument.dropWhile ByteClass.isSpace
    let used := realLength text
    if used = 0 then
      { value := .finite 0 0, complaint := if argument.isEmpty then none else unread argument false }
    else
      { value := Real.read (text.take used)
        complaint := if used = text.length then none else unread argument true }

/-! ## Formats -/

/-- Why a format cannot be used. -/
inductive Failure where
  | conversion (text : Bytes)
  | hexDigits
  | character (text : Bytes)
deriving DecidableEq, Repr

/-- What a format has written: the bytes, the arguments left, what is wrong with arguments,
and whether the format has come to a stop. -/
structure Outcome where
  bytes : Bytes := []
  rest : List Bytes := []
  complaints : List Complaint := []
  failure : Option Failure := none
  stopped : Bool := false

/-- The outcome with something written before it. -/
def Outcome.after (o : Outcome) (bytes : Bytes) : Outcome := { o with bytes := bytes ++ o.bytes }

/-- The outcome with a complaint before it. -/
def Outcome.telling {α : Type} (o : Outcome) (r : Reading α) : Outcome :=
  { o with complaints := r.complaint.toList ++ o.complaints }

/-- All arguments were good. -/
def Outcome.isGood (o : Outcome) : Bool := !o.complaints.any Complaint.isError

/-- The bytes of the escape behind a backslash. -/
inductive Escape where
  | bytes (b : Bytes) (rest : Bytes)
  | stop
  | failure (f : Failure)

/-- Read what stands behind a backslash. An octal number may have one digit more if it begins
with a zero in an argument. -/
def readEscape (inArgument : Bool) : Bytes → Escape
  | [] => .bytes [0x5C] []
  | b :: rest =>
    if b = 0x78 then
      match hexByte? rest with
      | some (h, rest) => .bytes [h] rest
      | none => .failure .hexDigits
    else if ByteClass.isOctal b then
      let (o, rest) := octalByte (if inArgument && b = 0x30 then rest else b :: rest)
      .bytes [o] rest
    else if b = 0x63 then .stop
    else if b = 0x65 then .bytes [0x1B] rest
    else if b = 0x22 then .bytes [b] rest
    else if b = 0x75 || b = 0x55 then
      let size := if b = 0x75 then 4 else 8
      let hs := (rest.take size).takeWhile ByteClass.isHex
      let n := ByteClass.hexValue hs
      let shown := lit "\\" ++ [b]
        ++ List.replicate (size - (digitsTo 16 n).length) 0x30 ++ digitsTo 16 n
      if hs.length < size then .failure .hexDigits
      else if (n ≤ 0x9F && n != 0x24 && n != 0x40 && n != 0x60) || (0xD800 ≤ n && n ≤ 0xDFFF) then
        .failure (.character shown)
      else if n < 0x80 then .bytes [UInt8.ofNat n] (rest.drop size)
      else .bytes (shown.take 2 ++ (shown.drop 2).map ByteClass.upper) (rest.drop size)
    else match ByteClass.escaped? b with
      | some c => .bytes [c] rest
      | none => .bytes [0x5C, b] rest

/-- The bytes that an argument with escapes writes. Every step takes a byte off, so as much
fuel as there are bytes is enough. -/
def expand : Nat → Bytes → Outcome
  | 0, _ => {}
  | _, [] => {}
  | fuel + 1, 0x5C :: text =>
    match readEscape true text with
    | .bytes b rest => (expand fuel rest).after b
    | .stop => { stopped := true }
    | .failure f => { failure := some f }
  | fuel + 1, b :: text => (expand fuel text).after [b]

/-- The letters that flags rule out. -/
def ruledOut (flag : UInt8) : Bytes :=
  if flag = 0x27 || flag = 0x49 then lit "aAceEosxX"
  else if flag = 0x23 then lit "cdisu"
  else if flag = 0x30 then lit "cs"
  else []

/-- A conversion is there. -/
def isValid (flags : Bytes) (precise : Bool) (letter : UInt8) : Bool :=
  (lit "diouxXfFeEgGcs").contains letter && !(flags.any fun f => (ruledOut f).contains letter)
    && !(precise && letter = 0x63)

/-- A width or precision: the number, what follows it, and the arguments left. -/
def size? (text : Bytes) (args : List Bytes) : Option Int × Bytes × List Bytes :=
  match text with
  | 0x2A :: rest => (some (readWhole true (args.headD [])).value, rest, args.drop 1)
  | text =>
    let ds := text.takeWhile ByteClass.isDigit
    (if ds.isEmpty then none else some (ByteClass.decimalValue ds : Nat), text.drop ds.length, args)

/-- Write one argument by a conversion. -/
def Conversion.write (c : Conversion) (args : List Bytes) (next : Unit → Outcome) : Outcome :=
  let argument := args.headD []
  if c.letter = 0x73 then
    (next ()).after (c.pad (match c.precision with | some n => argument.take n | none => argument))
  else if c.letter = 0x63 then
    (next ()).after (c.pad (if args.isEmpty || argument.isEmpty then [0] else argument.take 1))
  else if (lit "diouxX").contains c.letter then
    let r := readWhole (c.letter = 0x64 || c.letter = 0x69) argument
    ((next ()).after (c.whole r.value)).telling r
  else
    let r := readReal argument
    ((next ()).after (c.real r.value)).telling r

/-- Write arguments by a format, once over the format. Every step takes a byte off, so as much
fuel as there are bytes is enough. -/
def once : Nat → Bytes → List Bytes → Outcome
  | 0, _, args => { rest := args }
  | _, [], args => { rest := args }
  | fuel + 1, 0x25 :: text, args =>
    match text with
    | 0x25 :: rest => (once fuel rest args).after [0x25]
    | 0x62 :: rest =>
      let u := expand (args.headD []).length (args.headD [])
      if u.stopped || u.failure.isSome then u else (once fuel rest (args.drop 1)).after u.bytes
    | 0x71 :: rest =>
      (once fuel rest (args.drop 1)).after (if args.isEmpty then [] else Quoting.shell (args.headD []))
    | text =>
      let flags := text.takeWhile fun b => (lit "-+ #0'I").contains b
      let rest := text.drop flags.length
      let (width, rest, args) := size? rest args
      let (precise, precision, rest, args) := match rest with
        | 0x2E :: rest =>
          let (n, rest, args) := size? rest args
          (true, some (n.getD 0), rest, args)
        | rest => (false, none, rest, args)
      let rest := rest.dropWhile fun b => (lit "hlLjzt").contains b
      let letter := rest.headD 0
      let flags := if width.any (· < 0) then 0x2D :: flags else flags
      let c : Conversion :=
        { flags := flags, width := (width.getD 0).natAbs, letter := letter
          precision := precision.bind fun n => if n < 0 then none else some n.toNat }
      if isValid flags precise letter then c.write args fun _ => once fuel (rest.drop 1) (args.drop 1)
      else
        let shown := text.take (text.length - rest.length + 1)
        { rest := args, failure := some (.conversion (0x25 :: shown)) }
  | fuel + 1, 0x5C :: text, args =>
    match readEscape false text with
    | .bytes b rest => (once fuel rest args).after b
    | .stop => { stopped := true }
    | .failure f => { failure := some f }
  | fuel + 1, b :: text, args => (once fuel text args).after [b]

/-- Write arguments by a format, again and again until no argument is left. Each pass takes
one off, or is the last. -/
def all (format : Bytes) : Nat → List Bytes → Outcome
  | 0, args => { rest := args }
  | fuel + 1, args =>
    let r := once format.length format args
    if r.stopped || r.failure.isSome || r.rest.isEmpty || args.length ≤ r.rest.length then r
    else
      let next := all format fuel r.rest
      { next with
        bytes := r.bytes ++ next.bytes
        complaints := r.complaints ++ next.complaints }

/-- The words for an argument that is no number. -/
def Complaint.words : Complaint → Bytes
  | .notNumeric a => Quoting.plain a ++ lit ": expected a numeric value"
  | .partlyNumeric a => Quoting.plain a ++ lit ": value not completely converted"
  | .outOfRange a => Quoting.plain a ++ lit ": Numerical result out of range"
  | .trailing rest =>
    lit "warning: " ++ rest ++ lit ": character(s) following character constant have been ignored"

/-- The words for a format that cannot be used. -/
def Failure.words : Failure → Bytes
  | .conversion text => text ++ lit ": invalid conversion specification"
  | .hexDigits => lit "missing hexadecimal number in escape"
  | .character text => lit "invalid universal character name " ++ text

end Format

/-- Write arguments by a format. -/
def printf : Utility := fun args => do
  match (if args.head? = some (lit "--") then args.drop 1 else args) with
  | [] => refuse 1 (lit "missing operand")
  | format :: args =>
    let r := Format.all format (args.length + 1) args
    for c in r.complaints do complain c.words
    if let some f := r.failure then
      complain f.words
      put r.bytes
      exit 1
    if let (extra :: _, false) := (r.rest, r.stopped) then
      complain (lit "warning: ignoring excess arguments, starting with " ++ Quoting.plain extra)
    put r.bytes
    exit (if r.isGood then 0 else 1)

end LineShell.Program
