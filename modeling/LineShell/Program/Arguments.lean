import LineShell.Program.Line
import LineShell.Program.Quoting
import LineShell.Program.Routine

/-!
# Arguments of programs

`Arguments.parse` sorts the arguments of a program into options and operands by the
conventions that most programs share: short options may be joined, a value may follow
in the same argument or the next, options may stand between operands, and `--` ends
them. `Routine.forInputs` reads the files that the operands name.
-/

namespace LineShell.Program

open Routine

/-- A program, as what it does with its arguments. -/
abbrev Utility := List Bytes → Routine Unit

/-- How programs find and start others, in an environment and by arguments: the name of the
program and what it does. -/
abbrev Launcher :=
  Files → View → (environment : List (Bytes × Bytes)) → List Bytes → Except Errno (Bytes × Routine Unit)

/-- The digits of a number. -/
def digits (n : Nat) : Bytes := Utf8.encode (Decimal.ofNat n)

/-- The digits of a signed number. -/
def signedDigits (n : Int) : Bytes := Utf8.encode (Decimal.ofInt n)

/-- The number that decimal digits write. -/
def number? (b : Bytes) : Option Nat := Decimal.natural? (Utf8.decodeLossy b)

namespace Arguments

/-- An option that a program takes. -/
structure Spec where
  letter : Char
  long : String := ""
  hasValue : Bool := false
  /-- The value can be left out. It then is empty. -/
  optional : Bool := false

/-- An option without a value. -/
def flag (letter : Char) (long : String := "") : Spec :=
  { letter := letter, long := long }

/-- An option with a value. -/
def valued (letter : Char) (long : String := "") : Spec :=
  { letter := letter, long := long, hasValue := true }

/-- An option whose value can be left out. -/
def perhapsValued (letter : Char) (long : String := "") : Spec :=
  { letter := letter, long := long, hasValue := true, optional := true }

/-- An option that was given, with its value. -/
structure Given where
  letter : Char
  value : Bytes := []

/-- The options and operands among arguments. -/
structure Parsed where
  given : List Given := []
  operands : List Bytes := []

/-- An option was given. -/
def Parsed.has (p : Parsed) (letter : Char) : Bool :=
  p.given.any (·.letter = letter)

/-- The value that an option was last given. -/
def Parsed.value? (p : Parsed) (letter : Char) : Option Bytes :=
  (p.given.filter (·.letter = letter)).getLast?.map Given.value

/-- The one among some options that was given last. -/
def Parsed.lastOf (p : Parsed) (letters : String) : Option Char :=
  (p.given.filter fun g => letters.toList.contains g.letter).getLast?.map Given.letter

/-- The byte of an option's letter. -/
def dash : UInt8 := 0x2D

/-- Read the letters of one argument. The value of the last may be the next argument. -/
def letters (specs : List Spec) : Bytes → List Bytes → Except Bytes (List Given × List Bytes)
  | [], rest => .ok ([], rest)
  | b :: more, rest =>
    let c := Char.ofNat b.toNat
    match specs.find? (·.letter = c) with
    | none => .error (lit "invalid option -- '" ++ [b] ++ lit "'")
    | some spec =>
      if spec.hasValue then
        if !more.isEmpty || spec.optional then .ok ([⟨c, more⟩], rest)
        else match rest with
          | value :: rest => .ok ([⟨c, value⟩], rest)
          | [] => .error (lit "option requires an argument -- '" ++ [b] ++ lit "'")
      else (letters specs more rest).map fun r => (⟨c, []⟩ :: r.1, r.2)

/-- The options whose long names begin with `name`, or the one that has that name. -/
def longCandidates (specs : List Spec) (name : Bytes) : List Spec :=
  match specs.find? fun s => s.long != "" && lit s.long = name with
  | some s => [s]
  | none => specs.filter fun s => s.long != "" && name.isPrefixOf (lit s.long)

/-- Read an argument that begins with two dashes, without them. A name may be cut short, as
long as it fits one option only. -/
def long (specs : List Spec) (argument : Bytes) (rest : List Bytes) :
    Except Bytes (List Given × List Bytes) :=
  let (name, value) := match Text.cutAt 0x3D argument with
    | some (name, value) => (name, some value)
    | none => (argument, none)
  match longCandidates specs name with
  | [] => .error (lit "unrecognized option '--" ++ argument ++ lit "'")
  | spec :: others =>
    let shown := lit spec.long
    if others.any fun o => o.letter != spec.letter then
      .error (lit "option '--" ++ argument ++ lit "' is ambiguous; possibilities:"
        ++ (spec :: others).flatMap fun o => lit " '--" ++ lit o.long ++ lit "'")
    else if spec.hasValue then
      match value, rest with
      | some value, rest => .ok ([⟨spec.letter, value⟩], rest)
      | none, value :: rest =>
        if spec.optional then .ok ([⟨spec.letter, []⟩], value :: rest)
        else .ok ([⟨spec.letter, value⟩], rest)
      | none, [] =>
        if spec.optional then .ok ([⟨spec.letter, []⟩], [])
        else .error (lit "option '--" ++ shown ++ lit "' requires an argument")
    else match value with
      | none => .ok ([⟨spec.letter, []⟩], rest)
      | some _ => .error (lit "option '--" ++ shown ++ lit "' doesn't allow an argument")

/-- Sort arguments into options and operands. Options can stand behind operands if `mixed`
says so. Every step takes an argument off, so as much fuel as there are arguments is
enough. -/
def parseFrom (specs : List Spec) (mixed : Bool) : Nat → List Bytes → Except Bytes Parsed
  | 0, operands => .ok { operands := operands }
  | _, [] => .ok {}
  | fuel + 1, argument :: rest =>
    if argument = lit "--" then .ok { operands := rest }
    else
      let taken : Except Bytes (List Given × List Bytes) :=
        match argument with
        | 0x2D :: 0x2D :: name => long specs name rest
        | 0x2D :: b :: more => letters specs (b :: more) rest
        | _ => .ok ([], rest)
      match taken with
      | .error e => .error e
      | .ok (given, rest) =>
        if given.isEmpty && !mixed then .ok { operands := argument :: rest }
        else (parseFrom specs mixed fuel rest).map fun p =>
          if given.isEmpty then { p with operands := argument :: p.operands }
          else { p with given := given ++ p.given }

/-- Sort arguments into options and operands. -/
def parse (specs : List Spec) (mixed : Bool) (arguments : List Bytes) : Except Bytes Parsed :=
  parseFrom specs mixed arguments.length arguments

/-! ### Amounts -/

/-- What the value of an option says of an amount. -/
inductive Amount where
  | of (n : Nat)
  | malformed
  | tooLarge
deriving DecidableEq, Repr

/-- One more than the largest amount. -/
def amountBound : Nat := Nat.pow 2 64

/-- The power of a thousand that a letter stands for. -/
def power? (letter : UInt8) : Option Nat :=
  [((0x6B : UInt8), 1), (0x4B, 1), (0x6D, 2), (0x4D, 2), (0x47, 3), (0x54, 4), (0x50, 5),
    (0x45, 6), (0x5A, 7), (0x59, 8)].lookup letter

/-- The factor that the letters behind a number stand for. -/
def factor? : Bytes → Option Nat
  | [] => some 1
  | [0x62] => some 512
  | [letter] => (power? letter).map fun n => Nat.pow 1024 n
  | [letter, 0x42] => (power? letter).map fun n => Nat.pow 1000 n
  | [letter, 0x69, 0x42] => (power? letter).map fun n => Nat.pow 1024 n
  | _ => none

/-- The amount that a value gives: digits, and letters for a factor. Letters alone stand
for the factor itself. -/
def Amount.read (value : Bytes) : Amount :=
  let value := value.dropWhile ByteClass.isSpace
  let value := if value.head? = some 0x2B then value.drop 1 else value
  let ds := value.takeWhile ByteClass.isDigit
  let letters := value.drop ds.length
  match factor? letters with
  | none => .malformed
  | some f =>
    if ds.isEmpty && letters.isEmpty then .malformed
    else
      let n := if ds.isEmpty then f else (number? ds).getD 0 * f
      if n < amountBound then .of n else .tooLarge

end Arguments

/-! ## Refusing -/

/-- Point to the help, and exit with `code`. -/
def pointToHelp {α : Type} (code : Nat) : Routine α := do
  warn (lit "Try '" ++ (← frame).name ++ lit " --help' for more information.\n")
  exit code

/-- Refuse to work: say why, point to the help, and exit with `code`. -/
def refuse {α : Type} (code : Nat) (message : Bytes) : Routine α := do
  complain message
  pointToHelp code

/-- Give up: say why, and exit with `code`. -/
def giveUp {α : Type} (code : Nat) (message : Bytes) : Routine α := do
  complain message
  exit code

/-- The options and operands among arguments. A program with wrong options says so and
exits with `code`. -/
def arguments (specs : List Arguments.Spec) (code : Nat) (given : List Bytes) :
    Routine Arguments.Parsed := do
  match Arguments.parse specs true given with
  | .ok p => return p
  | .error e => refuse code e

/-- The options in front of the operands. -/
def leadingArguments (specs : List Arguments.Spec) (code : Nat) (given : List Bytes) :
    Routine Arguments.Parsed := do
  match Arguments.parse specs false given with
  | .ok p => return p
  | .error e => refuse code e

/-- The amount that a value gives. A program with a wrong amount says what it takes it for
and exits with `code`. -/
def amount (code : Nat) (what : String) (value : Bytes) : Routine Nat := do
  match Arguments.Amount.read value with
  | .of n => return n
  | .malformed => giveUp code (lit what ++ lit ": " ++ Quoting.plain value)
  | .tooLarge =>
    giveUp code (lit what ++ lit ": " ++ Quoting.plain value
      ++ lit ": Value too large for defined data type")

/-- What a value of an option chooses among words, of which those on a row mean the same. A
word may be cut short. A program with a wrong word lists the right ones and exits with 1. -/
def choice {α : Type} (option : String) (rows : List (List String × α)) (value : Bytes) :
    Routine α := do
  let words := rows.flatMap fun r => r.1.map fun w => (lit w, r.1, r.2)
  let fitting := words.filter fun w => value.isPrefixOf w.1
  match words.find? (·.1 = value), fitting with
  | some w, _ => return w.2.2
  | none, first :: others =>
    if others.all (·.2.1 = first.2.1) then return first.2.2
    else wrong "ambiguous"
  | none, [] => wrong "invalid"
where
  /-- List the right words. -/
  wrong (what : String) : Routine α := do
    complain (lit what ++ lit " argument " ++ Quoting.plain value ++ lit " for " ++ Quoting.plain (lit option))
    warn (lit "Valid arguments are:\n" ++ rows.flatMap fun r =>
      lit "  - " ++ (lit ", ").intercalate (r.1.map fun w => Quoting.plain (lit w)) ++ lit "\n")
    pointToHelp 1

/-- The words of most programs: the file and what is wrong with it. -/
def plainly (path : Bytes) (e : Errno) : Bytes := Quoting.shell path ++ lit ": " ++ e.sentence

/-- The operand that stands for the standard input stream. -/
def standardInput : Bytes := lit "-"

/-- The operand stands for the standard input stream. -/
def isStandardInput (path : Bytes) : Bool := path = standardInput

/-- A name for an operand that spells the standard input stream out. -/
def spelledOut (path : Bytes) : Bytes :=
  if isStandardInput path then lit "standard input" else path

/-- The words of a program for files that it cannot use. -/
structure Wording where
  cannotOpen : Bytes → Errno → Bytes := plainly
  cannotRead : Bytes → Errno → Bytes := plainly
  /-- The words for a standard input stream that was read and is not open. -/
  cannotClose : Errno → Option Bytes := fun e => some (plainly standardInput e)

/-- Open the file that an operand names. -/
def openInput (path : Bytes) : Routine (Except Errno (Option Nat)) := do
  if isStandardInput path then return .ok (← standard 0)
  return (← openPath path .read).map some

/-- Close what `openInput` has opened. -/
def closeInput (path : Bytes) : Option Nat → Routine Unit
  | some d => if isStandardInput path then pure () else close d
  | none => pure ()

/-- The operands, or the standard input stream if there are none. -/
def inputsOf (operands : List Bytes) : List Bytes :=
  if operands.isEmpty then [standardInput] else operands

/-- Read the files that operands name, one after the other. A file that cannot be used is
complained about, and the answer then says that not all was good. -/
def foldEach {β : Type} (w : Wording) (f : β → Bytes → Option Nat → Routine (β × Option Errno)) :
    β → List Bytes → Routine (β × Bool)
  | b, [] => pure (b, true)
  | b, path :: paths => do
    let (b, good) ← match ← openInput path with
      | .error e => do
        complain (w.cannotOpen path e)
        pure (b, false)
      | .ok d => do
        let (b, failure) ← f b path d
        closeInput path d
        match failure with
        | none => pure (b, true)
        | some e => do
          complain (w.cannotRead path e)
          pure (b, false)
    let r ← foldEach w f b paths
    return (r.1, good && r.2)

/-- Complain about a standard input stream that was read and is not open. -/
def closeStandardInput (w : Wording) (paths : List Bytes) : Routine Bool := do
  if !paths.contains standardInput || (← hasInput) then return true
  match w.cannotClose .badDescriptor with
  | some message => do
    complain message
    return false
  | none => return true

/-- Read the files that operands name, one after the other, and close the standard input
stream if it was one of them. -/
def foldInputs {β : Type} (w : Wording) (f : β → Bytes → Option Nat → Routine (β × Option Errno))
    (b : β) (operands : List Bytes) : Routine (β × Bool) := do
  let (b, good) ← foldEach w f b (inputsOf operands)
  return (b, (← closeStandardInput w (inputsOf operands)) && good)

/-- Give each chunk of a stream to `f`, and write what it makes of the chunk, up to the end
of the stream or to a failure. -/
def mapChunks {β : Type} (d : Option Nat) (f : β → Bytes → β × Bytes) :
    (rounds : Nat) → β → Routine (β × Option Errno)
  | 0, b => pure (b, none)
  | rounds + 1, b => do
    match ← read d chunk with
    | .error e => return (b, some e)
    | .ok data =>
      if data.isEmpty then return (b, none)
      let r := f b data
      put r.2
      mapChunks d f rounds r.1

/-- Give each line of a stream to `f`, and write what it makes of the line. Only the last
line may lack the byte that ends it. -/
def mapLines {β : Type} (ending : UInt8) (d : Option Nat) (f : β → Bytes → β × Bytes) (b : β) :
    Routine (β × Option Errno) := do
  let each (r : β × List Bytes) (line : Bytes) : β × List Bytes :=
    let s := f r.1 line
    (s.1, s.2 :: r.2)
  let chunk (s : Bytes × β) (data : Bytes) : (Bytes × β) × Bytes :=
    let lines := linesOf ending (s.1 ++ data)
    let (whole, part) :=
      match lines.getLast? with
      | some line =>
        if line.getLast? = some ending then (lines, []) else (lines.dropLast, line)
      | none => ([], [])
    let r := whole.foldl each (s.2, [])
    ((part, r.1), r.2.reverse.flatten)
  let ((part, b), failure) ← mapChunks d chunk patience ([], b)
  if part.isEmpty || failure.isSome then return (b, failure)
  let r := f b part
  put r.2
  return (r.1, none)

/-- Give each line of the files that operands name to `f`, and write what it makes of it,
and at the end what `last` says. -/
def filterLines {β : Type} (ending : UInt8) (w : Wording) (f : β → Bytes → β × Bytes) (last : β → Bytes)
    (b : β) (operands : List Bytes) : Routine Unit := do
  let (b, good) ← foldInputs w (fun b _ d => mapLines ending d f b) b operands
  put (last b)
  exit (if good then 0 else 1)

end LineShell.Program
