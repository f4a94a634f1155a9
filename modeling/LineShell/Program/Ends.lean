import LineShell.Program.Arguments

/-!
# The ends of a text

`head` passes on the first lines or bytes of its inputs, and `tail` the last. `head` goes
back in a file to the place behind the last line that it has passed on.
-/

namespace LineShell.Program

open Routine Arguments

namespace Ends

/-- A count of lines or bytes, from one end of the text or up to the other. -/
structure Extent where
  bytes : Bool := false
  count : Nat := 10
  /-- The count is of what is left out, or the number of the first that is not. -/
  inverted : Bool := false

/-- The bytes that `head` and `tail` read at a time. -/
def block : Nat := 8192

/-- The words for files that cannot be used. -/
def wording : Wording where
  cannotOpen path e :=
    lit "cannot open " ++ Quoting.always path ++ lit " for reading: " ++ e.sentence
  cannotRead path e :=
    lit "error reading " ++ Quoting.always (spelledOut path) ++ lit ": " ++ e.sentence

/-- The options. -/
def options : List Spec :=
  [valued 'n' "lines", valued 'c' "bytes", flag 'q' "quiet", flag 'q' "silent",
    flag 'v' "verbose", flag 'z' "zero-terminated"]

/-- The extent that an option asks for. The value may begin with a sign, one of which
inverts the extent. -/
def extentOf (inverting : UInt8) (g : Given) : Routine Extent := do
  let bytes := g.letter = 'c'
  let inverted := g.value.head? = some inverting
  let value := if g.value.head? = some 0x2D then g.value.drop 1 else g.value
  let n ← amount 1 (if bytes then "invalid number of bytes" else "invalid number of lines") value
  return ⟨bytes, n, inverted⟩

/-- The extent that the options ask for. -/
def extent (inverting : UInt8) (p : Parsed) : Routine Extent :=
  (p.given.filter fun g => g.letter = 'n' || g.letter = 'c').foldlM
    (fun _ g => extentOf inverting g) {}

/-- A header is written over each input. -/
def showsHeaders (p : Parsed) : Bool :=
  match p.lastOf "qv" with
  | some c => c = 'v'
  | none => 1 < p.operands.length

/-- The header over an input. -/
def header (first : Bool) (path : Bytes) : Bytes :=
  (if first then [] else lit "\n") ++ lit "==> " ++ spelledOut path ++ lit " <==\n"

/-- Do something with each input, below a header if headers are shown. -/
def withHeaders (p : Parsed) (f : Bytes → Option Nat → Routine (Option Errno)) : Routine Unit := do
  let shown := showsHeaders p
  let (_, good) ← foldInputs wording (fun first path d => do
    if shown then put (header first path)
    return (false, ← f path d)) true p.operands
  exit (if good then 0 else 1)

/-- The byte at which lines end. -/
def terminator (p : Parsed) : UInt8 := if p.has 'z' then 0 else lineFeed

/-! ## The first lines -/

/-- An argument of the old form, as in `-5` or `-5c`, written in the new form. -/
def modernHead : List Bytes → Except Bytes (List Bytes)
  | (0x2D :: b :: more) :: rest =>
    if !ByteClass.isDigit b then .ok ((0x2D :: b :: more) :: rest)
    else
      let ds := (b :: more).takeWhile ByteClass.isDigit
      let letters := (b :: more).drop ds.length
      match letters.find? fun l => !(lit "cbkmlqvz").contains l with
      | some l => .error (lit "invalid trailing option -- " ++ [l])
      | none =>
        let unit := letters.filter fun l => (lit "bkm").contains l
        let option := if letters.any fun l => (lit "cbkm").contains l then lit "-c" else lit "-n"
        let others := (letters.filter fun l => (lit "qvz").contains l).map fun l => [0x2D, l]
        .ok (option :: (ds ++ unit.take 1) :: others ++ rest)
  | args => .ok args

/-- Pass on the first bytes of a stream, as they come. -/
def passBytes (d : Option Nat) : (rounds : Nat) → Nat → Routine (Option Errno)
  | 0, _ => pure none
  | rounds + 1, n => do
    if n = 0 then return none
    match ← read d (min n block) with
    | .error e => return some e
    | .ok data =>
      if data.isEmpty then return none
      put data
      passBytes d rounds (n - data.length)

/-- Pass on the first lines of a stream, as they come, and go back to the end of the last. -/
def passLines (ending : UInt8) (d : Option Nat) : (rounds : Nat) → Nat → Routine (Option Errno)
  | 0, _ => pure none
  | rounds + 1, n => do
    if n = 0 then return none
    match ← read d block with
    | .error e => return some e
    | .ok data =>
      if data.isEmpty then return none
      let passed := ((linesOf ending data).take n).flatten
      let ended := data.count ending
      if n ≤ ended then
        let _ ← rewind d (data.length - passed.length)
        put passed
        return none
      else
        put data
        passLines ending d rounds (n - ended)

/-- Pass on all but the last lines or bytes of a stream. -/
def passAllBut (ending : UInt8) (e : Extent) (d : Option Nat) : Routine (Option Errno) := do
  match ← readAll d with
  | .error e => return some e
  | .ok data =>
    let lines := linesOf ending data
    put (if e.bytes then data.take (data.length - e.count)
      else (lines.take (lines.length - e.count)).flatten)
    return none

end Ends

/-- Pass on the first lines or bytes. -/
def head : Utility := fun args => do
  match Ends.modernHead args with
  | .error message => refuse 1 message
  | .ok args =>
    let p ← arguments Ends.options 1 args
    let e ← Ends.extent 0x2D p
    let ending := Ends.terminator p
    Ends.withHeaders p fun _ d =>
      if e.inverted then Ends.passAllBut ending e d
      else if e.bytes then Ends.passBytes d patience e.count
      else Ends.passLines ending d patience e.count

/-! ## The last lines -/

namespace Ends

/-- An argument of the old form, as in `-5`, `+5` or `-5c`, written in the new form. It has
to be the only one but for an operand. -/
def modernTail (args : List Bytes) : List Bytes :=
  let isPlain (a : Bytes) : Bool := !(a.head? = some 0x2D && 1 < a.length)
  let alone := match args with
    | [_] => true
    | [_, a] => isPlain a || a = lit "--"
    | [_, a, _] => a = lit "--"
    | _ => false
  match args with
  | (sign :: b :: more) :: rest =>
    if !alone || !(sign = 0x2D || sign = 0x2B) then args
    else
      let ds := (b :: more).takeWhile ByteClass.isDigit
      let letters := (b :: more).drop ds.length
      if (ds.isEmpty && sign = 0x2D) || 1 < letters.length
          || letters.any fun l => !(lit "bcl").contains l then args
      else
        let n := if ds.isEmpty then lit "10" else ds
        let (option, unit) := if letters = lit "b" then (lit "-c", lit "b")
          else if letters = lit "c" then (lit "-c", [])
          else (lit "-n", [])
        let signed := if sign = 0x2B then sign :: (n ++ unit) else n ++ unit
        option :: signed :: rest
  | args => args

/-- The options of `tail`. A number alone is one that came too late. -/
def tailOptions : List Spec :=
  options ++ [flag 'f' "follow", flag 'F', valued 's' "sleep-interval", flag '\x01' "retry",
    valued 'P' "pid"] ++ ("0123456789".toList.map fun c => flag c)

/-- The last lines or bytes of a text, or those from a number on. -/
def last (ending : UInt8) (e : Extent) (data : Bytes) : Bytes :=
  let dropped (size : Nat) : Nat := if e.inverted then e.count - 1 else size - e.count
  let lines := linesOf ending data
  if e.bytes then data.drop (dropped data.length)
  else (lines.drop (dropped lines.length)).flatten

end Ends

/-- Pass on the last lines or bytes. -/
def tail : Utility := fun args => do
  let p ← arguments Ends.tailOptions 1 (Ends.modernTail args)
  match p.given.find? fun g => g.letter.isDigit with
  | some g => giveUp 1 (lit "option used in invalid context -- " ++ [UInt8.ofNat g.letter.toNat])
  | none => pure ()
  let e ← Ends.extent 0x2B p
  if e.count = 0 && !e.inverted then exit 0
  Ends.withHeaders p fun path d => do
    if isStandardInput path && !(← hasInput) then
      complain (lit "cannot fstat 'standard input': " ++ Errno.badDescriptor.sentence)
      let _ ← closeStandardInput Ends.wording [path]
      exit 1
    match ← readAll d with
    | .error e => return some e
    | .ok data =>
      put (Ends.last (Ends.terminator p) e data)
      return none

end LineShell.Program
