import LineShell.Program.Arguments
import LineShell.Program.Pattern
import LineShell.Program.Placing

/-!
# Searching

`grep` passes on the lines in which a pattern matches, with the lines around them if asked
for, or counts or names them only.
-/

namespace LineShell.Program

open Routine Arguments

namespace Grep

/-- What is searched for, and what is written. -/
structure Rules where
  /-- The first match at or behind a place of a line. -/
  find : Array UInt8 → Nat → Option (Nat × Nat)
  invert : Bool := false
  quiet : Bool := false
  silent : Bool := false
  counted : Bool := false
  /-- Names are written, of the files with a match or of those without. -/
  listed : Option Bool := none
  only : Bool := false
  numbered : Bool := false
  offsets : Bool := false
  named : Bool := false
  asText : Bool := false
  limit : Option Nat := none
  before : Nat := 0
  after : Nat := 0
  ending : UInt8 := lineFeed
  nameEnding : UInt8 := lineFeed

/-- No lines are written. -/
def Rules.hidesLines (r : Rules) : Bool := r.quiet || r.counted || r.listed.isSome

/-- The first match decides. -/
def Rules.endsAtFirst (r : Rules) : Bool := r.quiet || r.listed.isSome

/-- The place in an input. -/
structure Position where
  /-- The line that has been read in part. -/
  part : Bytes := []
  number : Nat := 0
  offset : Nat := 0
  found : Nat := 0
  /-- The offset behind the last line that was found. -/
  foundEnd : Nat := 0
  /-- The last lines, from the nearest on, each with its number and offset. -/
  recent : List (Nat × Nat × Bytes) := []
  /-- The lines that are still to be written behind one that was found. -/
  following : Nat := 0
  /-- The number of the last line that was written. -/
  written : Nat := 0
  binary : Bool := false

/-- The matches in a line, from left to right, none of them empty, at most `fuel`. -/
def matchesIn (find : Nat → Option (Nat × Nat)) : (fuel : Nat) → Nat → List (Nat × Nat)
  | 0, _ => []
  | fuel + 1, i =>
    match find i with
    | none => []
    | some (a, b) => if a = b then matchesIn find fuel (b + 1) else (a, b) :: matchesIn find fuel b

/-- What stands before a line. The mark tells lines that were found from others. -/
def Rules.label (r : Rules) (name : Bytes) (mark : UInt8) (number offset : Nat) : Bytes :=
  (if r.named then name ++ (if r.nameEnding = 0 then [0] else [mark]) else [])
    ++ (if r.numbered then digits number ++ [mark] else [])
    ++ (if r.offsets then digits offset ++ [mark] else [])

/-- A line that was found. -/
def Rules.hit (r : Rules) (name : Bytes) (number offset : Nat) (line : Bytes) : Bytes :=
  if !r.only then r.label name 0x3A number offset ++ line ++ [r.ending]
  else if r.invert then []
  else (matchesIn (r.find line.toArray) (line.length + 1) 0).flatMap fun (a, b) =>
    r.label name 0x3A number (offset + a) ++ (line.drop a).take (b - a) ++ [lineFeed]

/-- A line beside one that was found. -/
def Rules.beside (r : Rules) (name : Bytes) (number offset : Nat) (line : Bytes) : Bytes :=
  if r.only then [] else r.label name 0x2D number offset ++ line ++ [r.ending]

/-- The line between groups of lines that do not follow each other. -/
def Rules.gap (r : Rules) (p : Position) (first : Nat) : Bytes :=
  if (r.before = 0 && r.after = 0) || r.only || p.written = 0 || p.written + 1 = first then []
  else lit "--\n"

/-- The limit is reached and nothing is to follow. -/
def Rules.isDone (r : Rules) (p : Position) : Bool :=
  (r.limit.any (· ≤ p.found) && p.following = 0) || (r.endsAtFirst && 0 < p.found)

/-- Take a line: the new place, and the text to write. -/
def Rules.step (r : Rules) (name : Bytes) (p : Position) (raw : Bytes) : Position × Bytes :=
  if r.isDone p then (p, [])
  else
    let line := chomp r.ending raw
    let number := p.number + 1
    let next : Position := { p with number := number, offset := p.offset + raw.length }
    let isHit := (r.find line.toArray 0).isSome != r.invert
    if isHit && r.limit.any (· ≤ p.found) then ({ next with following := 0 }, [])
    else if isHit then
      let shown := p.recent.reverse.filter fun l => p.written < l.1
      let first := (shown.head?.map Prod.fst).getD number
      let text := if r.hidesLines || p.binary then []
        else r.gap p first ++ shown.flatMap (fun (n, o, l) => r.beside name n o l)
          ++ r.hit name number p.offset line
      ({ next with found := p.found + 1, foundEnd := next.offset, recent := [], following := r.after
                   written := number }, text)
    else if 0 < p.following then
      ({ next with following := p.following - 1, written := number },
        if r.hidesLines || p.binary then [] else r.beside name number p.offset line)
    else ({ next with recent := ((number, p.offset, line) :: p.recent).take r.before }, [])

/-- Take a chunk. A line is taken when it has ended. -/
def Rules.takeChunk (r : Rules) (name : Bytes) (p : Position) (data : Bytes) : Position × Bytes :=
  let lines := linesOf r.ending (p.part ++ data)
  let (whole, part) := match lines.getLast? with
    | some line => if line.getLast? = some r.ending then (lines, []) else (lines.dropLast, line)
    | none => ([], [])
  let binary := p.binary || (!r.asText && data.contains (if r.ending = 0 then 0xFF else 0))
  let s := whole.foldl (fun (s : Position × List Bytes) line =>
    let t := r.step name s.1 line
    (t.1, t.2 :: s.2)) ({ p with part := part, binary := binary }, [])
  (s.1, s.2.reverse.flatten)

/-- Search an input. The answer has the bytes that were read. -/
def Rules.searchStream (r : Rules) (name : Bytes) (d : Option Nat) :
    (rounds : Nat) → (size : Nat) → Position → Routine (Position × Nat × Option Errno)
  | 0, size, p => pure (p, size, none)
  | rounds + 1, size, p => do
    if r.isDone p then return (p, size, none)
    match ← read d chunk with
    | .error e => return (p, size, some e)
    | .ok data =>
      if data.isEmpty then
        if p.part.isEmpty then return (p, size, none)
        let (p, text) := r.step name { p with part := [] } p.part
        putOr 2 writeError text
        return (p, size, none)
      else
        let (p, text) := r.takeChunk name p data
        putOr 2 writeError text
        r.searchStream name d rounds (size + data.length) p

/-- The name of an input in output and messages. -/
def inputName (path : Bytes) : Bytes := if isStandardInput path then lit "(standard input)" else path

/-- What has come out of the inputs. -/
structure Outcome where
  found : Bool := false
  failed : Bool := false

/-- The input is the file that the output goes to. -/
def isOutput (d : Option Nat) : Routine Bool := do
  let files := (← look).1
  match ← inspect d, ← inspect (← standard 1) with
  | some (a, _), some (b, _) => return a = b && files.isFile a
  | _, _ => return false

/-- Complain about an input, unless no complaints are wanted. -/
def Rules.complainOf (r : Rules) (path : Bytes) (e : Errno) : Routine Unit :=
  if r.silent then pure () else complain (inputName path ++ lit ": " ++ e.sentence)

/-- Search an opened input. -/
def Rules.searchInput (r : Rules) (o : Outcome) (path : Bytes) (d : Option Nat) : Routine Outcome := do
  let name := inputName path
  if !r.hidesLines && r.limit != some 1 && (← isOutput d) then
    complain (name ++ lit ": input file is also the output")
    return { o with failed := true }
  let (p, size, failure) ← r.searchStream name d patience 0 {}
  if let some e := failure then r.complainOf path e
  let found := decide (0 < p.found)
  if r.counted then
    putOr 2 writeError ((if r.named then name ++ lit ":" else []) ++ digits p.found ++ lit "\n")
  if r.listed = some found then putOr 2 writeError (name ++ [r.nameEnding])
  if found && p.binary && !r.hidesLines then complain (name ++ lit ": binary file matches")
  if isStandardInput path && r.limit.any (· ≤ p.found) then
    let _ ← rewind d (size - p.foundEnd)
  if r.quiet && found then exit 0
  return ⟨o.found || (if r.listed = some false then !found else found), o.failed || failure.isSome⟩

/-- Search the inputs. -/
def Rules.search (r : Rules) (o : Outcome) : List Bytes → Routine Outcome
  | [] => pure o
  | path :: paths => do
    match ← openInput path with
    | .error e =>
      r.complainOf path e
      r.search { o with failed := true } paths
    | .ok d =>
      let o ← r.searchInput o path d
      closeInput path d
      r.search o paths

/-- The files below a directory, in order, as paths from it on. Symbolic links and devices are
left out. -/
def filesBelow (files : Files) (directory : NodeId) : List Bytes :=
  let below := (files.allBelow directory).filter fun e => files.isFile e.2
  (below.map fun e => [Path.slash].intercalate e.1).mergeSort fun a b => compareBytes a b != .gt

/-- The inputs that operands name where directories stand for the files below them, and
whether there is a directory among them. -/
def inputsBelow (operands : List Bytes) : Routine (List Bytes × Bool) := do
  let (files, view) ← look
  if operands.isEmpty then return (filesBelow files view.directory, true)
  let found := operands.map fun path =>
    match files.resolveDirectory view path with
    | .ok id =>
      if isStandardInput path then ([path], false) else ((filesBelow files id).map (pathIn path), true)
    | .error _ => ([path], false)
  return (found.flatMap Prod.fst, found.any Prod.snd)

/-- The options. -/
def options : List Spec :=
  [flag 'r' "recursive", flag 'R' "dereference-recursive", flag 'q' "quiet", flag 'q' "silent", flag 'c' "count", flag 'v' "invert-match",
    flag 'i' "ignore-case", flag 'y', flag 'n' "line-number", flag 'F' "fixed-strings",
    flag 'E' "extended-regexp", flag 'G' "basic-regexp", flag 'o' "only-matching",
    flag 'w' "word-regexp", flag 'x' "line-regexp", flag 'l' "files-with-matches",
    flag 'L' "files-without-match", flag 'H' "with-filename", flag 'h' "no-filename",
    flag 's' "no-messages", flag 'a' "text", flag 'b' "byte-offset", flag 'z' "null-data",
    flag 'Z' "null", flag 'T' "initial-tab", flag 'U' "binary", valued 'e' "regexp", valued 'f' "file",
    valued 'm' "max-count", valued 'A' "after-context", valued 'B' "before-context",
    valued 'C' "context", perhapsValued 'k' "color", perhapsValued 'k' "colour",
    flag '\x01' "line-buffered"]
    ++ "0123456789".toList.map fun c => flag c

/-- Refuse the options. -/
def refuse {α : Type} : Routine α := do
  warn (lit "Usage: " ++ (← frame).name ++ lit " [OPTION]... PATTERNS [FILE]...\nTry '" ++ (← frame).name
    ++ lit " --help' for more information.\n")
  exit 2

/-- The patterns in a file. -/
def patternsIn (path : Bytes) : Routine Bytes := do
  match ← openInput path with
  | .error e => giveUp 2 (plainly path e)
  | .ok d =>
    match ← readAll d with
    | .error e => giveUp 2 (plainly path e)
    | .ok data =>
      closeInput path d
      return chomp lineFeed data

/-- The patterns that the options name, if they name any. -/
def patternsOf (p : Parsed) : Routine (Option Bytes) :=
  (p.given.filter fun g => g.letter = 'e' || g.letter = 'f').foldlM (fun before g => do
    let text ← if g.letter = 'e' then pure g.value else patternsIn g.value
    return some (match before with | some b => b ++ [lineFeed] ++ text | none => text)) none

/-- The lengths of the context that options ask for: before and after. -/
def contextOf (p : Parsed) : Routine (Nat × Nat) := do
  let length (value : Bytes) : Routine Nat := do
    match Amount.read value with
    | .of n => return n
    | .tooLarge => return amountBound
    | .malformed => giveUp 2 (value ++ lit ": invalid context length argument")
  let ds := (p.given.filter (·.letter.isDigit)).map fun g => UInt8.ofNat g.letter.toNat
  let around ← match p.value? 'C' with
    | some v => length v
    | none => pure (ByteClass.decimalValue ds)
  let before ← match p.value? 'B' with | some v => length v | none => pure around
  let after ← match p.value? 'A' with | some v => length v | none => pure around
  return (before, after)

/-- The most lines that the options ask for. -/
def limitOf (p : Parsed) : Routine (Option Nat) := do
  match p.value? 'm' with
  | none => return none
  | some (0x2D :: rest) =>
    if rest.isEmpty || !rest.all ByteClass.isDigit then giveUp 2 (lit "invalid max count")
    return none
  | some v =>
    match Amount.read v with
    | .of n => return some n
    | .tooLarge => return none
    | .malformed => giveUp 2 (lit "invalid max count")

/-- Where a pattern matches in a line, as part of it, as a word, or as the whole. -/
def finder (word whole : Bool) (pattern : Pattern) (line : Array UInt8) (i : Nat) : Option (Nat × Nat) :=
  if whole then
    if i = 0 && (pattern.ends line 0).contains line.size then some (0, line.size) else none
  else if word then
    Pattern.firstFrom line (fun i =>
      let good (j : Nat) : Bool :=
        i < j && !Pattern.isBehindWord line i && !Pattern.isInWord line j
      (((pattern.ends line i).filter good).max?).map fun j => (i, j)) i
  else pattern.search? line i

/-- The operator at the start of a pattern that has nothing to repeat. -/
def loneOperator? (source : Bytes) : Option Bytes :=
  match (source.dropWhile (· = 0x5E)).head? with
  | some 0x2A => some (lit "*")
  | some 0x2B => some (lit "+")
  | some 0x3F => some (lit "?")
  | some 0x7B => some (lit "\x7b...\x7d")
  | _ => none

end Grep

open Grep in
/-- Pass on the lines in which a pattern matches. -/
def grep : Utility := fun args => do
  let p ← match Arguments.parse Grep.options true args with
    | .ok p => pure p
    | .error e => do
      complain e
      Grep.refuse
  let kinds := (p.given.filter fun g => g.letter = 'E' || g.letter = 'F' || g.letter = 'G').map Given.letter
  if 1 < kinds.eraseDups.length then giveUp 2 (lit "conflicting matchers specified")
  let limit ← limitOf p
  let (before, after) ← contextOf p
  let (source, operands) ← match ← patternsOf p, p.operands with
    | some source, operands => pure (source, operands)
    | none, source :: operands => pure (source, operands)
    | none, [] => Grep.refuse
  let sources := partsOf lineFeed source
  if p.has 'E' then
    for s in sources do
      if let some o := loneOperator? s then
        complain (lit "warning: " ++ o ++ lit " at start of expression")
  let one (b : Bytes) : Except Pattern.Fault Pattern :=
    if p.has 'F' then .ok (Pattern.exactly b) else Pattern.parse (p.has 'E') b
  match sources.mapM one with
  | .error e => giveUp 2 e.words
  | .ok patterns =>
    let pattern := match patterns with
      | [] => Pattern.empty
      | first :: rest => rest.foldl .either first
    let pattern := if p.has 'i' || p.has 'y' then pattern.foldCase else pattern
    let (inputs, nested) ← if p.has 'r' || p.has 'R' then inputsBelow operands
      else pure (inputsOf operands, false)
    let r : Rules :=
      { find := finder (p.has 'w') (p.has 'x') pattern
        invert := p.has 'v', quiet := p.has 'q', silent := p.has 's'
        counted := p.has 'c' && !p.has 'q' && !(p.has 'l' || p.has 'L')
        listed := if p.has 'q' then none else (p.lastOf "lL").map (· = 'l')
        only := p.has 'o', numbered := p.has 'n', offsets := p.has 'b'
        named := match p.lastOf "Hh" with
          | some c => c = 'H'
          | none => 1 < operands.length || nested
        asText := p.has 'a' || p.has 'U', limit := limit, before := before, after := after
        ending := if p.has 'z' then 0 else lineFeed
        nameEnding := if p.has 'Z' then 0 else lineFeed }
    if limit = some 0 && !p.has 'L' then exit 1
    let o ← r.search {} inputs
    exit (if o.failed then 2 else if o.found then 0 else 1)

end LineShell.Program
