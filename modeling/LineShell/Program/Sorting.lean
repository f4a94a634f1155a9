import LineShell.Program.Arguments
import LineShell.Program.Real

/-!
# Sorting

`sort` orders lines by keys. A key is a part of the line, from a place in one field to a
place in another, and has a way in which it is compared. Lines whose keys are all the
same are compared as a whole.
-/

namespace LineShell.Program

open Routine Arguments

namespace Sorting

/-! ## Ways to compare -/

/-- What a key is taken for. -/
inductive Measure where
  | bytes
  | numeric
  | general
  | human
  | month
  | version
  | random
deriving DecidableEq, Repr

/-- The bytes of a key that count. -/
inductive Selection where
  | all
  /-- Letters, digits and blanks. -/
  | dictionary
  /-- What can be printed. -/
  | printable
deriving DecidableEq, Repr

/-- How keys are compared. -/
structure Ordered where
  measures : List Measure := []
  selection : Selection := .all
  fold : Bool := false
  reverse : Bool := false
deriving DecidableEq, Repr

/-- The rank of the letter for a power of a thousand behind a number, below zero for a
negative number. -/
def unitRank (text : Bytes) : Int :=
  let d := Pointed.read text
  let text := (text.dropWhile ByteClass.isBlank).drop (if d.negative then 1 else 0)
  let text := text.dropWhile fun b => ByteClass.isDigit b || b = 0x2E
  let rank := match text with
    | letter :: _ =>
      if (lit "kKMGTPEZYRQ").contains letter then ((power? letter).getD 9 : Int) else 0
    | [] => 0
  if d.scaled d.part.length = 0 then 0 else if d.negative then -rank else rank

/-- The number of the month whose name begins a text, or zero. -/
def monthNumber (text : Bytes) : Nat :=
  let name := ((text.dropWhile ByteClass.isBlank).take 3).map ByteClass.upper
  let names := ["JAN", "FEB", "MAR", "APR", "MAY", "JUN", "JUL", "AUG", "SEP", "OCT", "NOV", "DEC"]
  match names.findIdx? fun m => lit m = name with
  | some i => i + 1
  | none => 0

/-- The rank of a byte in a version. -/
def versionRank : Option UInt8 → Int
  | none => -1
  | some b =>
    if ByteClass.isDigit b then 0
    else if ByteClass.isAlpha b then b.toNat
    else if b = 0x7E then -2
    else b.toNat + 256

/-- Compare the parts of two texts up to the next digits. -/
def compareMarks : Bytes → Bytes → Ordering
  | [], [] => .eq
  | [], b :: bs =>
    if ByteClass.isDigit b then .eq
    else (compare (versionRank none) (versionRank (some b))).then (compareMarks [] bs)
  | a :: as, [] =>
    if ByteClass.isDigit a then .eq
    else (compare (versionRank (some a)) (versionRank none)).then (compareMarks as [])
  | a :: as, b :: bs =>
    if ByteClass.isDigit a && ByteClass.isDigit b then .eq
    else (compare (versionRank (some a)) (versionRank (some b))).then (compareMarks as bs)

/-- The order of two texts in which numbers and other marks follow each other. Every round
takes a number off, so as much fuel as there are bytes is enough. -/
def compareParts : Nat → Bytes → Bytes → Ordering
  | 0, _, _ => .eq
  | fuel + 1, a, b =>
    if a.isEmpty && b.isEmpty then .eq
    else
      let isMark (c : UInt8) : Bool := !ByteClass.isDigit c
      let number (t : Bytes) : Bytes := (t.dropWhile isMark).takeWhile ByteClass.isDigit
      let rest (t : Bytes) : Bytes := (t.dropWhile isMark).dropWhile ByteClass.isDigit
      ((compareMarks a b).then
        (compare (ByteClass.decimalValue (number a)) (ByteClass.decimalValue (number b)))).then
          (compareParts fuel (rest a) (rest b))

/-- A name without the endings that begin with a point and a letter. -/
def versionStem (name : Bytes) : Bytes :=
  let isEnding (e : Bytes) : Bool :=
    match e with
    | b :: rest => (ByteClass.isAlpha b || b = 0x7E) && rest.all fun b => ByteClass.isAlnum b || b = 0x7E
    | [] => false
  match partsOf 0x2E name with
  | [] => []
  | first :: others =>
    let kept := (others.reverse.dropWhile isEnding).reverse
    [0x2E].intercalate (first :: kept)

/-- The order of two names with versions in them. -/
def compareVersions (a b : Bytes) : Ordering :=
  let hidden (t : Bytes) : Nat :=
    if t.isEmpty then 0 else if t = lit "." then 1 else if t = lit ".." then 2
    else if t.head? = some 0x2E then 3 else 4
  let parts (a b : Bytes) : Ordering := compareParts (a.length + b.length + 1) a b
  ((compare (hidden a) (hidden b)).then (parts (versionStem a) (versionStem b))).then (parts a b)

/-- The order of two keys. -/
def Ordered.compareKeys (o : Ordered) (a b : Bytes) : Ordering :=
  let prepared (key : Bytes) : Bytes :=
    let key := match o.selection with
      | .all => key
      | .dictionary => key.filter fun b => ByteClass.isAlnum b || ByteClass.isBlank b
      | .printable => key.filter ByteClass.isPrintable
    if o.fold then key.map ByteClass.upper else key
  let a := prepared a
  let b := prepared b
  let order := match o.measures.headD .bytes with
    | .numeric => (Pointed.read a).compare (Pointed.read b)
    | .general => (Real.read a).compare (Real.read b)
    | .human => (compare (unitRank a) (unitRank b)).then ((Pointed.read a).compare (Pointed.read b))
    | .month => compare (monthNumber a) (monthNumber b)
    | .version => compareVersions a b
    | .bytes | .random => compareBytes a b
  if o.reverse then order.swap else order

/-! ## Keys -/

/-- A place in a line. -/
structure Place where
  field : Nat := 0
  byte : Nat := 0
  /-- The blanks at the place are passed over. -/
  pastBlanks : Bool := false
deriving DecidableEq, Repr

/-- A key: where it begins, and where it ends if not with the line. -/
structure Key where
  first : Place := {}
  last : Option Place := none
  ordered : Ordered := {}
deriving DecidableEq, Repr

/-- A line behind its first fields. The field before may keep its separator, if `whole` says
that the last field is passed with it. -/
def pastFields (separator : Option UInt8) (whole : Bool) : Nat → Bytes → Bytes
  | 0, line => line
  | n + 1, line =>
    match separator with
    | some s =>
      let rest := line.dropWhile (· != s)
      pastFields separator whole n (if n = 0 && !whole then rest else rest.drop 1)
    | none =>
      pastFields separator whole n
        ((line.dropWhile ByteClass.isBlank).dropWhile fun b => !ByteClass.isBlank b)

/-- A line from a place on. -/
def Place.from (p : Place) (separator : Option UInt8) (line : Bytes) : Bytes :=
  let rest := pastFields separator true p.field line
  (if p.pastBlanks then rest.dropWhile ByteClass.isBlank else rest).drop p.byte

/-- What is left of a line behind a place. A place without a byte is the end of its field. -/
def Place.behind (p : Place) (separator : Option UInt8) (line : Bytes) : Bytes :=
  if p.byte = 0 then pastFields separator false (p.field + 1) line
  else
    let rest := pastFields separator true p.field line
    (if p.pastBlanks then rest.dropWhile ByteClass.isBlank else rest).drop p.byte

/-- The part of a line that is a key. -/
def Key.of (k : Key) (separator : Option UInt8) (line : Bytes) : Bytes :=
  let from_ := k.first.from separator line
  match k.last with
  | none => from_
  | some p => from_.take (from_.length - (p.behind separator line).length)

/-- How lines are compared. -/
structure Order where
  separator : Option UInt8 := none
  keys : List Key := []
  /-- Lines with the same keys are not compared as a whole. -/
  keysOnly : Bool := false
  reverse : Bool := false

/-- The order of two lines. -/
def Order.compare (o : Order) (a b : Bytes) : Ordering :=
  let byKeys := o.keys.foldl (fun r k =>
    r.then (k.ordered.compareKeys (k.of o.separator a) (k.of o.separator b))) .eq
  if o.keysOnly && !o.keys.isEmpty then byKeys
  else
    let whole := compareBytes a b
    byKeys.then (if o.reverse then whole.swap else whole)

/-- Lines without those that are the same as the line before. -/
def Order.distinct (o : Order) (lines : List Bytes) : List Bytes :=
  (lines.foldl (fun kept line =>
    match kept with
    | last :: _ => if o.compare last line = .eq then kept else line :: kept
    | [] => [line]) []).reverse

/-! ## Options -/

/-- The number at the start of a key's place, and what follows. -/
def count? (text : Bytes) : Option (Nat × Bytes) :=
  let ds := text.takeWhile ByteClass.isDigit
  if ds.isEmpty then none else some (ByteClass.decimalValue ds, text.drop ds.length)

/-- The measure that a letter stands for. -/
def measure? (letter : UInt8) : Option Measure :=
  [((0x67 : UInt8), Measure.general), (0x68, .human), (0x4D, .month), (0x6E, .numeric),
    (0x52, .random), (0x56, .version)].lookup letter

/-- A letter for a way to compare. -/
def Ordered.with? (o : Ordered) (letter : UInt8) : Option Ordered :=
  match measure? letter with
  | some m => some (if o.measures.contains m then o else { o with measures := o.measures ++ [m] })
  | none =>
    if letter = 0x64 then some { o with selection := .dictionary }
    else if letter = 0x66 then some { o with fold := true }
    else if letter = 0x69 then
      some (if o.selection = .all then { o with selection := .printable } else o)
    else if letter = 0x72 then some { o with reverse := true }
    else none

/-- The letters behind a place: whether blanks are passed over there, and the ways to
compare. -/
def placeLetters (o : Ordered) (blanks : Bool) : Bytes → Ordered × Bool × Bytes
  | [] => (o, blanks, [])
  | b :: rest =>
    if b = 0x62 then placeLetters o true rest
    else match o.with? b with
      | some o => placeLetters o blanks rest
      | none => (o, blanks, b :: rest)

/-- The key that the value of an option gives, or what is wrong with it. -/
def Key.read (value : Bytes) : Except Bytes Key :=
  let wrong (what : String) : Bytes :=
    lit what ++ lit ": invalid field specification " ++ Quoting.plain value
  let noCount (what : String) (rest : Bytes) : Bytes :=
    lit "invalid number " ++ lit what ++ lit ": invalid count at start of " ++ Quoting.plain rest
  let pointed (rest : Bytes) : Except Bytes (Option Nat × Bytes) :=
    match rest with
    | 0x2E :: rest => match count? rest with
      | some (n, rest) => .ok (some n, rest)
      | none => .error (noCount "after '.'" rest)
    | rest => .ok (none, rest)
  match count? value with
  | none => .error (noCount "at field start" value)
  | some (0, _) => .error (wrong "field number is zero")
  | some (field + 1, rest) => do
    let (byte, rest) ← pointed rest
    if byte = some 0 then throw (wrong "character offset is zero")
    let (o, blanks, rest) := placeLetters {} false rest
    let first : Place := ⟨field, byte.getD 1 - 1, blanks⟩
    match rest with
    | [] => return { first := first, ordered := o }
    | 0x2C :: rest =>
      match count? rest with
      | none => throw (noCount "after ','" rest)
      | some (0, _) => throw (wrong "field number is zero")
      | some (field + 1, rest) =>
        let (byte, rest) ← pointed rest
        let (o, blanks, rest) := placeLetters o false rest
        if rest.isEmpty then
          return { first := first, last := some ⟨field, byte.getD 0, blanks⟩, ordered := o }
        else throw (wrong "stray character in field spec")
    | _ => throw (wrong "stray character in field spec")

/-- The letters that stand for a way to compare. -/
def Ordered.letters (o : Ordered) : Bytes :=
  let has (m : Measure) : Bool := o.measures.contains m
  [(o.selection == .dictionary, "d"), (o.fold, "f"), (has .general, "g"), (has .human, "h"),
    (o.selection == .printable, "i"), (has .month, "M"), (has .numeric, "n"), (has .random, "R"),
    (has .version, "V")].flatMap fun e => if e.1 then lit e.2 else []

/-- The ways to compare do not go together. -/
def Ordered.conflicts (o : Ordered) : Bool :=
  let kinds := o.measures.filter fun m => m != .random && m != .version
  1 < kinds.length + (if kinds.length < o.measures.length || o.selection != .all then 1 else 0)

/-- Refuse options that do not go together. -/
def incompatible {α : Type} (letters : Bytes) : Routine α :=
  giveUp 2 (lit "options '-" ++ letters ++ lit "' are incompatible")

/-- The options. -/
def options : List Spec :=
  [flag 'b' "ignore-leading-blanks", flag 'd' "dictionary-order", flag 'f' "ignore-case",
    flag 'g' "general-numeric-sort", flag 'h' "human-numeric-sort", flag 'i' "ignore-nonprinting",
    flag 'M' "month-sort", flag 'n' "numeric-sort", flag 'R' "random-sort", flag 'r' "reverse",
    flag 'V' "version-sort", perhapsValued '1' "check", flag 'c', flag 'C', valued 'k' "key",
    flag 'm' "merge", valued 'o' "output", flag 's' "stable", valued 'S' "buffer-size",
    valued 't' "field-separator", valued 'T' "temporary-directory", flag 'u' "unique",
    flag 'z' "zero-terminated", valued '2' "sort", valued '3' "parallel", valued '4' "batch-size",
    valued 'y']

/-- The byte that separates fields. -/
def separator (p : Parsed) : Routine (Option UInt8) :=
  (p.given.filter (·.letter = 't')).foldlM (fun (before : Option UInt8) g => do
    let s ← match g.value with
      | [] => giveUp 2 (lit "empty tab")
      | [b] => pure b
      | value =>
        if value = lit "\\0" then pure (0 : UInt8)
        else giveUp 2 (lit "multi-character tab " ++ Quoting.plain value)
    if before.any (· != s) then giveUp 2 (lit "incompatible tabs")
    return some s) none

/-- How lines are compared. A key without letters of its own is compared as the options
say. -/
def order (p : Parsed) : Routine Order := do
  let keys ← (p.given.filter (·.letter = 'k')).mapM fun g =>
    match Key.read g.value with
    | .ok k => pure k
    | .error e => giveUp 2 e
  let separator ← separator p
  let named ← (p.given.filter (·.letter = '2')).mapM fun g =>
    choice "--sort" [(["general-numeric"], (0x67 : UInt8)), (["human-numeric"], 0x68),
      (["month"], 0x4D), (["numeric"], 0x6E), (["random"], 0x52), (["version"], 0x56)] g.value
  let letters := (p.given.map fun g => UInt8.ofNat g.letter.toNat) ++ named
  let general := letters.foldl (fun (o : Ordered) l => (o.with? l).getD o) {}
  let blanks := p.has 'b'
  let inherit_ (k : Key) : Key :=
    if k.ordered = {} && !k.first.pastBlanks && !(k.last.any Place.pastBlanks) then
      { k with
        ordered := general
        first := { k.first with pastBlanks := blanks }
        last := k.last.map fun l => { l with pastBlanks := blanks } }
    else k
  let keys := keys.map inherit_
  let keys := if keys.isEmpty && (blanks || general != {}) then [inherit_ {}] else keys
  match keys.find? (·.ordered.conflicts) with
  | some k => incompatible k.ordered.letters
  | none => return ⟨separator, keys, p.has 'u' || p.has 's', p.has 'r'⟩

/-! ## Reading and writing -/

/-- The words for a file and what failed. -/
def failed (what : String) (path : Bytes) (e : Errno) : Bytes := lit what ++ lit ": " ++ plainly path e

/-- Open an input. -/
def openFor (what : String) (path : Bytes) : Routine (Option Nat) := do
  match ← openInput path with
  | .ok d => return d
  | .error e => giveUp 2 (failed what path e)

/-- The lines of an opened input. -/
def readLines (ending : UInt8) (path : Bytes) (d : Option Nat) : Routine (List Bytes) := do
  match ← readAll d with
  | .ok data => return (linesOf ending data).map (chomp ending)
  | .error e => giveUp 2 (failed "read failed" path e)

/-- See that all inputs are there. -/
def checkInputs (paths : List Bytes) : Routine Unit := do
  let (files, view) ← look
  for path in paths do
    if !isStandardInput path then
      if let .error e := files.resolveNode view path then
        giveUp 2 (failed "cannot read" path e)

/-- The lines of all inputs, those of each input for themselves. -/
def readInputs (ending : UInt8) (merged : Bool) (paths : List Bytes) : Routine (List (List Bytes)) :=
  paths.zipIdx.mapM fun (path, i) => do
    let d ← openFor "open failed" path
    if i = 0 && !merged && paths.contains standardInput && !(← hasInput) then
      giveUp 2 (failed "stat failed" standardInput .badDescriptor)
    let lines ← readLines ending path d
    closeInput path d
    return lines

/-- The bytes that are written at a time. -/
def block : Nat := 4096

/-- Write the sorted lines to the output. -/
def writeOutput (path : Option Bytes) (data : Bytes) : Routine Unit := do
  let d ← match path with
    | none => standard 1
    | some path =>
      match ← openPath path .write with
      | .ok d => pure (some d)
      | .error e => giveUp 2 (failed "open failed" path e)
  match ← writeAll d data.length data with
  | .ok () => pure ()
  | .error e =>
    let what := if data.length < block then "fflush failed" else "write failed"
    complain (failed what (path.getD (lit "standard output")) e)
    giveUp 2 (if e = .badDescriptor then writeError e else lit "write error")

/-- The place of the first line that is out of order, counted from one, and the line. -/
def disorder? (o : Order) (unique : Bool) (lines : List Bytes) : Option (Nat × Bytes) :=
  let isBad (a b : Bytes) : Bool :=
    match o.compare a b with
    | .gt => true
    | .eq => unique
    | .lt => false
  (((lines.zip (lines.drop 1)).zipIdx 2).find? fun r => isBad r.1.1 r.1.2).map fun r => (r.2, r.1.2)

/-- Check whether an input is in order. -/
def check (o : Order) (ending : UInt8) (quiet unique : Bool) (path : Bytes) : Routine Unit := do
  let lines ← readLines ending path (← openFor "open failed" path)
  match disorder? o unique lines with
  | none => exit 0
  | some (n, line) =>
    if !quiet then
      complain (path ++ lit ":" ++ digits n ++ lit ": disorder: " ++ line)
    exit 1

end Sorting

open Sorting in
/-- Sort the lines of the inputs. -/
def sort : Utility := fun args => do
  let p ← arguments Sorting.options 2 args
  let quiet ← match p.value? '1' with
    | none | some [] => pure (p.has 'C')
    | some v => choice "--check" [(["quiet", "silent"], true), (["diagnose-first"], false)] v
  let checks := p.has 'c' || p.has 'C' || p.has '1'
  if p.has 'c' && p.has 'C' then Sorting.incompatible (lit "cC")
  match p.given.filter (·.letter = 'o') with
  | a :: b :: _ =>
    if a.value != b.value then giveUp 2 (lit "multiple output files specified")
  | _ => pure ()
  let o ← Sorting.order p
  let ending := if p.has 'z' then 0 else lineFeed
  let paths := inputsOf p.operands
  if checks then
    match paths.drop 1 with
    | extra :: _ =>
      giveUp 2 (lit "extra operand " ++ Quoting.plain extra ++ lit " not allowed with -"
        ++ lit (if quiet then "C" else "c"))
    | _ => pure ()
    if p.has 'o' then Sorting.incompatible (lit (if quiet then "Co" else "co"))
    Sorting.check o ending quiet (p.has 'u') (paths.headD standardInput)
  Sorting.checkInputs paths
  let output := p.value? 'o'
  if let some path := output then
    match ← openPath path .append with
    | .ok d => close d
    | .error e => giveUp 2 (Sorting.failed "open failed" path e)
  let inputs ← Sorting.readInputs ending (p.has 'm') paths
  let le (a b : Bytes) : Bool := o.compare a b != .gt
  let sorted :=
    if p.has 'm' then inputs.foldl (fun a b => a.merge b le) []
    else inputs.flatten.mergeSort le
  let sorted := if p.has 'u' then o.distinct sorted else sorted
  Sorting.writeOutput output (sorted.flatMap (· ++ [ending]))

end LineShell.Program
