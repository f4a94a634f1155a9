import LineShell.Program.Arguments

/-!
# Translating bytes

`tr` changes bytes into others, deletes bytes, or leaves one of each run of a byte. Its
operands name bytes one by one, in ranges, in classes, or as often as told. They are read
into `Element`s, which are checked and then spelled out.
-/

namespace LineShell.Program

open Routine Arguments

namespace Translate

/-- A piece of an operand. -/
inductive Element where
  | byte (b : UInt8)
  | range (first last : UInt8)
  /-- A named class, with the bytes in it. -/
  | group (name : Bytes) (members : Bytes)
  | equals (b : UInt8)
  /-- A byte so many times, or so often as it takes to fill the operand. -/
  | copies (b : UInt8) (count : Option Nat)
deriving DecidableEq, Repr

/-- A byte of an operand, and whether a backslash stood before it. -/
structure Letter where
  byte : UInt8
  escaped : Bool := false
deriving DecidableEq, Repr

/-- The letters of an operand, and warnings about it. -/
def letters : Bytes → List Letter × Bytes
  | [] => ([], [])
  | 0x5C :: a :: rest =>
    if ByteClass.isOctal a then
      match rest with
      | b :: c :: rest' =>
        if ByteClass.isOctal b && ByteClass.isOctal c then
          let n := ByteClass.octalValue [a, b, c]
          if n < 256 then add (UInt8.ofNat n) (letters rest')
          else
            let r := add (UInt8.ofNat (ByteClass.octalValue [a, b])) (letters (c :: rest'))
            (r.1, lit "warning: the ambiguous octal escape \\" ++ [a, b, c]
              ++ lit " is being\n\tinterpreted as the 2-byte sequence \\0" ++ [a, b] ++ lit ", " ++ [c]
              ++ lit "\n" ++ r.2)
        else if ByteClass.isOctal b then
          add (UInt8.ofNat (ByteClass.octalValue [a, b])) (letters (c :: rest'))
        else add (UInt8.ofNat (ByteClass.octalValue [a])) (letters (b :: c :: rest'))
      | [b] =>
        if ByteClass.isOctal b then add (UInt8.ofNat (ByteClass.octalValue [a, b])) ([], [])
        else add (UInt8.ofNat (ByteClass.octalValue [a])) (letters [b])
      | [] => add (UInt8.ofNat (ByteClass.octalValue [a])) ([], [])
    else add ((ByteClass.escaped? a).getD a) (letters rest)
  | [0x5C] => ([⟨0x5C, false⟩], lit "warning: an unescaped backslash at end of string is not portable\n")
  | b :: rest =>
    let r := letters rest
    (⟨b, false⟩ :: r.1, r.2)
where
  /-- Put an escaped byte in front. -/
  add (b : UInt8) (r : List Letter × Bytes) : List Letter × Bytes := (⟨b, true⟩ :: r.1, r.2)

/-- The letter is this byte and nothing else. -/
def Letter.is (l : Letter) (b : UInt8) : Bool := l.byte = b && !l.escaped

/-- The bytes of letters. -/
def bytesOf (ls : List Letter) : Bytes := ls.map Letter.byte

/-- A byte as a message shows it. -/
def shown (b : UInt8) : Bytes :=
  if ByteClass.isPrintable b then [b] else 0x5C :: Quoting.octal b

/-- The letters up to a mark and a closing bracket, and what follows them. -/
def upToMark (mark : UInt8) : List Letter → Option (List Letter × List Letter)
  | a :: b :: rest =>
    if a.is mark && b.is 0x5D then some ([], rest)
    else (upToMark mark (b :: rest)).map fun r => (a :: r.1, r.2)
  | _ => none

/-- The number of copies in brackets behind the star, and what follows the closing
bracket. -/
def copyCount (rest : List Letter) : Option (Except Bytes (Option Nat) × List Letter) :=
  let plain := rest.takeWhile fun l => !l.escaped && l.byte != 0x5D
  match rest.drop plain.length with
  | close :: after =>
    if !close.is 0x5D then none
    else
      let ds := bytesOf plain
      let octal := ds.head? = some 0x30
      let good := if octal then ds.all ByteClass.isOctal else ds.all ByteClass.isDigit
      let n := if octal then ByteClass.octalValue ds else ByteClass.decimalValue ds
      if ds.isEmpty then some (.ok none, after)
      else if good && n < amountBound then some (.ok (if n = 0 then none else some n), after)
      else some (.error (lit "invalid repeat count " ++ Quoting.plain ds
        ++ lit " in [c*n] construct"), after)
  | [] => none

/-- A star, digits and a closing bracket follow. -/
def starFollows : List Letter → Bool
  | star :: rest =>
    star.is 0x2A && match rest.dropWhile fun l => ByteClass.isDigit l.byte with
      | l :: _ => l.is 0x5D
      | [] => false
  | [] => false

/-- What stands in brackets, if it is something of its own, and what follows it. The letters
are those behind the opening bracket. -/
def bracketed? : List Letter → Option (Except Bytes (Element × List Letter))
  | mark :: rest =>
    let asCopies : Option (Except Bytes (Element × List Letter)) :=
      match rest with
      | star :: rest =>
        if !star.is 0x2A then none
        else (copyCount rest).map fun (count, after) => count.map fun n => (.copies mark.byte n, after)
      | [] => none
    let named : Option (List Letter × List Letter) :=
      if mark.is 0x3A || mark.is 0x3D then upToMark mark.byte rest else none
    match named with
    | none => asCopies
    | some (inner, after) =>
      let name := bytesOf inner
      if mark.is 0x3A then
        match ByteClass.named? name with
        | some f => some (.ok (.group name (ByteClass.all.filter f), after))
        | none =>
          if name.isEmpty then some (.error (lit "missing character class name '[::]'"))
          else if starFollows rest then asCopies
          else some (.error (lit "invalid character class " ++ Quoting.plain name))
      else
        match name with
        | [] => some (.error (lit "missing equivalence class character '[==]'"))
        | [b] => some (.ok (.equals b, after))
        | name =>
          if starFollows rest then asCopies
          else some (.error (name ++ lit ": equivalence class operand must be a single character"))
  | [] => none

/-- The elements of an operand. Every step takes a letter off, so as much fuel as there are
letters is enough. -/
def elements : Nat → List Letter → Except Bytes (List Element)
  | 0, _ => .ok []
  | _, [] => .ok []
  | fuel + 1, a :: rest =>
    let inBrackets := if a.is 0x5B then bracketed? rest else none
    match inBrackets with
    | some (.error e) => .error e
    | some (.ok (element, rest)) => (elements fuel rest).map (element :: ·)
    | none =>
      match rest with
      | d :: b :: rest =>
        if d.is 0x2D then
          if b.byte < a.byte then
            .error (lit "range-endpoints of '" ++ shown a.byte ++ lit "-" ++ shown b.byte
              ++ lit "' are in reverse collating sequence order")
          else (elements fuel rest).map (.range a.byte b.byte :: ·)
        else (elements fuel (d :: b :: rest)).map (.byte a.byte :: ·)
      | rest => (elements fuel rest).map (.byte a.byte :: ·)

/-- The bytes of an element. One that fills its operand has none of its own. -/
def Element.bytes : Element → Bytes
  | .byte b => [b]
  | .range a b => ByteClass.range a b
  | .group _ members => members
  | .equals b => [b]
  | .copies b count => List.replicate (count.getD 0) b

/-- The bytes of an operand. -/
def bytes (es : List Element) : Bytes := es.flatMap Element.bytes

/-- The element fills its operand. -/
def Element.fills : Element → Bool
  | .copies _ none => true
  | _ => false

/-- The element is a class. -/
def Element.isGroup : Element → Bool
  | .group .. => true
  | _ => false

/-- The element is the class of the capitals or that of the small letters. -/
def Element.isCase : Element → Bool
  | .group name _ => name = lit "upper" || name = lit "lower"
  | _ => false

/-- Give an element that fills its operand so many copies that the operand is as long as
another. -/
def filled (length : Nat) (es : List Element) : List Element :=
  let missing := length - (bytes es).length
  es.map fun e => match e with
    | .copies b none => .copies b (some missing)
    | e => e

/-- The places at which the elements of an operand begin, with whether an element is the
class of a case. -/
def starts (es : List Element) : List (Nat × Bool) :=
  (es.foldl (fun (n, found) e =>
    (n + e.bytes.length, if e.bytes.isEmpty then found else (n, e.isCase) :: found))
    (0, ([] : List (Nat × Bool)))).2.reverse

/-- Each class of a case in the second operand has one in the first that begins at the same
place. -/
def aligned (first second : List Element) : Bool :=
  let length := (bytes first).length
  (starts second).all fun (n, isCase) => !isCase || length ≤ n || (starts first).contains (n, true)

/-- What `tr` is to do. -/
structure Task where
  complement : Bool
  deletes : Bool
  squeezes : Bool
  truncates : Bool

/-- The bytes that the first operand stands for. -/
def Task.source (t : Task) (first : List Element) : Bytes :=
  if t.complement then
    let named := bytes first
    ByteClass.all.filter fun b => !named.contains b
  else bytes first

/-- The bytes of the second operand, as long as those of the first, or what is wrong with
the operands. -/
def Task.target (t : Task) (first second : List Element) : Except Bytes Bytes := do
  let source := t.source first
  let second := filled source.length second
  let target := bytes second
  if second.any fun e => match e with | .equals _ => true | _ => false then
    throw (lit "[=c=] expressions may not appear in string2 when translating")
  if second.any fun e => e.isGroup && !e.isCase then
    throw (lit "when translating, the only character classes that may appear in\nstring2 are 'upper' and 'lower'")
  if !t.complement && !aligned first second then
    throw (lit "misaligned [:upper:] and/or [:lower:] construct")
  let extended ←
    if source.length ≤ target.length || t.truncates then pure target
    else match second.getLast?, target.getLast? with
      | some e, some last =>
        if e.isGroup then
          throw (lit "when translating with string1 longer than string2,\nthe latter string must not end with a character class")
        else pure (target ++ List.replicate (source.length - target.length) last)
      | _, _ => throw (lit "when not truncating set1, string2 must be non-empty")
  if t.complement && first.any Element.isGroup
      && !(extended.length = source.length && extended.all fun b => some b = extended.head?) then
    throw (lit "when translating with complemented character classes,\nstring2 must map all characters in the domain to one")
  return extended

/-- Change, delete and squeeze bytes. `last` is the byte that was passed on before. -/
structure Filter where
  change : UInt8 → Option UInt8
  squeezed : Bytes

/-- Pass a chunk on. -/
def Filter.apply (f : Filter) (last : Option UInt8) (data : Bytes) : Option UInt8 × Bytes :=
  let changed := data.filterMap f.change
  if f.squeezed.isEmpty then (none, changed)
  else
    let r := changed.foldl (fun (r : Option UInt8 × Bytes) b =>
      if r.1 = some b && f.squeezed.contains b then r else (some b, b :: r.2)) (last, [])
    (r.1, r.2.reverse)

/-- The filter for a task and its operands. -/
def Task.filter (t : Task) (first : List Element) (second : Option (List Element)) :
    Except Bytes Filter := do
  if first.any Element.fills then
    throw (lit "the [c*] repeat construct may not appear in string1")
  let source := t.source first
  let delete (b : UInt8) : Option UInt8 := if source.contains b then none else some b
  match second with
  | none => return ⟨if t.deletes then delete else some, if t.squeezes then source else []⟩
  | some second =>
    if 1 < (second.filter Element.fills).length then
      throw (lit "only one [c*] repeat construct may appear in string2")
    if t.deletes then
      if second.any Element.fills then
        throw (lit "the [c*] construct may appear in string2 only when translating")
      return ⟨delete, bytes second⟩
    else
      let target ← t.target first second
      let table := (source.zip target).reverse
      return ⟨fun b => some ((table.lookup b).getD b), if t.squeezes then target else []⟩

/-- The options. -/
def options : List Spec :=
  [flag 'c' "complement", flag 'C', flag 'd' "delete", flag 's' "squeeze-repeats",
    flag 't' "truncate-set1"]

/-- The elements of an operand. Warnings and errors in it are told. -/
def operand (text : Bytes) : Routine (List Element) := do
  let (ls, warnings) := letters text
  if !warnings.isEmpty then warn ((← frame).name ++ lit ": " ++ warnings)
  match elements ls.length ls with
  | .ok es => return es
  | .error e => giveUp 1 e

/-- See that there are as many operands as it takes. -/
def checkOperands (t : Task) (operands : List Bytes) : Routine Unit := do
  let least := if t.deletes = t.squeezes then 2 else 1
  let most := if t.deletes && !t.squeezes then 1 else 2
  if operands.length < least then
    match operands.getLast? with
    | none => complain (lit "missing operand")
    | some o =>
      complain (lit "missing operand after " ++ Quoting.plain o)
      warn (if t.squeezes then
          lit "Two strings must be given when both deleting and squeezing repeats.\n"
        else lit "Two strings must be given when translating.\n")
    pointToHelp 1
  if let some extra := operands[most]? then
    complain (lit "extra operand " ++ Quoting.plain extra)
    if operands.length = 2 then
      warn (lit "Only one string may be given when deleting without squeezing repeats.\n")
    pointToHelp 1

end Translate

open Translate in
/-- Change, delete or squeeze bytes. -/
def tr : Utility := fun args => do
  let p ← leadingArguments Translate.options 1 args
  let t : Task := ⟨p.has 'c' || p.has 'C', p.has 'd', p.has 's', p.has 't'⟩
  Translate.checkOperands t p.operands
  let operands ← p.operands.mapM Translate.operand
  match t.filter (operands.headD []) (operands[1]?) with
  | .error e => giveUp 1 e
  | .ok f =>
    match ← mapChunks (← standard 0) f.apply patience none with
    | (_, some e) => giveUp 1 (lit "read error: " ++ e.sentence)
    | (_, none) => exit 0

end LineShell.Program
