import LineShell.Program.Line

/-!
# Patterns

A `Pattern` is a regular expression over bytes. `Pattern.ends` gives every place at which
a match that begins at a given place can end, and `Pattern.parse` reads a pattern in the
basic or the extended notation.
-/

namespace LineShell.Program

/-- A regular expression. -/
inductive Pattern where
  | empty
  /-- One byte out of a set, or out of its complement. -/
  | byte (inside : Bool) (set : Bytes)
  | lineStart
  | lineEnd
  /-- A place between bytes, by whether the bytes before and behind it are in a word. -/
  | edge (fits : Bool → Bool → Bool)
  | append (a b : Pattern)
  | either (a b : Pattern)
  /-- A part whose match is remembered. -/
  | group (a : Pattern)
  /-- At least `least` times, and at most `most` times if that is given. -/
  | times (a : Pattern) (least : Nat) (most : Option Nat)

namespace Pattern

/-- Apply a step to places, so often as it leads to new places, and at most `fuel` times. -/
def closure (step : Nat → List Nat) : (fuel : Nat) → List Nat → List Nat → List Nat
  | 0, seen, _ => seen
  | fuel + 1, seen, fresh =>
    let next := (fresh.flatMap step).eraseDups.filter (!seen.contains ·)
    if next.isEmpty then seen else closure step fuel (seen ++ next) next

/-- The byte at a place of a text is in a word. -/
def isInWord (text : Array UInt8) (i : Nat) : Bool := (text[i]?).any ByteClass.isWord

/-- The byte before a place of a text is in a word. -/
def isBehindWord (text : Array UInt8) (i : Nat) : Bool := i != 0 && isInWord text (i - 1)

/-- The places in `text` at which a match that begins at `i` can end. -/
def ends (text : Array UInt8) : Pattern → Nat → List Nat
  | .empty, i => [i]
  | .byte inside set, i =>
    match text[i]? with
    | some b => if set.contains b = inside then [i + 1] else []
    | none => []
  | .lineStart, i => if i = 0 then [i] else []
  | .lineEnd, i => if i = text.size then [i] else []
  | .edge fits, i => if fits (isBehindWord text i) (isInWord text i) then [i] else []
  | .append a b, i => ((ends text a i).flatMap (ends text b)).eraseDups
  | .either a b, i => (ends text a i ++ ends text b i).eraseDups
  | .group a, i => ends text a i
  | .times a least most, i =>
    let once (is : List Nat) : List Nat := (is.flatMap (ends text a)).eraseDups
    let first := (List.range least).foldl (fun is _ => once is) [i]
    match most with
    | none => closure (ends text a) (text.size + 1) first first
    | some m =>
      ((List.range (m - least)).foldl (fun (r : List Nat × List Nat) _ =>
        let next := once r.2
        ((r.1 ++ next).eraseDups, next)) (first, first)).1

/-- The longest match that begins at `i`. -/
def longest? (p : Pattern) (line : Array UInt8) (i : Nat) : Option Nat :=
  (ends line p i).max?

/-- The first place at or behind `i` for which `f` has an answer. -/
def firstFrom {α : Type} (line : Array UInt8) (f : Nat → Option α) (i : Nat) : Option α :=
  ((List.range (line.size + 1 - i)).map (· + i)).findSome? f

/-- The first match at or behind `i`, and the longest there: its start and its end. -/
def search? (p : Pattern) (line : Array UInt8) (i : Nat) : Option (Nat × Nat) :=
  firstFrom line (fun i => (p.longest? line i).map fun j => (i, j)) i

/-- The last match of the first group in a match from `i` to `j`. -/
def captured? (line : Array UInt8) : Pattern → Nat → Nat → Option (Nat × Nat)
  | .group _, i, j => some (i, j)
  | .append a b, i, j => do
    let k ← ((ends line a i).filter fun k => (ends line b k).contains j).max?
    (captured? line a i k).or (captured? line b k j)
  | .either a b, i, j =>
    if (ends line a i).contains j then captured? line a i j else captured? line b i j
  | .times a least most, i, j =>
    let starts := (List.range (j + 1)).filter fun k =>
      i ≤ k && (ends line (.times a (least - 1) (most.map (· - 1))) i).contains k
        && (ends line a k).contains j
    starts.min?.bind fun k => captured? line a k j
  | _, _, _ => none

/-- The pattern has a group. -/
def hasGroup : Pattern → Bool
  | .group _ => true
  | .append a b => hasGroup a || hasGroup b
  | .either a b => hasGroup a || hasGroup b
  | .times a _ _ => hasGroup a
  | _ => false

/-! ## Notation -/

/-- What is wrong with a pattern. -/
inductive Fault where
  | pattern
  | bracket
  | group
  | closing
  | brace
  | bounds
  | range
  | className
  | classSyntax
  | backslash
  | back
  | size
deriving DecidableEq, Repr

/-- The words for a fault. -/
def Fault.words : Fault → Bytes
  | .pattern => lit "Invalid regular expression"
  | .bracket => lit "Unmatched [, [^, [:, [., or [="
  | .group => lit "Unmatched ( or \\("
  | .closing => lit "Unmatched ) or \\)"
  | .brace => lit "Unmatched \\\x7b"
  | .bounds => lit "Invalid content of \\\x7b\\\x7d"
  | .range => lit "Invalid range end"
  | .className => lit "Invalid character class name"
  | .classSyntax => lit "character class syntax is [[:space:]], not [:space:]"
  | .backslash => lit "Trailing backslash"
  | .back => lit "Invalid back reference"
  | .size => lit "Regular expression too big"

/-- One element in brackets: its bytes, or the byte that it stands for, and what follows. -/
def bracketElement : Bytes → Except Fault (Bytes × Bytes)
  | 0x5B :: mark :: rest =>
    if mark = 0x3A || mark = 0x3D || mark = 0x2E then
      let name := rest.takeWhile (· != mark)
      match rest.drop name.length with
      | _ :: 0x5D :: rest =>
        if mark = 0x3A then
          match ByteClass.named? name with
          | some f => .ok (ByteClass.all.filter f, rest)
          | none => .error .className
        else if name.length = 1 then .ok (name, rest)
        else .error .pattern
      | _ => .error .bracket
    else .ok ([0x5B], mark :: rest)
  | b :: rest => .ok ([b], rest)
  | [] => .error .bracket

/-- The set in brackets, behind the opening bracket: the set and what follows it. Every
step takes a byte off. -/
def bracket : Nat → (first : Bool) → Bytes → Except Fault (Bytes × Bytes)
  | 0, _, _ => .error .bracket
  | _, first, [] => .error (if first then .pattern else .bracket)
  | fuel + 1, first, text => do
    if !first && text.head? = some 0x5D then return ([], text.drop 1)
    let (set, rest) ← bracketElement text
    match rest with
    | 0x2D :: last :: more =>
      if last = 0x5D then
        let r ← bracket fuel false rest
        return (set ++ r.1, r.2)
      else
        let (ending, rest) ← bracketElement (last :: more)
        match set, ending with
        | [a], [b] =>
          if b < a then throw .range
          let r ← bracket fuel false rest
          return (ByteClass.range a b ++ r.1, r.2)
        | _, _ => throw .range
    | rest =>
      let r ← bracket fuel false rest
      return (set ++ r.1, r.2)

/-- The most times that bounds can ask for. -/
def mostTimes : Nat := 32767

/-- The bounds in braces, behind the opening brace, and what follows. -/
def bounds (extended : Bool) (rest : Bytes) : Except Fault (Nat × Option Nat × Bytes) := do
  let low := rest.takeWhile ByteClass.isDigit
  let rest := rest.drop low.length
  let least := ByteClass.decimalValue low
  let (most, rest) : Option Nat × Bytes := match rest with
    | 0x2C :: rest =>
      let high := rest.takeWhile ByteClass.isDigit
      (if high.isEmpty then none else some (ByteClass.decimalValue high), rest.drop high.length)
    | rest => (some least, rest)
  if low.isEmpty && most = some least then throw (if rest.isEmpty then .brace else .bounds)
  let rest ← match extended, rest with
    | true, 0x7D :: rest => pure rest
    | false, 0x5C :: 0x7D :: rest => pure rest
    | _, [] => throw .brace
    | _, _ => throw .bounds
  if most.any (· < least) then throw .bounds
  if mostTimes < least || most.any (mostTimes < ·) then throw .size
  return (least, most, rest)

/-- What an operator of a notation is. -/
inductive Mark where
  | star
  | plus
  | optional
  | bounds
  | bar
  | openGroup
  | closeGroup
deriving DecidableEq

/-- The operator at the front of a pattern, and what follows it. In the basic notation
all but the star need a backslash, in the extended one a backslash makes them plain. -/
def mark? (extended : Bool) : Bytes → Option (Mark × Bytes)
  | 0x2A :: rest => some (.star, rest)
  | b :: rest =>
    let ofByte (b : UInt8) : Option Mark :=
      [((0x2B : UInt8), Mark.plus), (0x3F, .optional), (0x7B, .bounds), (0x7C, .bar),
        (0x28, .openGroup), (0x29, .closeGroup)].lookup b
    if extended then (ofByte b).map (·, rest)
    else match b, rest with
      | 0x5C, c :: rest => (ofByte c).map (·, rest)
      | _, _ => none
  | [] => none

/-- The bounds and what follows them, if an operator for them is at the front. Braces that
hold no bounds are plain in the extended notation. -/
def times? (extended : Bool) (rest : Bytes) : Except Fault (Option (Nat × Option Nat × Bytes)) :=
  match mark? extended rest with
  | some (.star, rest) => .ok (some (0, none, rest))
  | some (.plus, rest) => .ok (some (1, none, rest))
  | some (.optional, rest) => .ok (some (0, some 1, rest))
  | some (.bounds, inner) =>
    match bounds extended inner with
    | .ok r => .ok (some r)
    | .error e =>
      if extended && (e = .brace || (e = .bounds && !(inner.contains 0x7D && inner.headD 0 ∈ lit "0123456789")))
      then .ok none else .error e
  | _ => .ok none

/-- Read the repetitions behind an atom. -/
def repeated (extended : Bool) : Nat → Pattern → Bytes → Except Fault (Pattern × Bytes)
  | 0, p, rest => .ok (p, rest)
  | fuel + 1, p, rest => do
    match ← times? extended rest with
    | some (least, most, rest) => repeated extended fuel (.times p least most) rest
    | none => return (p, rest)

/-- What a letter behind a backslash stands for, if for more than itself. -/
def escaped? (b : UInt8) : Option Pattern :=
  let word (f : UInt8 → Bool) : Bytes := ByteClass.all.filter f
  [((0x77 : UInt8), Pattern.byte true (word ByteClass.isWord)), (0x57, .byte false (word ByteClass.isWord)),
    (0x73, .byte true (word ByteClass.isSpace)), (0x53, .byte false (word ByteClass.isSpace)),
    (0x62, .edge (· != ·)), (0x42, .edge (· == ·)), (0x3C, .edge fun a b => !a && b),
    (0x3E, .edge fun a b => a && !b), (0x60, .lineStart), (0x27, .lineEnd)].lookup b

/-- Read a pattern up to the end, or up to the end of the group it stands in. Every step
takes a byte off, so as much fuel as there are bytes is enough. -/
def parseFrom (extended : Bool) : Nat → (depth : Nat) → (start : Bool) → Pattern → Bytes →
    Except Fault (Pattern × Bytes)
  | 0, _, _, p, rest => .ok (p, rest)
  | _, _, _, p, [] => .ok (p, [])
  | fuel + 1, depth, start, p, b :: more => do
    let go (q : Pattern) (rest : Bytes) : Except Fault (Pattern × Bytes) := do
      let r ← repeated extended rest.length q rest
      parseFrom extended fuel depth false (.append p r.1) r.2
    let atom : Except Fault (Pattern × Bytes) :=
      if b = 0x2E then go (.byte false []) more
      else if b = 0x5E && (start || extended) then
        parseFrom extended fuel depth true (.append p .lineStart) more
      else if b = 0x24 && (extended || more.isEmpty || (mark? extended more).any fun m =>
          m.1 = .bar || m.1 = .closeGroup) then
        parseFrom extended fuel depth false (.append p .lineEnd) more
      else if b = 0x5B then do
        let (inside, body) := match more with
          | 0x5E :: rest => (false, rest)
          | rest => (true, rest)
        let (set, rest) ← bracket (body.length + 1) true body
        let inner := (b :: more).take (more.length + 1 - rest.length)
        if (lit "[:").isPrefixOf inner && (lit ":]").isSuffixOf inner then throw .classSyntax
        go (.byte inside set) rest
      else if b = 0x5C then
        match more with
        | c :: rest =>
          if ByteClass.isDigit c && c != 0x30 then .error .back
          else go ((escaped? c).getD (.byte true [c])) rest
        | [] => .error .backslash
      else go (.byte true [b]) more
    match mark? extended (b :: more) with
    | some (.closeGroup, rest) =>
      if 0 < depth then return (p, b :: more)
      else if extended then go (.byte true [b]) rest
      else throw .closing
    | some (.bar, rest) =>
      let (q, rest) ← parseFrom extended fuel depth true .empty rest
      return (.either p q, rest)
    | some (.openGroup, rest) =>
      let (q, rest) ← parseFrom extended fuel (depth + 1) true .empty rest
      match mark? extended rest with
      | some (.closeGroup, rest) => go (.group q) rest
      | _ => throw .group
    | some (.star, rest) =>
      if !start then atom
      else if extended then parseFrom extended fuel depth true p rest
      else go (.byte true [b]) rest
    | some (_, rest) =>
      if !start then atom
      else if extended then
        match ← times? extended (b :: more) with
        | some (_, _, rest) => parseFrom extended fuel depth true p rest
        | none => atom
      else go (.byte true ((b :: more).drop 1 |>.take 1)) rest
    | none => atom

/-- Read a pattern. -/
def parse (extended : Bool) (b : Bytes) : Except Fault Pattern :=
  (parseFrom extended (b.length + 1) 0 true .empty b).map Prod.fst

/-- The pattern that matches given bytes alone. -/
def exactly (b : Bytes) : Pattern :=
  b.foldr (fun b p => .append (.byte true [b]) p) .empty

/-- The pattern with the letters of both cases wherever it has one. -/
def foldCase : Pattern → Pattern
  | .byte inside set => .byte inside (set ++ set.map ByteClass.lower ++ set.map ByteClass.upper)
  | .append a b => .append (foldCase a) (foldCase b)
  | .either a b => .either (foldCase a) (foldCase b)
  | .group a => .group (foldCase a)
  | .times a n m => .times (foldCase a) n m
  | p => p

end Pattern

end LineShell.Program
