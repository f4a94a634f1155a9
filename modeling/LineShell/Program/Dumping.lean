import LineShell.Program.Arguments
import LineShell.Program.Formatting

/-!
# Dumping bytes

`od` shows the bytes of its inputs in blocks, a line for each form that it is told to show
them in. A `Field` says how the bytes of a block are grouped and written.
-/

namespace LineShell.Program

open Routine Arguments

namespace Dump

/-- How a group of bytes is written. -/
inductive Form where
  | octal
  | hexadecimal
  | signed
  | unsigned
  | character
  | named
deriving DecidableEq, Repr

/-- A form for groups of so many bytes, with the text of the block behind them or not. -/
structure Field where
  form : Form
  size : Nat := 1
  hasText : Bool := false

/-- The width of a group as it is written. -/
def Field.width (f : Field) : Nat :=
  let most := Nat.pow 2 (8 * f.size) - 1
  match f.form with
  | .octal => (Format.digitsTo 8 most).length
  | .hexadecimal => (Format.digitsTo 16 most).length
  | .signed => (digits (Nat.pow 2 (8 * f.size - 1))).length + 1
  | .unsigned => (digits most).length
  | .character | .named => 3

/-- The number of a group of bytes, of which the first counts least. -/
def number (group : Bytes) : Nat := group.foldr (fun b n => n * 256 + b.toNat) 0

/-- A byte as a character, an escape or octal digits. -/
def character (b : UInt8) : Bytes :=
  if b = 0 then lit "\\0"
  else match Quoting.escapeLetter? b with
    | some letter => [0x5C, letter]
    | none => if ByteClass.isPrintable b then [b] else Quoting.octal b

/-- The names of the bytes below the blank, and of the blank. -/
def names : List String :=
  ["nul", "soh", "stx", "etx", "eot", "enq", "ack", "bel", "bs", "ht", "nl", "vt", "ff", "cr",
    "so", "si", "dle", "dc1", "dc2", "dc3", "dc4", "nak", "syn", "etb", "can", "em", "sub", "esc",
    "fs", "gs", "rs", "us", "sp"]

/-- The name of a byte, of which the highest bit does not matter. -/
def name (b : UInt8) : Bytes :=
  let low := b.toNat % 128
  match names[low]? with
  | some n => lit n
  | none => if low = 127 then lit "del" else [UInt8.ofNat low]

/-- A text with zeros in front, up to a width. -/
def padZero (width : Nat) (text : Bytes) : Bytes :=
  List.replicate (width - text.length) 0x30 ++ text

/-- A group of bytes as it is written, but for blanks. -/
def Field.text (f : Field) (group : Bytes) : Bytes :=
  let n := number group
  match f.form with
  | .octal => padZero f.width (Format.digitsTo 8 n)
  | .hexadecimal => padZero f.width (Format.digitsTo 16 n)
  | .signed =>
    if n < Nat.pow 2 (8 * f.size - 1) then digits n else lit "-" ++ digits (Nat.pow 2 (8 * f.size) - n)
  | .unsigned => digits n
  | .character => character (group.headD 0)
  | .named => name (group.headD 0)

/-- What is shown, and how. -/
structure Rules where
  fields : List Field
  /-- The base of the offsets and their width, if they are shown. -/
  address : Option (Nat × Nat) := some (8, 7)
  block : Nat := 16
  showsAll : Bool := false

/-- An offset. -/
def Rules.offset (r : Rules) (n : Nat) : Bytes :=
  match r.address with
  | some (base, width) => padZero width (Format.digitsTo base n)
  | none => []

/-- The width of the widest line, but for the offset. -/
def Rules.width (r : Rules) : Nat :=
  ((r.fields.map fun f => (f.width + 1) * (r.block / f.size)).max?).getD 0

/-- A block in one form. Its groups are spread over the width of the widest line. -/
def Rules.line (r : Rules) (f : Field) (data : Bytes) : Bytes :=
  let fields := r.block / f.size
  let spread := r.width - f.width * fields
  let blank := (r.block - data.length) / f.size
  let padded := data ++ List.replicate (f.size - 1) 0
  let group (i : Nat) : Bytes :=
    let before := spread * (fields - i) / fields
    let after := spread * (fields - i - 1) / fields
    padLeft (before - after + f.width) (f.text ((padded.drop (i * f.size)).take f.size))
  let shown := (List.range (fields - blank)).flatMap group
  let text := if f.hasText then
      List.replicate (blank * (f.width + 1)) 0x20 ++ lit "  >"
        ++ data.map (fun b => if ByteClass.isPrintable b then b else 0x2E) ++ lit "<"
    else []
  shown ++ text ++ [lineFeed]

/-- A block in all forms. -/
def Rules.lines (r : Rules) (offset : Nat) (data : Bytes) : Bytes :=
  r.fields.zipIdx.flatMap fun (f, i) =>
    (if i = 0 then r.offset offset else List.replicate (r.offset 0).length 0x20) ++ r.line f data

/-- All blocks from an offset on. A full block that is the same as the one before is shown by a
star. Every block takes a byte off, so as much fuel as there are bytes is enough. -/
def Rules.blocks (r : Rules) : (fuel : Nat) → (offset : Nat) → (before : Option Bytes) →
    (starred : Bool) → Bytes → Bytes
  | 0, _, _, _, _ => []
  | fuel + 1, offset, before, starred, data =>
    let here := data.take r.block
    if here.isEmpty then []
    else
      let same := !r.showsAll && before = some here && here.length = r.block
      (if !same then r.lines offset here else if starred then [] else lit "*\n")
        ++ r.blocks fuel (offset + here.length) (some here) same (data.drop r.block)

/-- The offset behind the last block. -/
def Rules.last (r : Rules) (offset : Nat) : Bytes :=
  if r.address.isSome then r.offset offset ++ [lineFeed] else []

/-! ## Types -/

/-- The form that a letter of a type stands for. -/
def form? (letter : UInt8) : Option Form :=
  [((0x6F : UInt8), Form.octal), (0x78, .hexadecimal), (0x64, .signed), (0x75, .unsigned),
    (0x63, .character), (0x61, .named)].lookup letter

/-- The size that the front of a text gives, and what follows it. -/
def sizeAt (text : Bytes) : Option Nat × Bytes :=
  let ds := text.takeWhile ByteClass.isDigit
  if !ds.isEmpty then (some (ByteClass.decimalValue ds), text.drop ds.length)
  else match text with
    | 0x43 :: rest => (some 1, rest)
    | 0x53 :: rest => (some 2, rest)
    | 0x49 :: rest => (some 4, rest)
    | 0x4C :: rest => (some 8, rest)
    | _ => (none, text)

/-- The fields of a type, such as `x1z`, or what is wrong with it. Every round takes a letter
off, so as much fuel as there are letters is enough. -/
def fieldsFrom (whole : Bytes) : (fuel : Nat) → Bytes → Except Bytes (List Field)
  | 0, _ => .ok []
  | _, [] => .ok []
  | fuel + 1, letter :: rest => do
    match form? letter with
    | none =>
      .error (lit "invalid character '" ++ [letter] ++ lit "' in type string " ++ Quoting.plain whole)
    | some form =>
      let isText := form = .character || form = .named
      let (size, rest) := if isText then (some 1, rest) else sizeAt rest
      let size := size.getD 4
      if !([1, 2, 4, 8].contains size) then
        throw (lit "invalid type string " ++ Quoting.plain whole ++ lit ";\nthis system doesn't provide a "
          ++ digits size ++ lit "-byte integral type")
      let hasText := rest.head? = some 0x7A
      let others ← fieldsFrom whole fuel (if hasText then rest.drop 1 else rest)
      return ⟨form, size, hasText⟩ :: others

/-- The fields of a type. -/
def fields (type : Bytes) : Except Bytes (List Field) := fieldsFrom type type.length type

/-- The types that options without a value stand for. -/
def shortTypes : List (Char × String) :=
  [('a', "a"), ('b', "o1"), ('c', "c"), ('d', "u2"), ('h', "x2"), ('i', "dI"), ('l', "dL"),
    ('o', "o2"), ('s', "d2"), ('x', "x2")]

/-- The options. -/
def options : List Spec :=
  [valued 'A' "address-radix", valued 't' "format", valued 'N' "read-bytes",
    valued 'j' "skip-bytes", flag 'v' "output-duplicates", perhapsValued 'w' "width"]
    ++ shortTypes.map fun t => flag t.1

/-- The offsets that a letter asks for. -/
def address (letter : Bytes) : Routine (Option (Nat × Nat)) := do
  match letter with
  | [0x64] => return some (10, 7)
  | [0x6F] => return some (8, 7)
  | [0x78] => return some (16, 6)
  | [0x6E] => return none
  | _ => giveUp 1 (lit "invalid output address radix '" ++ letter.take 1
      ++ lit "'; it must be one character from [doxn]")

/-- The rules that options ask for. -/
def rules (p : Parsed) : Routine Rules := do
  let address ← match p.value? 'A' with
    | some letter => address letter
    | none => pure (some (8, 7))
  let types := p.given.filterMap fun g =>
    if g.letter = 't' then some g.value else (shortTypes.lookup g.letter).map lit
  match types.mapM fields with
  | .error e => giveUp 1 e
  | .ok fields =>
    let fields := if types.isEmpty then [{ form := .octal, size := 2 }] else fields.flatten
    let least := fields.foldl (fun n f => max n f.size) 1
    let width ← match p.value? 'w' with
      | some [] => pure 32
      | some v => amount 1 "invalid -w argument" v
      | none => pure 16
    let block ← if width % least = 0 && 0 < width then pure width else do
      complain (lit "warning: invalid width " ++ digits width ++ lit "; using " ++ digits least
        ++ lit " instead")
      pure least
    return { fields := fields, address := address, block := block, showsAll := p.has 'v' }

end Dump

open Dump in
/-- Show the bytes of the inputs. -/
def od : Utility := fun args => do
  let p ← arguments Dump.options 1 args
  let r ← rules p
  let skip ← match p.value? 'j' with
    | some v => amount 1 "invalid -j argument" v
    | none => pure 0
  let limit ← match p.value? 'N' with
    | some v => do pure (some (← amount 1 "invalid -N argument" v))
    | none => pure none
  let (inputs, good) ← foldInputs {} (fun (inputs : List Bytes) _ d => do
    match ← readAll d with
    | .ok data => return (data :: inputs, none)
    | .error e => return ([] :: inputs, some e)) [] p.operands
  if inputs.isEmpty then exit 1
  let data := inputs.reverse.flatten
  if data.length < skip then giveUp 1 (lit "cannot skip past end of combined input")
  let shown := data.drop skip
  let shown := match limit with | some n => shown.take n | none => shown
  put (r.blocks shown.length skip none false shown ++ r.last (skip + shown.length))
  exit (if good then 0 else 1)

end LineShell.Program
