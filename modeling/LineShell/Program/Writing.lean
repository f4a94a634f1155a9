import LineShell.Program.Arguments

/-!
# Writing arguments

`true` and `false` do nothing but exit, `echo` writes its arguments, and `yes` does so
again and again.
-/

namespace LineShell.Program

open Routine Arguments

/-- Succeed. -/
def succeed : Utility := fun _ => exit 0

/-- Fail. -/
def fail : Utility := fun _ => exit 1

/-! ## Escapes -/

/-- The byte of octal digits at the front of a text, at most three, and what follows. -/
def octalByte (text : Bytes) : UInt8 × Bytes :=
  let ds := (text.take 3).takeWhile ByteClass.isOctal
  (UInt8.ofNat (ByteClass.octalValue ds), text.drop ds.length)

/-- The byte of hexadecimal digits at the front of a text, at most two, and what follows. -/
def hexByte? (text : Bytes) : Option (UInt8 × Bytes) :=
  let ds := (text.take 2).takeWhile ByteClass.isHex
  if ds.isEmpty then none else some (UInt8.ofNat (ByteClass.hexValue ds), text.drop ds.length)

namespace Echo

/-- The bytes that a text with backslashes writes, and whether it asks to stop. `hex` says
that a byte can be given by hexadecimal digits. Every step takes a byte off, so as much fuel
as there are bytes is enough. -/
def unescape (hex : Bool) : Nat → Bytes → Bytes × Bool
  | 0, _ => ([], false)
  | _, [] => ([], false)
  | fuel + 1, 0x5C :: b :: rest =>
    let go (out rest : Bytes) : Bytes × Bool :=
      let r := unescape hex fuel rest
      (out ++ r.1, r.2)
    if b = 0x63 then ([], true)
    else if b = 0x65 then go [0x1B] rest
    else if hex && b = 0x78 then
      match hexByte? rest with
      | some (h, rest) => go [h] rest
      | none => go [0x5C, b] rest
    else if ByteClass.isOctal b then
      let (o, rest) := octalByte (if b = 0x30 then rest else b :: rest)
      go [o] rest
    else match ByteClass.escaped? b with
      | some c => go [c] rest
      | none => go [0x5C, b] rest
  | fuel + 1, b :: rest =>
    let r := unescape hex fuel rest
    (b :: r.1, r.2)

/-- An argument that is an option. -/
def isOption : Bytes → Bool
  | 0x2D :: b :: more => (b :: more).all fun b => (lit "neE").contains b
  | _ => false

/-- What arguments write. -/
def text (args : List Bytes) : Bytes :=
  let letters := (args.takeWhile isOption).flatMap (·.drop 1)
  let words := (lit " ").intercalate (args.dropWhile isOption)
  let escapes := (letters.filter (· != 0x6E)).getLast? = some 0x65
  let (text, stopped) := if escapes then unescape true words.length words else (words, false)
  text ++ (if letters.contains 0x6E || stopped then [] else [lineFeed])

end Echo

/-- Write the arguments with blanks between them. -/
def echo : Utility := fun args => put (Echo.text args)

/-- Write a line again and again. -/
def yes : Utility := fun args => do
  let p ← leadingArguments [] 1 args
  let line := (if p.operands.isEmpty then lit "y" else (lit " ").intercalate p.operands) ++ [lineFeed]
  let block := (List.replicate (8192 / line.length + 1) line).flatten
  repeatedly (putOr 1 (fun e => lit "standard output: " ++ e.sentence) block) patience

end LineShell.Program
