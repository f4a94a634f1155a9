import LineShell.Program.ByteClass

/-!
# Names in messages

A program quotes the names in its messages so that a shell would read them back.
`Quoting.shell` quotes where it has to, and `Quoting.always` in any case. A byte that
cannot be printed is written as an escape inside `$'…'`, and a text whose only special
bytes are apostrophes and blanks goes into double quotes. `Quoting.plain` writes escapes
between single quotes.
-/

namespace LineShell.Program.Quoting

/-- The apostrophe. -/
def apostrophe : UInt8 := 0x27

/-- The letter that stands behind a backslash for a control byte. -/
def escapeLetter? (b : UInt8) : Option UInt8 :=
  [((0x07 : UInt8), (0x61 : UInt8)), (0x08, 0x62), (0x09, 0x74), (0x0A, 0x6E), (0x0B, 0x76),
    (0x0C, 0x66), (0x0D, 0x72)].lookup b

/-- The three octal digits of a byte. -/
def octal (b : UInt8) : Bytes :=
  [0x30 + b / 64, 0x30 + b / 8 % 8, 0x30 + b % 8]

/-- What stands for a byte that cannot be printed, behind the backslash. -/
def escape? (b : UInt8) : Option Bytes :=
  match escapeLetter? b with
  | some letter => some [letter]
  | none => if ByteClass.isPrintable b then none else some (octal b)

/-- The bytes that a shell reads as themselves, wherever they stand. -/
def isHarmless (b : UInt8) : Bool :=
  ByteClass.isAlnum b || (lit "%+,-./:]_@").contains b

/-- A name that a shell reads as itself. -/
def needsNone (name : Bytes) : Bool :=
  match name with
  | [] => false
  | [b] => isHarmless b
  | b :: rest =>
    (isHarmless b || b = 0x7B || b = 0x7D)
      && rest.all fun b => isHarmless b || b = 0x7B || b = 0x7D || b = 0x23 || b = 0x7E

/-- A name with apostrophes, of which all else means the same between double quotes and to
a shell. -/
def fitsDouble (name : Bytes) : Bool :=
  let isPlain (b : UInt8) : Bool := isHarmless b || b = 0x20 || b = apostrophe
  name.contains apostrophe
    && match name with
      | [] => false
      | b :: rest => (isPlain b || b = 0x23 || b = 0x7E) && rest.all isPlain

/-- The bytes of a name between single quotes. `open_` says that an escape has been opened. -/
def insides (open_ : Bool) : Bytes → Bytes
  | [] => []
  | b :: rest =>
    match escape? b with
    | some e => (if open_ then [] else lit "'$'") ++ 0x5C :: e ++ insides true rest
    | none =>
      if b = apostrophe then lit "'\\''" ++ insides false rest
      else (if open_ then lit "''" else []) ++ b :: insides false rest

/-- A name in quotes. -/
def always (name : Bytes) : Bytes :=
  if fitsDouble name then 0x22 :: name ++ [0x22]
  else apostrophe :: insides false name ++ [apostrophe]

/-- A name, in quotes if it needs them. -/
def shell (name : Bytes) : Bytes :=
  if needsNone name then name else always name

/-- A name between single quotes, with backslashes before what would not stand there. -/
def plain (name : Bytes) : Bytes :=
  apostrophe :: (name.flatMap fun b =>
    match escape? b with
    | some e => 0x5C :: e
    | none => if b = apostrophe || b = 0x5C then [0x5C, b] else [b]) ++ [apostrophe]

end LineShell.Program.Quoting
