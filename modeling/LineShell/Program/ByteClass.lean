import LineShell.Text.Utf8

/-!
# Classes of bytes

The programs take a byte for a character, and know letters and digits of ASCII only.
`ByteClass.named?` gives the bytes of a class by its name.
-/

namespace LineShell.Program

/-- The bytes of a literal text. -/
def lit (s : String) : Bytes := Utf8.ofString s

namespace ByteClass

/-- The byte is a digit. -/
def isDigit (b : UInt8) : Bool := 0x30 ≤ b && b ≤ 0x39

/-- The byte is a capital letter. -/
def isUpper (b : UInt8) : Bool := 0x41 ≤ b && b ≤ 0x5A

/-- The byte is a small letter. -/
def isLower (b : UInt8) : Bool := 0x61 ≤ b && b ≤ 0x7A

/-- The byte is a letter. -/
def isAlpha (b : UInt8) : Bool := isUpper b || isLower b

/-- The byte is a letter or a digit. -/
def isAlnum (b : UInt8) : Bool := isAlpha b || isDigit b

/-- The byte is a letter, a digit or an underscore. -/
def isWord (b : UInt8) : Bool := isAlnum b || b = 0x5F

/-- The byte is a blank or a tab. -/
def isBlank (b : UInt8) : Bool := b = 0x20 || b = 0x09

/-- The byte is a blank, a tab or an end of a line or of a page. -/
def isSpace (b : UInt8) : Bool := b = 0x20 || (0x09 ≤ b && b ≤ 0x0D)

/-- The byte can be printed. -/
def isPrintable (b : UInt8) : Bool := 0x20 ≤ b && b ≤ 0x7E

/-- The byte can be printed and leaves a mark. -/
def isGraphic (b : UInt8) : Bool := 0x21 ≤ b && b ≤ 0x7E

/-- The byte is a hexadecimal digit. -/
def isHex (b : UInt8) : Bool :=
  isDigit b || (0x41 ≤ b && b ≤ 0x46) || (0x61 ≤ b && b ≤ 0x66)

/-- The byte is an octal digit. -/
def isOctal (b : UInt8) : Bool := 0x30 ≤ b && b ≤ 0x37

/-- The small letter of a capital. -/
def lower (b : UInt8) : UInt8 := if isUpper b then b + 0x20 else b

/-- The capital of a small letter. -/
def upper (b : UInt8) : UInt8 := if isLower b then b - 0x20 else b

/-- All bytes in their order. -/
def all : Bytes := (List.range 256).map UInt8.ofNat

/-- The bytes between two bytes. -/
def range (first last : UInt8) : Bytes := all.filter fun b => first ≤ b && b ≤ last

/-- The classes by their names. -/
def classes : List (String × (UInt8 → Bool)) :=
  [("alnum", isAlnum), ("alpha", isAlpha), ("blank", isBlank),
    ("cntrl", fun b => b < 0x20 || b = 0x7F), ("digit", isDigit), ("graph", isGraphic),
    ("lower", isLower), ("print", isPrintable),
    ("punct", fun b => isGraphic b && !isAlnum b), ("space", isSpace), ("upper", isUpper),
    ("xdigit", isHex)]

/-- The class of a name. -/
def named? (name : Bytes) : Option (UInt8 → Bool) :=
  (classes.find? fun c => lit c.1 = name).map Prod.snd

/-- The byte that a letter behind a backslash stands for. -/
def escaped? (b : UInt8) : Option UInt8 :=
  [((0x61 : UInt8), (0x07 : UInt8)), (0x62, 0x08), (0x66, 0x0C), (0x6E, 0x0A), (0x72, 0x0D),
    (0x74, 0x09), (0x76, 0x0B), (0x5C, 0x5C)].lookup b

/-- The number that octal digits write. -/
def octalValue (ds : Bytes) : Nat := ds.foldl (fun n d => n * 8 + (d.toNat - 0x30)) 0

/-- The number that decimal digits write. -/
def decimalValue (ds : Bytes) : Nat := ds.foldl (fun n d => n * 10 + (d.toNat - 0x30)) 0

/-- The value of a hexadecimal digit. -/
def hexDigit (b : UInt8) : Nat :=
  if isDigit b then b.toNat - 0x30 else (lower b).toNat - 0x61 + 10

/-- The number that hexadecimal digits write. -/
def hexValue (ds : Bytes) : Nat := ds.foldl (fun n d => n * 16 + hexDigit d) 0

end ByteClass

end LineShell.Program
