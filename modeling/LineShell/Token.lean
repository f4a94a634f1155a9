import LineShell.Text.Utf8

/-!
# Tokens of a line

A line is cut into words and the three symbols `|`, `<` and `>`. Five bytes separate
words: space, tab, carriage return, line feed and vertical tab. Everything else, bytes
of longer characters included, belongs to a word.
-/

namespace LineShell

/-- The bytes that separate words. -/
def isSeparator (b : UInt8) : Bool :=
  b = 0x20 || b = 0x09 || b = 0x0D || b = 0x0A || b = 0x0B

/-- The symbols of a line. -/
inductive Symbol where
  | pipe
  | input
  | output
deriving DecidableEq, Repr

namespace Symbol

/-- The byte that writes a symbol. -/
def byte : Symbol → UInt8
  | .pipe => 0x7C
  | .input => 0x3C
  | .output => 0x3E

/-- The symbol that a byte writes. -/
def ofByte? (b : UInt8) : Option Symbol :=
  if b = 0x7C then some .pipe
  else if b = 0x3C then some .input
  else if b = 0x3E then some .output
  else none

@[simp]
theorem ofByte?_byte (s : Symbol) : ofByte? s.byte = some s := by
  cases s <;> rfl

theorem byte_of_ofByte? {b : UInt8} {s : Symbol} (h : ofByte? b = some s) : s.byte = b := by
  unfold ofByte? at h
  split at h
  · cases h; subst b; rfl
  · split at h
    · cases h; subst b; rfl
    · split at h
      · cases h; subst b; rfl
      · cases h

end Symbol

/-- The bytes of words. -/
def isWordByte (b : UInt8) : Bool :=
  !isSeparator b && (Symbol.ofByte? b).isNone

/-- What a token is: a word, or a symbol. -/
inductive Token.Kind where
  | word
  | symbol (s : Symbol)
deriving DecidableEq, Repr

/-- A token: its kind, its bytes, and the offset at which it begins. -/
structure Token where
  kind : Token.Kind
  text : Bytes
  start : Nat
deriving DecidableEq, Repr

namespace Token

/-- The offset behind a token. -/
def stop (t : Token) : Nat := t.start + t.text.length

/-- A token is a word. -/
def isWord (t : Token) : Bool := t.kind = .word

end Token

end LineShell
