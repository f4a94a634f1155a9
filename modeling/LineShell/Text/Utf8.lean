import LineShell.Text

/-!
# UTF-8

`Utf8.encode` writes a text as bytes. `Utf8.readChar` reads one character at the
front of a byte string, or says that none is there and skips the longest start of
one. `Utf8.decodeLossy` reads every byte string, with U+FFFD for what it skips, and
`Utf8.decode?` reads a byte string only if nothing has to be skipped.
-/

namespace LineShell.Utf8

/-- The bytes of a text. -/
def encode (t : Text) : Bytes :=
  t.flatMap String.utf8EncodeChar

@[simp]
theorem encode_nil : encode [] = [] := rfl

@[simp]
theorem encode_append (s t : Text) : encode (s ++ t) = encode s ++ encode t := by
  simp [encode]

/-- A byte that goes on with a character begun before it. -/
def isContinuation (b : UInt8) : Bool :=
  0x80 ≤ b && b ≤ 0xBF

/-- What the first byte of a character of several bytes says about the rest: how many
bytes follow, and between which two the next one lies. -/
def lead? (b : UInt8) : Option (Nat × UInt8 × UInt8) :=
  if b < 0xC2 then none
  else if b ≤ 0xDF then some (1, 0x80, 0xBF)
  else if b = 0xE0 then some (2, 0xA0, 0xBF)
  else if b = 0xED then some (2, 0x80, 0x9F)
  else if b ≤ 0xEF then some (2, 0x80, 0xBF)
  else if b = 0xF0 then some (3, 0x90, 0xBF)
  else if b ≤ 0xF3 then some (3, 0x80, 0xBF)
  else if b = 0xF4 then some (3, 0x80, 0x8F)
  else none

/-- The payload of a first byte with `n` bytes after it. -/
def leadPayload (n : Nat) (b : UInt8) : Nat :=
  b.toNat % Nat.pow 2 (6 - n)

/-- Read `n` continuation bytes onto the number `acc`. -/
def readContinuation : Nat → Nat → Bytes → Option Char × Bytes
  | 0, acc, rest => (some (Char.ofNat acc), rest)
  | _ + 1, _, [] => (none, [])
  | n + 1, acc, b :: rest =>
    if isContinuation b then readContinuation n (acc * 64 + b.toNat % 64) rest
    else (none, b :: rest)

/-- Read the character that begins with `b`. If there is none, skip `b` and as many of
the bytes after it as some character could begin with. -/
def readChar (b : UInt8) (rest : Bytes) : Option Char × Bytes :=
  if b < 0x80 then (some (Char.ofNat b.toNat), rest)
  else match lead? b, rest with
    | none, _ => (none, rest)
    | some _, [] => (none, [])
    | some (n, lo, hi), c :: rest =>
      if lo ≤ c && c ≤ hi then
        readContinuation (n - 1) (leadPayload n b * 64 + c.toNat % 64) rest
      else (none, c :: rest)

theorem length_readContinuation_le :
    ∀ (n acc : Nat) (rest : Bytes), (readContinuation n acc rest).2.length ≤ rest.length
  | 0, _, _ => Nat.le_refl _
  | _ + 1, _, [] => Nat.le_refl _
  | n + 1, acc, b :: rest => by
    unfold readContinuation
    split
    · exact Nat.le_succ_of_le (length_readContinuation_le n _ rest)
    · exact Nat.le_refl _

theorem length_readChar_le (b : UInt8) (rest : Bytes) :
    (readChar b rest).2.length ≤ rest.length := by
  unfold readChar
  split
  · exact Nat.le_refl _
  · split
    · exact Nat.le_refl _
    · exact Nat.le_refl _
    · split
      · exact Nat.le_succ_of_le (length_readContinuation_le _ _ _)
      · exact Nat.le_refl _

/-- The character that stands for what could not be read. -/
def replacement : Char := '\uFFFD'

/-- The text of a byte string, with `replacement` wherever no character can be read. -/
def decodeLossy : Bytes → Text
  | [] => []
  | b :: rest => (readChar b rest).1.getD replacement :: decodeLossy (readChar b rest).2
termination_by bytes => bytes.length
decreasing_by exact Nat.lt_succ_of_le (length_readChar_le b rest)

/-- The text whose bytes these are, if there is one. -/
def decode? : Bytes → Option Text
  | [] => some []
  | b :: rest => do
    let c ← (readChar b rest).1
    let t ← decode? (readChar b rest).2
    return c :: t
termination_by bytes => bytes.length
decreasing_by exact Nat.lt_succ_of_le (length_readChar_le b rest)

/-- A byte string that is the encoding of a text. -/
def Valid (bytes : Bytes) : Prop :=
  ∃ t, bytes = encode t

/-- The bytes of a text given as a string. -/
def ofString (s : String) : Bytes :=
  encode s.toList

end LineShell.Utf8
