import LineShell.Errno.Wording
import LineShell.Text.Decimal
import LineShell.Text.Utf8

/-!
# System errors

An `Errno` is the number by which the system names a failure. It has two wordings.
`Errno.named` puts the symbol before a short description, `Errno.numbered` the number
after the sentence of the C library. `IoError` is a failed file operation: one the
system refused, or one that ended before the system was asked. The words for a failure are
made of pieces, and `flatten` puts them together.
-/

namespace LineShell

/-- A failure, by its number. -/
structure Errno where
  number : Nat
deriving DecidableEq, Repr

namespace Errno

def notPermitted : Errno := ⟨1⟩
def noEntry : Errno := ⟨2⟩
def noProcess : Errno := ⟨3⟩
def noExec : Errno := ⟨8⟩
def badDescriptor : Errno := ⟨9⟩
def accessDenied : Errno := ⟨13⟩
def busy : Errno := ⟨16⟩
def exists_ : Errno := ⟨17⟩
def notDirectory : Errno := ⟨20⟩
def isDirectory : Errno := ⟨21⟩
def invalid : Errno := ⟨22⟩
def tooManyOpen : Errno := ⟨24⟩
def textBusy : Errno := ⟨26⟩
def noSpace : Errno := ⟨28⟩
def illegalSeek : Errno := ⟨29⟩
def nameTooLong : Errno := ⟨36⟩
def notEmpty : Errno := ⟨39⟩
def tooManyLinks : Errno := ⟨40⟩

/-- The symbol of a failure. -/
def symbol (e : Errno) : Bytes :=
  Utf8.ofString (((wording? e.number).map Wording.symbol).getD "UnknownErrno")

/-- The short description of a failure. -/
def description (e : Errno) : Bytes :=
  Utf8.ofString (((wording? e.number).map Wording.description).getD "Unknown errno")

/-- The C library's sentence for a failure. -/
def sentence (e : Errno) : Bytes :=
  match wording? e.number with
  | some w => Utf8.ofString w.sentence
  | none =>
    if e.number = 0 then Utf8.ofString "Success"
    else Utf8.ofString "Unknown error " ++ Utf8.encode (Decimal.ofNat e.number)

/-- The pieces of `named`. -/
def namedPieces (e : Errno) : List Bytes :=
  [e.symbol, Utf8.ofString ": ", e.description]

/-- The symbol and the description. -/
def named (e : Errno) : Bytes := e.namedPieces.flatten

/-- The pieces of `numbered`. -/
def numberedPieces (e : Errno) : List Bytes :=
  [e.sentence, Utf8.ofString " (os error ", Utf8.encode (Decimal.ofNat e.number), Utf8.ofString ")"]

/-- The sentence and the number. -/
def numbered (e : Errno) : Bytes := e.numberedPieces.flatten

end Errno

/-- A failed file operation. -/
inductive IoError where
  /-- The system refused it. -/
  | system (e : Errno)
  /-- A file name holds a zero byte, which no name the system is given can hold. -/
  | zeroInName
  /-- The bytes of a file are no text. -/
  | notText
  /-- The writer took a part and then nothing more. -/
  | writeCutShort
deriving DecidableEq, Repr

/-- The words for a failed file operation, in pieces. -/
def IoError.pieces : IoError → List Bytes
  | .system e => e.numberedPieces
  | .zeroInName => [Utf8.ofString "file name contained an unexpected NUL byte"]
  | .notText => [Utf8.ofString "stream did not contain valid UTF-8"]
  | .writeCutShort => [Utf8.ofString "failed to write whole buffer"]

/-- The words for a failed file operation. -/
def IoError.message (e : IoError) : Bytes := e.pieces.flatten

end LineShell
