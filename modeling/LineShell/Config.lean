import LineShell.Errno
import LineShell.History
import LineShell.Text.Blank
import LineShell.Command.Parser

/-!
# Settings

A `Config` holds the prompt and three counts. `Config.read` reads a settings file: one
`key=value` a line, with blank lines and lines that begin with `#` left out, and later
lines before earlier ones. `Config.check` refuses counts with which no line could be
entered.
-/

namespace LineShell

/-- The settings of a shell. -/
structure Config where
  /-- What is shown before a line is read. -/
  prompt : Text := "$ ".toList
  /-- How many lines are kept in the history. -/
  historySize : Nat := History.defaultCapacity
  /-- How many words a segment may have. -/
  maxArguments : Nat := Parser.defaultLimit
  /-- One more than the most bytes of a line, its line feed included. -/
  lineMax : Nat := 100
deriving DecidableEq, Repr

/-- What is wrong with a line of a settings file. -/
inductive Config.Mistake where
  | noEqualsSign (line : Text)
  | unknownKey (key : Text)
  | invalidNumber (value : Text)
deriving DecidableEq, Repr

/-- The counts that have a least value. -/
inductive Config.Count where
  | historySize
  | maxArguments
  | lineMax
deriving DecidableEq, Repr

/-- Why there are no settings. -/
inductive ConfigError where
  /-- The file could not be read. -/
  | io (e : IoError)
  /-- A line is wrong. Lines are counted from one. -/
  | mistake (line : Nat) (m : Config.Mistake)
  /-- A count is below its least value. -/
  | tooSmall (count : Config.Count)
deriving DecidableEq, Repr

namespace Config

/-- The key of a count in a settings file. -/
def Count.key : Count → Text
  | .historySize => "history_size".toList
  | .maxArguments => "max_args".toList
  | .lineMax => "line_max".toList

/-- The least value of a count. -/
def Count.least : Count → Nat
  | .historySize => 1
  | .maxArguments => 1
  | .lineMax => 2

/-- The counts, in the order in which they are checked. -/
def Count.all : List Count := [.historySize, .maxArguments, .lineMax]

/-- The count with a given key. -/
def Count.ofKey? (key : Text) : Option Count :=
  Count.all.find? fun n => n.key = key

/-- The value of a count. -/
def count (c : Config) : Count → Nat
  | .historySize => c.historySize
  | .maxArguments => c.maxArguments
  | .lineMax => c.lineMax

/-- The settings with another value for a count. -/
def setCount (c : Config) (n : Nat) : Count → Config
  | .historySize => { c with historySize := n }
  | .maxArguments => { c with maxArguments := n }
  | .lineMax => { c with lineMax := n }

/-- The key of the prompt in a settings file. -/
def promptKey : Text := "prompt".toList

/-- The settings, if every count has at least its least value. The first count that is
too small is the one named. -/
def check (c : Config) : Except ConfigError Config :=
  match Count.all.find? fun n => c.count n < n.least with
  | some n => .error (.tooSmall n)
  | none => .ok c

/-- A line that sets nothing: blank, or with `#` as its first character that is no blank. -/
def isComment (line : Text) : Bool :=
  match Text.trimStart line with
  | [] => true
  | c :: _ => c = '#'

/-- The settings after one line. -/
def assign (c : Config) (line : Text) : Except Mistake Config :=
  match Text.cutAt '=' line with
  | none => .error (.noEqualsSign line)
  | some (key, value) =>
    if Text.trim key = promptKey then .ok { c with prompt := value }
    else match Count.ofKey? (Text.trim key) with
      | none => .error (.unknownKey (Text.trim key))
      | some n =>
        match Decimal.count? (Text.trim value) with
        | none => .error (.invalidNumber (Text.trim value))
        | some v => .ok (c.setCount v n)

/-- The settings after the lines `lines`, the first of which is line number `number`. -/
def assignAll : Nat → List Text → Config → Except ConfigError Config
  | _, [], c => .ok c
  | number, line :: lines, c =>
    if isComment line then assignAll (number + 1) lines c
    else match c.assign line with
      | .error m => .error (.mistake number m)
      | .ok c => assignAll (number + 1) lines c

/-- `record` without the carriage return at its end, if it has one. -/
def dropReturn (record : Text) : Text :=
  if record.getLast? = some '\r' then record.dropLast else record

/-- The lines of a text. A carriage return in front of a line feed belongs to the line
end; one behind the last line feed does not. -/
def linesOf (source : Text) : List Text :=
  match _h : Text.cutAt '\n' source with
  | none => if source.isEmpty then [] else [source]
  | some (first, rest) => dropReturn first :: linesOf rest
termination_by source.length
decreasing_by exact Text.length_lt_of_cutAt (by assumption)

/-- The settings in a text. What it does not set is as in `Config` by default. -/
def read (source : Text) : Except ConfigError Config := do
  (← assignAll 1 (linesOf source) {}).check

/-- The settings in the bytes of a file. -/
def readBytes (bytes : Bytes) : Except ConfigError Config :=
  match Utf8.decode? bytes with
  | none => .error (.io .notText)
  | some source => read source

/-- The words for a wrong line. -/
def Mistake.message : Mistake → Bytes
  | .noEqualsSign line => Utf8.ofString "no '=' found: " ++ Utf8.encode line
  | .unknownKey key => Utf8.ofString "unknown key: " ++ Utf8.encode key
  | .invalidNumber value => Utf8.ofString "invalid number: " ++ Utf8.encode value

end Config

/-- The words for settings that could not be had. -/
def ConfigError.message : ConfigError → Bytes
  | .io e => Utf8.ofString "IO error: " ++ e.message
  | .mistake n m =>
    Utf8.ofString "parse error: line " ++ Utf8.encode (Decimal.ofNat n) ++ Utf8.ofString ": "
      ++ m.message
  | .tooSmall n =>
    Utf8.ofString "invalid config: " ++ Utf8.encode n.key ++ Utf8.ofString " must be at least "
      ++ Utf8.encode (Decimal.ofNat n.least)

end LineShell
