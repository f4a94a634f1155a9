import LineShell.Program.Sh.Lexeme

/-!
# Reading scripts

`Reader.line` reads the statements on the next line of a script, with all lines that they
reach over. A script is read line by line, so that what cannot be read is only told when
everything before it has been done.
-/

namespace LineShell.Program.Sh

/-- Why a script cannot be read. -/
structure Fault where
  line : Nat
  message : Bytes

/-- Something that is read off the front of lexemes. -/
abbrev Reader (α : Type) := StateT (List Lexeme) (Except Fault) α

/-- The words with a meaning of their own. -/
def reserved : List Bytes :=
  ["!", "case", "do", "done", "elif", "else", "esac", "fi", "for", "if", "in", "then", "until",
    "while", "\x7b", "\x7d"].map lit

/-- The words and operators that end a list of statements. -/
def closers : List Bytes :=
  [")", ";;", "do", "done", "elif", "else", "esac", "fi", "then", "\x7d"].map lit

/-- The operators for redirections. -/
def redirections : List Bytes :=
  ["<", ">", ">>", "<&", ">&", "<>", ">|", "<<", "<<-"].map lit

/-- The commands of the shell whose failures end a script. -/
def specials : List Bytes :=
  [".", ":", "break", "continue", "eval", "exec", "exit", "export", "readonly", "return", "set",
    "shift", "times", "trap", "unset"].map lit

/-- The text of a word that is one unquoted text. -/
def plainText? : Word → Option Bytes
  | [.text b false] => some b
  | _ => none

/-- The reserved word or operator that a lexeme is. -/
def Lexeme.sign? (l : Lexeme) : Option Bytes :=
  match l.kind with
  | .operator op => some op
  | .word w => (plainText? w).filter reserved.contains
  | _ => none

/-- What a lexeme is called in a message. -/
def Lexeme.called (l : Lexeme) : Bytes :=
  match l.kind with
  | .operator op => if redirections.contains op then lit "redirection" else lit "\"" ++ op ++ lit "\""
  | .word _ => (l.sign?.map fun b => lit "\"" ++ b ++ lit "\"").getD (lit "word")
  | .document _ => lit "word"
  | .number _ => lit "redirection"
  | .newline => lit "newline"
  | .broken message => message
  | .ending => lit "end of file"

/-- The assignment that a word is: the name and the word assigned. -/
def assignment? : Word → Option (Bytes × Word)
  | .text b false :: rest =>
    match Text.cutAt 0x3D b with
    | some (name, value) =>
      if isName name then some (name, if value.isEmpty then rest else .text value false :: rest)
      else none
    | none => none
  | _ => none

namespace Reader

/-- The lexeme at the front. -/
def front : Reader Lexeme := do
  return (← get).headD ⟨.ending, 0⟩

/-- Take the lexeme at the front. -/
def advance : Reader Unit := modify (·.drop 1)

/-- Refuse to read on, with a message. -/
def fault {α : Type} (message : Bytes) : Reader α := do
  throw ⟨(← front).line, message⟩

/-- Refuse the lexeme at the front, in whose place something else is expected. -/
def refuse {α : Type} (expected : Bytes := []) : Reader α := do
  let l ← front
  match l.kind with
  | .broken message => fault message
  | _ =>
    fault (l.called ++ lit " unexpected"
      ++ if expected.isEmpty then [] else lit " (expecting " ++ expected ++ lit ")")

/-- The front is a given reserved word or operator. -/
def isAt (sign : String) : Reader Bool := do
  return (← front).sign? = some (lit sign)

/-- Take a given reserved word or operator, if it is there. -/
def accept (sign : String) : Reader Bool := do
  if ← isAt sign then
    advance
    return true
  return false

/-- Take a given reserved word or operator, which must be there. -/
def expect (sign : String) : Reader Unit := do
  if !(← accept sign) then refuse (lit "\"" ++ lit sign ++ lit "\"")

/-- Pass over line ends. -/
def skipLines : Reader Unit :=
  modify (·.dropWhile fun l => match l.kind with | .newline => true | _ => false)

/-- Take words as long as there are any. -/
def words : Reader (List Word) := do
  let ws := ((← get).takeWhile fun l => match l.kind with | .word _ => true | _ => false)
  modify (·.drop ws.length)
  return ws.filterMap fun l => match l.kind with | .word w => some w | _ => none

/-- What a redirection operator does, and the descriptor it is about if none is given. -/
def redirectKind (op : Bytes) : Nat × Redirect.Kind :=
  if op = lit "<" then (0, .openFile .read)
  else if op = lit "<>" then (0, .openFile .read)
  else if op = lit ">>" then (1, .openFile .append)
  else if op = lit "<&" then (0, .copy)
  else if op = lit ">&" then (1, .copy)
  else if op = lit "<<" || op = lit "<<-" then (0, .document)
  else (1, .openFile .write)

/-- A word that names a descriptor, or none of them. -/
def isDescriptor (w : Word) : Bool :=
  match w with
  | [.text [b] _] => ByteClass.isDigit b || b = 0x2D
  | [.text _ _] => false
  | _ => true

/-- Read the word behind a redirection operator. -/
def target (given : Option Nat) (op : Bytes) : Reader Redirect := do
  let (usual, kind) := redirectKind op
  let l ← front
  match l.kind with
  | .word w => do
    if kind = .copy && !isDescriptor w then fault (lit "Bad fd number")
    advance
    return ⟨given.getD usual, kind, w⟩
  | .document w => do
    advance
    return ⟨given.getD usual, kind, w⟩
  | _ => refuse

/-- Read the redirection at the front, if there is one. -/
def redirect? : Reader (Option Redirect) := do
  match (← front).kind with
  | .number n => do
    advance
    match (← front).kind with
    | .operator op => do
      advance
      return some (← target (some n) op)
    | _ => refuse
  | .operator op =>
    if redirections.contains op then do
      advance
      return some (← target none op)
    else return none
  | _ => return none

/-- Read redirections. Every step takes a lexeme off, so as much fuel is enough. -/
def redirects : Nat → Reader (List Redirect)
  | 0 => return []
  | fuel + 1 => do
    match ← redirect? with
    | some r => return r :: (← redirects fuel)
    | none => return []

/-- The parts of a simple command. -/
structure Parts where
  assignments : List (Bytes × Word) := []
  words : List Word := []
  redirects : List Redirect := []

/-- Read the words, assignments and redirections of a simple command, up to something else. -/
def parts : Nat → Parts → Reader Parts
  | 0, p => return p
  | fuel + 1, p => do
    match ← redirect? with
    | some r => parts fuel { p with redirects := p.redirects ++ [r] }
    | none =>
      match (← front).kind with
      | .word w => do
        advance
        match p.words.isEmpty, assignment? w with
        | true, some a => parts fuel { p with assignments := p.assignments ++ [a] }
        | _, _ => parts fuel { p with words := p.words ++ [w] }
      | _ => return p

/-- Read the patterns of an arm of a choice. -/
def patterns : Nat → Reader (List Word)
  | 0 => refuse
  | fuel + 1 => do
    match (← front).kind with
    | .word w => do
      advance
      if ← accept "|" then return w :: (← patterns fuel)
      return [w]
    | _ => refuse (lit "\")\"")

/-- The name and the values of a loop over values. -/
def loopHead : Reader (Bytes × Option (List Word)) := do
  let name ← match (← front).kind with
    | .word w =>
      match (plainText? w).filter isName with
      | some name => pure name
      | none => fault (lit "Bad for loop variable")
    | _ => fault (lit "Bad for loop variable")
  advance
  skipLines
  if ← accept "in" then
    let ws ← words
    match (← front).kind with
    | .newline => advance
    | _ => if !(← accept ";") then refuse
    return (name, some ws)
  let _ ← accept ";"
  return (name, none)

/-- Two statements one after the other. -/
def sequence : Statement → Statement → Statement
  | .nothing, b => b
  | a, .nothing => a
  | a, b => .sequence a b

mutual

/-- Read statements up to something that closes them. There is one at least, unless they
`mayBeNone`. Every step takes a lexeme off or goes deeper by a few, so a small multiple of
their number is enough fuel. -/
def list : Nat → (mayBeNone : Bool) → Reader Statement
  | 0, _ => refuse
  | fuel + 1, mayBeNone => do
    skipLines
    let l ← front
    match l.kind with
    | .ending => return .nothing
    | _ =>
    if mayBeNone && l.sign?.any closers.contains then return .nothing
    let a ← andOr fuel
    let a ← if ← accept "&" then pure (.background a)
      else do
        if !(← accept ";") then
          match (← front).kind with
          | .newline => pure ()
          | _ => return a
        pure a
    return sequence a (← list fuel true)

/-- Read commands joined by `&&` and `||`. -/
def andOr : Nat → Reader Statement
  | 0 => refuse
  | fuel + 1 => do
    let a ← pipeline fuel
    joinAndOr fuel a

/-- Read on behind a command that may be joined to others. -/
def joinAndOr : Nat → Statement → Reader Statement
  | 0, a => return a
  | fuel + 1, a => do
    if ← accept "&&" then
      skipLines
      let b ← pipeline fuel
      joinAndOr fuel (.both a b)
    else if ← accept "||" then
      skipLines
      let b ← pipeline fuel
      joinAndOr fuel (.either a b)
    else return a

/-- Read commands joined by pipes, of which the last may be negated. -/
def pipeline : Nat → Reader Statement
  | 0 => refuse
  | fuel + 1 => do
    let negated ← accept "!"
    let a ← piped fuel
    return if negated then .negated a else a

/-- Read commands joined by pipes. -/
def piped : Nat → Reader Statement
  | 0 => refuse
  | fuel + 1 => do
    let a ← command fuel
    if ← accept "|" then
      skipLines
      return .piped a (← piped fuel)
    return a

/-- Read one command. -/
def command : Nat → Reader Statement
  | 0 => refuse
  | fuel + 1 => do
    let l ← front
    match l.sign? with
    | none => simple fuel
    | some sign =>
      if redirections.contains sign then simple fuel
      else do
        let a ← if ← accept "if" then branches fuel
          else if ← accept "while" then loop fuel true
          else if ← accept "until" then loop fuel false
          else if ← accept "for" then do
            let (name, values) ← loopHead
            skipLines
            expect "do"
            let body ← list fuel false
            expect "done"
            pure (.each name values body)
          else if ← accept "case" then choice fuel
          else if ← accept "(" then do
            let a ← list fuel false
            expect ")"
            pure (.subshell a)
          else if ← accept "\x7b" then do
            let a ← list fuel false
            expect "\x7d"
            pure a
          else refuse
        let rs ← redirects (← get).length
        return if rs.isEmpty then a else .redirected l.line a rs

/-- Read a simple command, or a function. -/
def simple : Nat → Reader Statement
  | 0 => refuse
  | fuel + 1 => do
    let line := (← front).line
    let p ← parts (← get).length {}
    if p.words.isEmpty && p.assignments.isEmpty && p.redirects.isEmpty then refuse
    match p.words, p.assignments, p.redirects with
    | [w], [], [] =>
      if ← accept "(" then
        expect ")"
        match (plainText? w).filter fun b => isName b && !specials.contains b with
        | none => fault (lit "Bad function name")
        | some name =>
          skipLines
          return .function name (← command fuel)
      return .simple line [] [w] []
    | ws, as, rs => return .simple line as ws rs

/-- Read a condition behind `if` or `elif`, and its branches. -/
def branches : Nat → Reader Statement
  | 0 => refuse
  | fuel + 1 => do
    let c ← list fuel false
    expect "then"
    let yes ← list fuel false
    if ← accept "elif" then return .conditional c yes (← branches fuel)
    let no ← if ← accept "else" then list fuel false else pure .nothing
    expect "fi"
    return .conditional c yes no

/-- Read the condition and the body of a loop. -/
def loop : Nat → (truth : Bool) → Reader Statement
  | 0, _ => refuse
  | fuel + 1, truth => do
    let c ← list fuel false
    expect "do"
    let body ← list fuel false
    expect "done"
    return .loop truth c body

/-- Read the word and the arms of a choice. -/
def choice : Nat → Reader Statement
  | 0 => refuse
  | fuel + 1 => do
    match (← front).kind with
    | .word w => do
      advance
      skipLines
      expect "in"
      return .choice w (← arms fuel)
    | _ => refuse (lit "word")

/-- Read the arms of a choice. -/
def arms : Nat → Reader (List (List Word × Statement))
  | 0 => refuse
  | fuel + 1 => do
    skipLines
    if ← accept "esac" then return []
    let _ ← accept "("
    let ps ← patterns (← get).length
    expect ")"
    let body ← list fuel true
    if ← accept "esac" then return [(ps, body)]
    expect ";;"
    return (ps, body) :: (← arms fuel)

end

/-- Read the statements on a line. -/
def lineFrom : Nat → Statement → Reader Statement
  | 0, a => return a
  | fuel + 1, a => do
    let l ← front
    match l.kind with
    | .newline => do
      advance
      return a
    | .ending => return a
    | _ => do
      let b ← andOr (12 * (← get).length + 12)
      if ← accept "&" then lineFrom fuel (sequence a (.background b))
      else if ← accept ";" then lineFrom fuel (sequence a b)
      else match (← front).kind with
        | .newline => lineFrom fuel (sequence a b)
        | .ending => return sequence a b
        | _ => refuse

/-- Read the statements on the next line. Every step takes a lexeme off, so as much fuel is
enough. -/
def line (ls : List Lexeme) : Except Fault (Statement × List Lexeme) :=
  (lineFrom (ls.length + 1) .nothing).run ls

end Reader

end LineShell.Program.Sh
