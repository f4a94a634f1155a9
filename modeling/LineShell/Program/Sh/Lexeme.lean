import LineShell.Program.Sh.Statement

/-!
# The words and operators of scripts

`Lexeme.ofScript` cuts a script into lexemes: words, operators and line ends. Comments and
blanks between them are left out. A script that ends inside a quotation or an expansion has
a lexeme at its end that says what is wrong, so that what stands before it still can be
read.
-/

namespace LineShell.Program.Sh

/-- What a lexeme is. -/
inductive Lexeme.Kind where
  | word (w : Word)
  /-- A digit in front of a redirection operator. -/
  | number (n : Nat)
  | operator (b : Bytes)
  | newline
  /-- The text for a redirection on a line above. -/
  | document (w : Word)
  /-- What follows cannot be read. -/
  | broken (message : Bytes)
  /-- Nothing follows. -/
  | ending

/-- A lexeme, with the number of the line on which it ends. -/
structure Lexeme where
  kind : Lexeme.Kind
  line : Nat

/-- A byte that ends a word outside quotes. -/
def endsWord (b : UInt8) : Bool :=
  (lit " \t\n;&|<>()").contains b

/-- A name of a variable. -/
def isName (b : Bytes) : Bool :=
  match b with
  | [] => false
  | c :: _ => b.all ByteClass.isWord && !ByteClass.isDigit c

/-! ## Words -/

/-- How a word goes on: outside quotes, inside double ones, inside an expansion in braces,
or to the end of a text. -/
inductive Reach where
  | bare
  | quotes
  | braces (quoted : Bool)
  | whole
deriving DecidableEq

/-- The text here counts as quoted. -/
def Reach.isQuoted : Reach → Bool
  | .bare => false
  | .quotes => true
  | .braces quoted => quoted
  | .whole => true

/-- Words behind which nothing follows: the message if that may not be. -/
def Reach.atEnd : Reach → Except Bytes (Word × Bytes)
  | .bare => .ok ([], [])
  | .whole => .ok ([], [])
  | .quotes => .error (lit "Unterminated quoted string")
  | .braces _ => .error (lit "Missing '\x7d'")

/-- The text up to the parenthesis that closes one opened before, and what follows it.
Parentheses inside it nest, and those in quotes do not count. -/
def closing? : Nat → (depth : Nat) → Bytes → Option (Bytes × Bytes)
  | 0, _, _ => none
  | _, _, [] => none
  | fuel + 1, depth, b :: rest =>
    let keep (n : Nat) (depth : Nat) : Option (Bytes × Bytes) :=
      (closing? fuel depth (rest.drop n)).map fun r => (b :: rest.take n ++ r.1, r.2)
    if b = 0x27 || b = 0x22 then keep ((rest.takeWhile (· != b)).length + 1) depth
    else if b = 0x5C then keep 1 depth
    else if b = 0x28 then keep 0 (depth + 1)
    else if b != 0x29 then keep 0 depth
    else match depth with
      | 0 => some ([], rest)
      | depth + 1 => keep 0 depth

/-- The script between backquotes, and what follows it. A backslash before a backslash, a
backquote or a dollar sign is left out. -/
def backquoted (quoted : Bool) : Bytes → Except Bytes (Bytes × Bytes)
  | [] => .error (lit "EOF in backquote substitution")
  | 0x60 :: rest => .ok ([], rest)
  | 0x5C :: b :: rest =>
    (backquoted quoted rest).map fun r =>
      (if (lit "\\`$").contains b || (quoted && b = 0x22) then b :: r.1 else 0x5C :: b :: r.1, r.2)
  | b :: rest => (backquoted quoted rest).map fun r => (b :: r.1, r.2)

/-- The name of a parameter at the front, and what follows it. -/
def parameterName (text : Bytes) : Bytes × Bytes :=
  let name := match text with
    | [] => []
    | b :: _ =>
      if ByteClass.isDigit b then text.takeWhile ByteClass.isDigit
      else if ByteClass.isWord b then text.takeWhile ByteClass.isWord
      else if (lit "?$#@*!-").contains b then [b]
      else []
  (name, text.drop name.length)

/-- The modifier at the front, and what follows it. -/
def modifier? (text : Bytes) : Option (Modifier × Bytes) :=
  let (colon, rest) := match text with
    | 0x3A :: rest => (true, rest)
    | text => (false, text)
  match rest with
  | 0x2D :: rest => some (.orElse colon, rest)
  | 0x3D :: rest => some (.assigned colon, rest)
  | 0x3F :: rest => some (.required colon, rest)
  | 0x2B :: rest => some (.instead colon, rest)
  | 0x23 :: 0x23 :: rest => if colon then none else some (.withoutFront true, rest)
  | 0x25 :: 0x25 :: rest => if colon then none else some (.withoutEnd true, rest)
  | 0x23 :: rest => if colon then none else some (.withoutFront false, rest)
  | 0x25 :: rest => if colon then none else some (.withoutEnd false, rest)
  | _ => none

/-- The bytes that a backslash inside double quotes takes as themselves. -/
def isEscapable (reach : Reach) (b : UInt8) : Bool :=
  match reach with
  | .bare => true
  | .quotes => (lit "$`\"\\").contains b
  | .braces quoted => !quoted || (lit "$`\"\\\x7d").contains b
  | .whole => (lit "$`\\").contains b

mutual

/-- The pieces of a word, up to where it ends, and what follows. Every step takes a byte
off, so as much fuel as there are bytes is enough. -/
def pieces (reach : Reach) : Nat → Bytes → Except Bytes (Word × Bytes)
  | 0, _ => .ok ([], [])
  | _, [] => reach.atEnd
  | fuel + 1, b :: rest =>
    let onward (front : Word) (rest : Bytes) : Except Bytes (Word × Bytes) :=
      (pieces reach fuel rest).map fun r => (front ++ r.1, r.2)
    let itself := onward [.text [b] reach.isQuoted] rest
    if reach = .bare && endsWord b then .ok ([], b :: rest)
    else if reach = .quotes && b = 0x22 then .ok ([], rest)
    else if b = 0x7D && (reach = .braces true || reach = .braces false) then .ok ([], rest)
    else if b = 0x24 then do
      let (piece, rest) ← dollar reach.isQuoted fuel rest
      onward [piece] rest
    else if b = 0x60 then do
      let (script, rest) ← backquoted reach.isQuoted rest
      onward [.output script reach.isQuoted] rest
    else if b = 0x5C then
      match rest with
      | [] => itself
      | c :: rest' =>
        if c = lineFeed then onward [] rest'
        else if isEscapable reach c then onward [.text [c] true] rest'
        else itself
    else if b = 0x22 && reach != .whole then do
      let (inner, rest) ← pieces .quotes fuel rest
      onward (if inner.isEmpty then [.text [] true] else inner) rest
    else if b = 0x27 && !reach.isQuoted then
      let inner := rest.takeWhile (· != 0x27)
      if inner.length = rest.length then .error (lit "Unterminated quoted string")
      else onward [.text inner true] (rest.drop (inner.length + 1))
    else itself

/-- The piece that a dollar sign begins, and what follows it. -/
def dollar (quoted : Bool) : Nat → Bytes → Except Bytes (Piece × Bytes)
  | 0, rest => .ok (.text [0x24] quoted, rest)
  | fuel + 1, 0x28 :: 0x28 :: rest =>
    match closing? (rest.length + 1) 1 rest with
    | some (inner, after) =>
      if inner.getLast? = some 0x29 then do
        let (text, _) ← pieces .whole fuel inner.dropLast
        return (.sum text quoted, after)
      else .ok (.output (0x28 :: inner) quoted, after)
    | none => .error (lit "Missing '))'")
  | _ + 1, 0x28 :: rest =>
    match closing? (rest.length + 1) 0 rest with
    | some (script, rest) => .ok (.output script quoted, rest)
    | none => .error (lit "end of file unexpected (expecting \")\")")
  | fuel + 1, 0x7B :: rest =>
    let wrong : Except Bytes (Piece × Bytes) := do
      let (_, rest) ← pieces (.braces quoted) fuel rest
      return (.meaningless, rest)
    let plain : Except Bytes (Piece × Bytes) :=
      match parameterName rest with
      | ([], _) => wrong
      | (name, 0x7D :: rest) => .ok (.parameter name quoted, rest)
      | (name, rest) =>
        match modifier? rest with
        | none => wrong
        | some (how, rest) => do
          let (other, rest) ← pieces (.braces quoted) fuel rest
          return (.modified name how other quoted, rest)
    match rest with
    | 0x23 :: more =>
      match parameterName more with
      | ([], _) => plain
      | (name, 0x7D :: rest) => .ok (.length name quoted, rest)
      | _ => plain
    | _ => plain
  | _ + 1, rest =>
    match parameterName rest with
    | ([], _) => .ok (.text [0x24] quoted, rest)
    | (name, after) =>
      if ByteClass.isDigit (name.headD 0) then .ok (.parameter (name.take 1) quoted, rest.drop 1)
      else .ok (.parameter name quoted, after)

end

/-- A word with neighbouring pieces of text made one. -/
def joined : Word → Word
  | [] => []
  | p :: rest =>
    match p, joined rest with
    | .text a q, .text b r :: more =>
      if q = r then .text (a ++ b) q :: more else .text a q :: .text b r :: more
    | p, more => p :: more

/-- The pieces of a text that counts as quoted throughout. -/
def piecesOfWhole (text : Bytes) : Except Bytes Word :=
  (pieces .whole (text.length + 1) text).map fun r => joined r.1

/-! ## Lexemes -/

/-- The operators of scripts, longer ones before those they begin with. -/
def operators : List Bytes :=
  [lit "<<-", lit "&&", lit "||", lit ";;", lit "<<", lit ">>", lit "<&", lit ">&", lit "<>",
    lit ">|", lit ";", lit "&", lit "|", lit "<", lit ">", lit "(", lit ")"]

/-- The bytes that quotations and pieces of text write. -/
def textOf (w : Word) : Bytes :=
  w.flatMap fun
    | .text b _ => b
    | _ => []

/-- A part of the word is quoted. -/
def hasQuotes (w : Word) : Bool :=
  w.any fun
    | .text _ quoted => quoted
    | _ => false

/-- A text announced by an operator: the line that ends it, the leading tabs of its lines
are left out, and expansions in it have a meaning. -/
structure Announced where
  last : Bytes
  withoutTabs : Bool
  expands : Bool

/-- The lines of an announced text, and what follows the line that ends it. -/
def Announced.read (a : Announced) : List Bytes → Bytes × List Bytes
  | [] => ([], [])
  | line :: rest =>
    let line := if a.withoutTabs then line.dropWhile (· = 0x09) else line
    if chomp lineFeed line = a.last then ([], rest)
    else
      let r := a.read rest
      (line ++ r.1, r.2)

/-- The word of an announced text. -/
def Announced.word (a : Announced) (text : Bytes) : Word :=
  if a.expands then (piecesOfWhole text).toOption.getD [.text text true] else [.text text true]

/-- Read announced texts. The answer has their words, and what follows them. -/
def Announced.readAll (script : Bytes) : List Announced → List Word × Bytes
  | [] => ([], script)
  | a :: rest =>
    let (text, lines) := a.read (linesOf lineFeed script)
    let r := readAll lines.flatten rest
    (a.word text :: r.1, r.2)

/-- The lexemes of a script from a line on. `announced` holds the texts that begin behind
the next line end, in reverse, and `opening` the operator that asks for one. Every step
takes a byte off, so as much fuel as there are bytes is enough. -/
def lexemes : Nat → (line : Nat) → List Announced → (opening : Option Bool) → Bytes → List Lexeme
  | 0, line, _, _, _ => [⟨.ending, line⟩]
  | _, line, _, _, [] => [⟨.ending, line⟩]
  | fuel + 1, line, announced, opening, b :: rest =>
    if b = 0x5C && rest.head? = some lineFeed then
      lexemes fuel (line + 1) announced opening (rest.drop 1)
    else if b = lineFeed then
      let (words, after) := Announced.readAll rest announced.reverse
      let line := line + 1
      let used := rest.take (rest.length - after.length)
      ⟨.newline, line⟩ :: words.map (⟨.document ·, line⟩)
        ++ lexemes fuel (line + used.count lineFeed) [] none after
    else if ByteClass.isBlank b then lexemes fuel line announced opening rest
    else if b = 0x23 then lexemes fuel line announced opening (rest.dropWhile (· != lineFeed))
    else match operators.find? (·.isPrefixOf (b :: rest)) with
    | some op =>
      let opening := if op = lit "<<" then some false else if op = lit "<<-" then some true else none
      ⟨.operator op, line⟩ :: lexemes fuel line announced opening (rest.drop (op.length - 1))
    | none =>
      if ByteClass.isDigit b && (rest.head? = some 0x3C || rest.head? = some 0x3E) then
        ⟨.number (b.toNat - 0x30), line⟩ :: lexemes fuel line announced opening rest
      else match pieces .bare (rest.length + 2) (b :: rest) with
      | .error message => [⟨.broken message, line + rest.count lineFeed⟩]
      | .ok (w, after) =>
        let used := (b :: rest).take (rest.length + 1 - after.length)
        let line := line + used.count lineFeed
        let announced := match opening with
          | some withoutTabs => ⟨textOf w, withoutTabs, !hasQuotes w⟩ :: announced
          | none => announced
        ⟨.word (joined w), line⟩ :: lexemes fuel line announced none after

/-- Put the announced texts in the place of the words that announce them. -/
def placeDocuments : List Word → (opening : Bool) → List Lexeme → List Lexeme
  | _, _, [] => []
  | words, opening, l :: rest =>
    match l.kind, opening with
    | .document _, _ => placeDocuments words false rest
    | .operator op, _ =>
      l :: placeDocuments words (op = lit "<<" || op = lit "<<-") rest
    | .word _, true => ⟨.document (words.headD []), l.line⟩ :: placeDocuments (words.drop 1) false rest
    | _, _ => l :: placeDocuments words false rest

/-- Cut a script into lexemes. -/
def Lexeme.ofScript (script : Bytes) : List Lexeme :=
  let ls := lexemes (script.length + 1) 1 [] none script
  let words := ls.filterMap fun l => match l.kind with
    | .document w => some w
    | _ => none
  placeDocuments words false ls

end LineShell.Program.Sh
