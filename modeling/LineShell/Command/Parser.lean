import LineShell.Command
import LineShell.Text.Blank
import LineShell.Text.Decimal
import LineShell.Token.Cursor

/-!
# Reading a command

A line is one or more segments with `|` between them. A segment is a row of words and
redirections in any order: each redirection is a symbol and the word after it, and the
other words are the program and its arguments. `Parser.segment` reads one segment,
`Parser.pipeline` the segments after it, and `Parser.line` a whole line. Each of them
returns the cursor as well, also when it fails, so that reading can go on from there.
-/

namespace LineShell

/-- Why a line is no command. -/
inductive SyntaxError where
  /-- A redirection symbol has no word after it. -/
  | missingFile (symbol : Symbol) (position : Nat)
  /-- A segment of a line with pipes has no program. -/
  | missingCommand (position : Nat)
  /-- A segment has more words than allowed. -/
  | tooManyArguments (limit : Nat)
  /-- Something is left after the command. -/
  | leftover (rest : Bytes) (position : Nat)
deriving DecidableEq, Repr

/-- The words for a syntax error. -/
def SyntaxError.message (e : SyntaxError) : Bytes :=
  Utf8.ofString "syntax error: " ++ match e with
    | .missingFile s p =>
      Utf8.ofString "missing file for redirection '" ++ [s.byte]
        ++ Utf8.ofString "' at position " ++ number p
    | .missingCommand p => Utf8.ofString "missing command at position " ++ number p
    | .tooManyArguments n => Utf8.ofString "too many args (max " ++ number n ++ Utf8.ofString ")"
    | .leftover rest p =>
      Utf8.ofString "leftover input at position " ++ number p ++ Utf8.ofString ": " ++ rest
where
  /-- The digits of a number. -/
  number (n : Nat) : Bytes := Utf8.encode (Decimal.ofNat n)

/-- The direction that a symbol writes, none for the pipe. -/
def Symbol.direction? : Symbol → Option Direction
  | .pipe => none
  | .input => some .input
  | .output => some .output

/-- What stands between two pipes: where it begins, its words, and its redirections. -/
structure Segment where
  start : Nat
  words : List Bytes := []
  redirections : List Redirection := []
deriving DecidableEq, Repr

/-- The command of a segment. Its first redirection is the innermost. -/
def Segment.command (s : Segment) : Command :=
  (Command.exec s.words).wrap s.redirections

namespace Parser

/-- The most words a segment may have when nothing else is said. -/
def defaultLimit : Nat := 10

/-- Read on in a segment that already holds `s`, up to a pipe or the end of the line. -/
def segmentFrom (limit : Nat) (s : Segment) (c : Cursor) : Except SyntaxError Segment × Cursor :=
  match _h : c.next with
  | (none, c') => (.ok s, c')
  | (some t, c') =>
    match t.kind with
    | .word =>
      if s.words.length < limit then
        segmentFrom limit { s with words := s.words ++ [t.text] } c'
      else (.error (.tooManyArguments limit), c')
    | .symbol symbol =>
      match symbol.direction? with
      | none => (.ok s, c.skip)
      | some d =>
        match _h' : c'.next with
        | (none, c'') => (.error (.missingFile symbol c''.position), c'')
        | (some file, c'') =>
          if file.isWord then
            segmentFrom limit
              { s with redirections := s.redirections ++ [{ direction := d, path := file.text }] } c''
          else (.error (.missingFile symbol file.start), c'')
termination_by c.rest.length
decreasing_by
  · exact Cursor.length_rest_next_lt (by assumption)
  · exact Nat.lt_trans (Cursor.length_rest_next_lt (by assumption))
      (Cursor.length_rest_next_lt (by assumption))

/-- Read the segment that begins at the cursor. -/
def segment (limit : Nat) (c : Cursor) : Except SyntaxError Segment × Cursor :=
  segmentFrom limit { start := c.position } c

theorem length_rest_segmentFrom_le (limit : Nat) (s : Segment) (c : Cursor) :
    (segmentFrom limit s c).2.rest.length ≤ c.rest.length := by
  fun_induction segmentFrom limit s c with
  | case1 s c c' h =>
    rw [Cursor.eq_skip_of_next_none h]
    exact Cursor.length_rest_skip_le c
  | case2 s c t c' h hk hl ih =>
    exact Nat.le_of_lt (Nat.lt_of_le_of_lt ih (Cursor.length_rest_next_lt h))
  | case3 s c t c' h hk hl => exact Nat.le_of_lt (Cursor.length_rest_next_lt h)
  | case4 s c t c' h symbol hk hd => exact Cursor.length_rest_skip_le c
  | case5 s c t c' h symbol hk d hd c'' h' =>
    rw [Cursor.eq_skip_of_next_none h']
    exact Nat.le_of_lt
      (Nat.lt_of_le_of_lt (Cursor.length_rest_skip_le c') (Cursor.length_rest_next_lt h))
  | case6 s c t c' h symbol hk d hd file c'' h' hw ih =>
    exact Nat.le_of_lt (Nat.lt_of_le_of_lt ih
      (Nat.lt_trans (Cursor.length_rest_next_lt h') (Cursor.length_rest_next_lt h)))
  | case7 s c t c' h symbol hk d hd file c'' h' hw =>
    exact Nat.le_of_lt
      (Nat.lt_trans (Cursor.length_rest_next_lt h') (Cursor.length_rest_next_lt h))

/-- Read the pipes and segments after the segment `left`. -/
def pipeline (limit : Nat) (left : Segment) (c : Cursor) : Except SyntaxError Command × Cursor :=
  if left.words.isEmpty then (.error (.missingCommand left.start), c)
  else if (c.peek [Symbol.pipe.byte]).1 then
    match _h : c.next with
    | (none, c') => (.ok left.command, c')
    | (some _, c') =>
      match _hs : segment limit c' with
      | (.error e, c'') => (.error e, c'')
      | (.ok right, c'') =>
        match pipeline limit right c'' with
        | (.error e, d) => (.error e, d)
        | (.ok r, d) => (.ok (.pipe left.command r), d)
  else (.ok left.command, c.skip)
termination_by c.rest.length
decreasing_by
  have hs : segment limit c' = (.ok right, c'') := by assumption
  have hle := length_rest_segmentFrom_le limit { start := c'.position } c'
  rw [show segmentFrom limit { start := c'.position } c' = (.ok right, c'') from hs] at hle
  exact Nat.lt_of_le_of_lt hle (Cursor.length_rest_next_lt (by assumption))

/-- Read a line's command. One segment alone may be empty. -/
def command (limit : Nat) (c : Cursor) : Except SyntaxError Command × Cursor :=
  match segment limit c with
  | (.error e, c') => (.error e, c')
  | (.ok first, c') =>
    if (c'.peek [Symbol.pipe.byte]).1 then pipeline limit first c'.skip
    else (.ok first.command, c'.skip)

/-- Read a line's command, after which nothing may be left. -/
def line (limit : Nat) (c : Cursor) : Except SyntaxError Command × Cursor :=
  match command limit c with
  | (.error e, c') => (.error e, c')
  | (.ok r, c') =>
    if c'.atEnd.1 then (.ok r, c'.skip)
    else (.error (.leftover (Utf8.encode (Text.trimEnd (Utf8.decodeLossy c'.skip.rest)))
      c'.skip.position), c'.skip)

end Parser

/-- The command of a line, whose segments have at most `limit` words each. -/
def parse (limit : Nat) (line : Bytes) : Except SyntaxError Command :=
  (Parser.line limit (Cursor.ofLine line)).1

end LineShell
