import LineShell.Program.Arguments

/-!
# What scripts of a shell say

A script is a `Statement`. The words in it are made of pieces: text, the values of
parameters, the output of commands, and sums.
-/

namespace LineShell.Program.Sh

/-- What is made of the value of a parameter, by the signs behind its name. A colon lets an
empty value count as none. -/
inductive Modifier where
  /-- The other text stands for a value that is missing. -/
  | orElse (colon : Bool)
  /-- The other text becomes the value that is missing. -/
  | assigned (colon : Bool)
  /-- A missing value ends the script with the other text. -/
  | required (colon : Bool)
  /-- The other text stands for a value that is there. -/
  | instead (colon : Bool)
  /-- What a pattern fits is cut off the front. -/
  | withoutFront (longest : Bool)
  /-- What a pattern fits is cut off the end. -/
  | withoutEnd (longest : Bool)
deriving DecidableEq, Repr

/-- A piece of a word. What is not quoted is cut at blanks and read as a pattern. -/
inductive Piece where
  | text (b : Bytes) (quoted : Bool)
  | parameter (name : Bytes) (quoted : Bool)
  /-- The value of a parameter, modified by other text. -/
  | modified (name : Bytes) (how : Modifier) (other : List Piece) (quoted : Bool)
  /-- The length of a parameter's value. -/
  | length (name : Bytes) (quoted : Bool)
  /-- What a script writes. -/
  | output (script : Bytes) (quoted : Bool)
  /-- The value of a sum. -/
  | sum (text : List Piece) (quoted : Bool)
  /-- Something that has no meaning. -/
  | meaningless
deriving Inhabited

/-- A word. -/
abbrev Word := List Piece

/-- What a redirection does with a descriptor. -/
inductive Redirect.Kind where
  | openFile (mode : OpenMode)
  /-- The descriptor becomes the same as another. -/
  | copy
  /-- The descriptor reads a text that stands in the script. -/
  | document
deriving DecidableEq, Repr

/-- A redirection. -/
structure Redirect where
  descriptor : Nat
  kind : Redirect.Kind
  /-- The path, the number of the other descriptor, or the text. -/
  word : Word

/-- A statement. The numbers are those of lines. -/
inductive Statement where
  | nothing
  | simple (line : Nat) (assignments : List (Bytes × Word)) (words : List Word)
      (redirects : List Redirect)
  | sequence (a b : Statement)
  | both (a b : Statement)
  | either (a b : Statement)
  | negated (a : Statement)
  | piped (a b : Statement)
  /-- A statement for which nobody waits. -/
  | background (a : Statement)
  | conditional (c yes no : Statement)
  /-- The body is repeated while the condition has a given truth. -/
  | loop (truth : Bool) (c body : Statement)
  | each (name : Bytes) (words : Option (List Word)) (body : Statement)
  /-- The statement of the first arm with a pattern that fits. -/
  | choice (word : Word) (arms : List (List Word × Statement))
  | function (name : Bytes) (body : Statement)
  | redirected (line : Nat) (a : Statement) (redirects : List Redirect)
  | subshell (a : Statement)
deriving Inhabited

end LineShell.Program.Sh
