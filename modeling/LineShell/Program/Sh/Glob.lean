import LineShell.Program.Pattern
import LineShell.System.Files

/-!
# Patterns of names

In a `Glob` a star fits any text, a question mark any byte, and brackets one byte of a set.
What is quoted stands for itself. `Glob.paths` gives the paths in a file tree that a pattern
fits, and `Glob.cutFront` and `Glob.cutEnd` take what a pattern fits off a text.
-/

namespace LineShell.Program.Sh

/-- A byte of a text, and whether it was quoted. -/
structure Mark where
  byte : UInt8
  quoted : Bool
deriving DecidableEq, Repr

/-- The bytes of a text, all of them quoted or none. -/
def Mark.all (quoted : Bool) (b : Bytes) : List Mark := b.map (⟨·, quoted⟩)

/-- A text without the marks. -/
def Mark.bytes (ms : List Mark) : Bytes := ms.map Mark.byte

namespace Glob

/-- A part of a pattern. -/
inductive Part where
  | byte (b : UInt8)
  /-- Any byte. -/
  | any
  /-- Any text. -/
  | many
  | set (members : Bytes)
deriving DecidableEq, Repr

/-- The set in brackets, behind the opening one, and how many bytes it takes. -/
def set? (text : Bytes) : Option (Bytes × Nat) :=
  let (negated, body) := match text with
    | 0x21 :: body => (true, body)
    | body => (false, body)
  match Pattern.bracket (body.length + 1) true body with
  | .error _ => none
  | .ok (members, rest) =>
    some (if negated then ByteClass.all.filter (!members.contains ·) else members,
      text.length - rest.length)

/-- The parts of a pattern. Every step takes a byte off, so as much fuel as there are bytes
is enough. -/
def partsFrom : Nat → List Mark → List Part
  | 0, _ => []
  | _, [] => []
  | fuel + 1, m :: rest =>
    if m.quoted then .byte m.byte :: partsFrom fuel rest
    else if m.byte = 0x2A then .many :: partsFrom fuel rest
    else if m.byte = 0x3F then .any :: partsFrom fuel rest
    else if m.byte = 0x5B then
      match set? (Mark.bytes rest) with
      | some (members, n) => .set members :: partsFrom fuel (rest.drop n)
      | none => .byte m.byte :: partsFrom fuel rest
    else .byte m.byte :: partsFrom fuel rest

/-- The parts of a pattern. -/
def parts (ms : List Mark) : List Part := partsFrom ms.length ms

/-- The pattern fits one text only. -/
def isPlain (ps : List Part) : Bool :=
  ps.all fun
    | .byte _ => true
    | _ => false

/-- A pattern fits a text. -/
def fits : List Part → Bytes → Bool
  | [], text => text.isEmpty
  | .many :: ps, [] => fits ps []
  | .many :: ps, b :: text => fits ps (b :: text) || fits (.many :: ps) text
  | .byte _ :: _, [] => false
  | .any :: _, [] => false
  | .set _ :: _, [] => false
  | .byte c :: ps, b :: text => c = b && fits ps text
  | .any :: ps, _ :: text => fits ps text
  | .set members :: ps, b :: text => members.contains b && fits ps text
termination_by ps text => (text.length, ps.length)

/-! ## Cutting texts -/

/-- A text without the shortest, or longest, text at its front that a pattern fits. -/
def cutFront (longest : Bool) (ps : List Part) (text : Bytes) : Bytes :=
  let sizes := List.range (text.length + 1)
  match (if longest then sizes.reverse else sizes).find? fun n => fits ps (text.take n) with
  | some n => text.drop n
  | none => text

/-- A text without the shortest, or longest, text at its end that a pattern fits. -/
def cutEnd (longest : Bool) (ps : List Part) (text : Bytes) : Bytes :=
  let sizes := List.range (text.length + 1)
  match (if longest then sizes else sizes.reverse).find? fun n => fits ps (text.drop n) with
  | some n => text.take n
  | none => text

/-! ## Paths -/

/-- The marks between slashes. -/
def names (ms : List Mark) : List (List Mark) :=
  let (name, rest) := ms.foldr (fun m (name, rest) =>
    if m.byte = Path.slash then ([], name :: rest) else (m :: name, rest))
    (([] : List Mark), ([] : List (List Mark)))
  name :: rest

/-- A pattern fits the name of a file. A point at its front must stand in the pattern. -/
def fitsName (ps : List Part) (name : Bytes) : Bool :=
  fits ps name && (name.head? != some 0x2E || ps.head? = some (.byte 0x2E))

/-- The paths that go on from a path by patterns for one name each. -/
def follow (files : Files) (view : View) : (path : Bytes) → List (List Mark) → List Bytes
  | path, [] => [path]
  | path, name :: rest =>
    let ps := parts name
    let glue (n : Bytes) : Bytes := if rest.isEmpty then n else n ++ [Path.slash]
    if isPlain ps then follow files view (path ++ glue (Mark.bytes name)) rest
    else
      match files.resolveDirectory view (if path.isEmpty then Path.here else path) with
      | .error _ => []
      | .ok d =>
        (((files.entries d).map Prod.fst).filter (fitsName ps)).flatMap fun n =>
          follow files view (path ++ glue n) rest

/-- The paths that a pattern fits, in order. A text that is no pattern, or fits nothing,
stands for itself. -/
def paths (files : Files) (view : View) (ms : List Mark) : List Bytes :=
  if isPlain (parts ms) then [Mark.bytes ms]
  else
    let found := (follow files view [] (names ms)).filter fun path =>
      (files.resolveNode view path .keep).isOk
    if found.isEmpty then [Mark.bytes ms]
    else found.mergeSort fun a b => compareBytes a b != .gt

end Glob

end LineShell.Program.Sh
