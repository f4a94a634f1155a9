import LineShell.Program.Arguments

/-!
# Programs that copy

`cat` copies files to its output, with numbers and marks if asked for, and `tee` copies
its input to several files.
-/

namespace LineShell.Program

open Routine Arguments

/-! ## Copying to the output -/

namespace Cat

/-- What a copy adds to the text. -/
structure Marks where
  number : Bool := false
  numberFilled : Bool := false
  squeeze : Bool := false
  ends : Bool := false
  tabs : Bool := false
  unprintable : Bool := false

/-- The copy is the text itself. -/
def Marks.areNone (m : Marks) : Bool :=
  !(m.number || m.numberFilled || m.squeeze || m.ends || m.tabs || m.unprintable)

/-- The place in the text: the number of the line, whether it has begun, whether the line
before it was empty, and whether a carriage return is still to be written. -/
structure Position where
  line : Nat := 1
  begun : Bool := false
  afterEmpty : Bool := false
  pendingReturn : Bool := false

/-- A number in front of a line, six wide. -/
def label (n : Nat) : Bytes :=
  padLeft 6 (digits n) ++ lit "\t"

/-- A byte as the marks show it. -/
def Marks.show (m : Marks) (b : UInt8) : Bytes :=
  let low (b : UInt8) : Bytes :=
    if b < 0x20 then [0x5E, b + 0x40] else if b = 0x7F then lit "^?" else [b]
  if b = 0x09 then (if m.tabs then lit "^I" else [b])
  else if !m.unprintable then [b]
  else if b < 0x80 then low b
  else lit "M-" ++ low (b - 0x80)

/-- A byte that is no line feed, with the number of its line if it is the first. -/
def Marks.inside (m : Marks) (p : Position) (b : UInt8) : Position × Bytes :=
  let text := m.show b
  if p.begun then (p, text)
  else if m.number || m.numberFilled then
    ({ p with begun := true, line := p.line + 1, afterEmpty := false }, label p.line ++ text)
  else ({ p with begun := true, afterEmpty := false }, text)

/-- The end of a line. An empty line behind another can be left out. -/
def Marks.lineEnd (m : Marks) (p : Position) : Position × Bytes :=
  let mark := if m.ends then lit "$\n" else lit "\n"
  if p.begun then ({ p with begun := false }, mark)
  else if m.squeeze && p.afterEmpty then (p, [])
  else if m.number && !m.numberFilled then
    ({ p with line := p.line + 1, afterEmpty := true }, label p.line ++ mark)
  else ({ p with afterEmpty := true }, mark)

/-- The copy of one byte. Where line ends are marked, a carriage return waits for the byte
behind it, as it is shown in front of a line feed. -/
def Marks.step (m : Marks) (p : Position) (b : UInt8) : Position × Bytes :=
  let (p, before) :=
    if p.pendingReturn then
      let p := { p with pendingReturn := false }
      if b = lineFeed then
        let r := m.inside p 0x5E
        (r.1, r.2 ++ lit "M")
      else m.inside p 0x0D
    else (p, [])
  if b = lineFeed then
    let r := m.lineEnd p
    (r.1, before ++ r.2)
  else if b = 0x0D && m.ends && !m.unprintable then ({ p with pendingReturn := true }, before)
  else
    let r := m.inside p b
    (r.1, before ++ r.2)

/-- The copy of a chunk. -/
def Marks.chunk (m : Marks) (p : Position) (data : Bytes) : Position × Bytes :=
  let r := data.foldl (fun (r : Position × List Bytes) b =>
    let s := m.step r.1 b
    (s.1, s.2 :: r.2)) (p, [])
  (r.1, r.2.reverse.flatten)

/-- What is still to be written at the end. -/
def Marks.finish (m : Marks) (p : Position) : Bytes :=
  if p.pendingReturn then (m.inside { p with pendingReturn := false } 0x0D).2 else []

/-- The options. -/
def options : List Arguments.Spec :=
  [flag 'b' "number-nonblank", flag 'n' "number", flag 's' "squeeze-blank",
    flag 'v' "show-nonprinting", flag 'E' "show-ends", flag 'T' "show-tabs", flag 'A' "show-all",
    flag 'e', flag 't', flag 'u']

/-- The marks that the options ask for. -/
def Marks.ofOptions (p : Arguments.Parsed) : Marks where
  number := p.has 'n'
  numberFilled := p.has 'b'
  squeeze := p.has 's'
  ends := p.has 'E' || p.has 'e' || p.has 'A'
  tabs := p.has 'T' || p.has 't' || p.has 'A'
  unprintable := p.has 'v' || p.has 'e' || p.has 't' || p.has 'A'

/-- The words for files that cannot be used. -/
def wording : Wording where
  cannotClose e := some (lit "closing standard input: " ++ e.sentence)

end Cat

/-- Copy the inputs to the output. A file is not copied behind its own end. -/
def cat : Utility := fun args => do
  let p ← arguments Cat.options 1 args
  let marks := Cat.Marks.ofOptions p
  if ((← look).2.opened 1).isNone then
    giveUp 1 (lit "standard output: " ++ Errno.badDescriptor.sentence)
  let output ← inspect (← standard 1)
  let copy (r : Cat.Position × Bool) (path : Bytes) (d : Option Nat) :
      Routine ((Cat.Position × Bool) × Option Errno) := do
    let files := (← look).1
    let input ← inspect d
    let same := match input, output with
      | some (a, offset), some (b, _) => a = b && files.isFile a && offset < files.size a
      | _, _ => false
    if same then
      complain (Quoting.shell path ++ lit ": input file is output file")
      return ((r.1, false), none)
    else if marks.areNone then
      let (_, failure) ← mapChunks d (fun () data => ((), data)) patience ()
      return (r, failure)
    else
      let (position, failure) ← mapChunks d marks.chunk patience r.1
      return ((position, r.2), failure)
  let ((position, distinct), good) ← foldInputs Cat.wording copy ({}, true) p.operands
  put (marks.finish position)
  exit (if good && distinct then 0 else 1)

/-! ## Copying to several files -/

namespace Tee

/-- A place to which the input is copied, with its name in messages. -/
structure Output where
  name : Bytes
  descriptor : Option Nat

/-- Open each path for writing. A path that cannot be opened is complained about. -/
def openAll (mode : OpenMode) : List Bytes → Routine (List Output × Bool)
  | [] => pure ([], true)
  | path :: paths => do
    match ← openPath path mode with
    | .ok d =>
      let r ← openAll mode paths
      return (⟨path, some d⟩ :: r.1, r.2)
    | .error e =>
      complain (plainly path e)
      return ((← openAll mode paths).1, false)

/-- Write data to each of the outputs. One that fails is left out from then on. -/
def writeEach (data : Bytes) : List Output → Routine (List Output × Bool)
  | [] => pure ([], true)
  | o :: rest => do
    match ← writeAll o.descriptor data.length data with
    | .ok () =>
      let r ← writeEach data rest
      return (o :: r.1, r.2)
    | .error e =>
      complain (plainly o.name e)
      return ((← writeEach data rest).1, false)

/-- Copy a stream to the outputs, as long as there is one. -/
def copy : (rounds : Nat) → List Output → (good : Bool) → Routine Bool
  | 0, _, good => pure good
  | rounds + 1, outputs, good => do
    if outputs.isEmpty then return good
    match ← read (← standard 0) chunk with
    | .error e =>
      complain (lit "read error: " ++ e.sentence)
      return false
    | .ok data =>
      if data.isEmpty then return good
      let r ← writeEach data outputs
      copy rounds r.1 (good && r.2)

/-- The options. -/
def options : List Arguments.Spec :=
  [flag 'a' "append", flag 'i' "ignore-interrupts",
    perhapsValued 'p' "output-error"]

end Tee

/-- Copy the standard input to the output and to files. -/
def tee : Utility := fun args => do
  let p ← arguments Tee.options 1 args
  let (outputs, opened) ← Tee.openAll (if p.has 'a' then .append else .write) p.operands
  let good ← Tee.copy patience (⟨lit "standard output", ← standard 1⟩ :: outputs) opened
  for o in outputs do
    if let some d := o.descriptor then close d
  if !(← hasInput) then giveUp 1 (lit "standard input: " ++ Errno.badDescriptor.sentence)
  exit (if good then 0 else 1)

end LineShell.Program
