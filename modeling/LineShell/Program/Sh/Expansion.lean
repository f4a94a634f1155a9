import LineShell.Program.Sh.Glob
import LineShell.Program.Sh.Lexeme
import LineShell.Program.Sh.State
import LineShell.Program.Sh.Sum

/-!
# Expanding words

Words stand for fields. `Shell.fields` puts in the values of parameters, the output of
scripts and the values of sums, cuts what is not quoted at separators, and lets patterns
stand for the paths that they fit. `Shell.text` does without cuts and patterns.
-/

namespace LineShell.Program.Sh

open Routine

/-! ## Fields -/

/-- The fields made so far, and the one that is not complete, all in reverse. -/
structure Fields where
  complete : List (List Mark) := []
  part : Option (List Mark) := none

namespace Fields

/-- Go on with the field that is not complete. -/
def add (f : Fields) (ms : List Mark) : Fields :=
  { f with part := some (ms.reverse ++ f.part.getD []) }

/-- Complete the field, if there is one. -/
def cut (f : Fields) : Fields :=
  match f.part with
  | some ms => ⟨ms :: f.complete, none⟩
  | none => f

/-- Complete the field, even if nothing is in it. -/
def close (f : Fields) : Fields := ⟨f.part.getD [] :: f.complete, none⟩

/-- The byte is a blank at which values are cut. -/
def isBlankSeparator (separators : Bytes) (b : UInt8) : Bool :=
  separators.contains b && (ByteClass.isBlank b || b = lineFeed)

/-- Add a value that is cut at separators. Blanks between two fields count as one. Every step
takes a byte off, so as much fuel as there are bytes is enough. -/
def addCut (separators : Bytes) : Nat → Fields → Bytes → Fields
  | 0, f, _ => f
  | _, f, [] => f
  | fuel + 1, f, b :: rest =>
    let behindBlanks (b : Bytes) : Bytes := b.dropWhile (isBlankSeparator separators)
    if !separators.contains b then addCut separators fuel (f.add [⟨b, false⟩]) rest
    else
      let rest := behindBlanks (b :: rest)
      match rest with
      | [] => f.cut
      | c :: more =>
        if separators.contains c then addCut separators fuel f.close (behindBlanks more)
        else addCut separators fuel f.cut rest

/-- Add values that are fields each, the first and the last joined to their neighbours. -/
def addEach (add : Fields → Bytes → Fields) (f : Fields) : List Bytes → Fields
  | [] => f
  | [b] => add f b
  | b :: rest => addEach add (add f b).cut rest

/-- Every field. -/
def toList (f : Fields) : List (List Mark) := f.cut.complete.reverse.map List.reverse

end Fields

/-! ## Pieces -/

/-- What a word is expanded to. -/
structure Purpose where
  /-- Values are cut into fields. -/
  cuts : Bool
  /-- So is text, because it stands for a value. -/
  cutsText : Bool := false

/-- What a parameter gives. -/
inductive Given where
  | nothing
  | value (b : Bytes)
  /-- All arguments. -/
  | arguments (star : Bool)

/-- What a parameter gives. -/
def Shell.given (name : Bytes) : Shell Given := do
  let s ← get
  if name = lit "@" then return .arguments false
  if name = lit "*" then return .arguments true
  let pid ← Shell.act self
  return match s.value? pid name with
    | some b => .value b
    | none => .nothing

/-- Nothing is given, or nothing but an empty value if that counts. -/
def Given.isMissing (s : State) (colon : Bool) : Given → Bool
  | .nothing => true
  | .value b => colon && b.isEmpty
  | .arguments _ => s.arguments.isEmpty

/-- Change the value that is given. -/
def Given.map (f : Bytes → Bytes) : Given → Given
  | .value b => .value (f b)
  | g => g

/-- Add what a parameter gives. -/
def Given.addTo (s : State) (purpose : Purpose) (quoted : Bool) (f : Fields) : Given → Fields
  | .nothing => if quoted then f.add [] else f
  | .value b => one f b
  | .arguments star =>
    if purpose.cuts && !(quoted && star) then Fields.addEach one f s.arguments
    else one f ((if star then s.separators.take 1 else lit " ").intercalate s.arguments)
where
  /-- Add one value. -/
  one (f : Fields) (b : Bytes) : Fields :=
    if quoted then f.add (Mark.all true b)
    else if !purpose.cuts then f.add (Mark.all false b)
    else Fields.addCut s.separators (b.length + 1) f b

/-- Text without the line feeds at its end. -/
def dropLineEnds (b : Bytes) : Bytes := Text.dropEndWhile (· = lineFeed) b

mutual

/-- Expand the pieces of a word. -/
def Shell.expand (evaluate : Bytes → Shell Unit) (purpose : Purpose) (f : Fields) :
    Word → Shell Fields
  | [] => return f
  | p :: rest => do
    let f ← Shell.expandPiece evaluate purpose f p
    Shell.expand evaluate purpose f rest

/-- Expand one piece of a word. -/
def Shell.expandPiece (evaluate : Bytes → Shell Unit) (purpose : Purpose) (f : Fields) :
    Piece → Shell Fields
  | .text b quoted => do
    if b.isEmpty && !quoted then return f
    if purpose.cutsText && !quoted then return Fields.addCut (← get).separators (b.length + 1) f b
    return f.add (Mark.all quoted b)
  | .parameter name quoted => do
    let v ← Shell.given name
    if (match v with | .nothing => true | _ => false) && (← get).has 'u' then
      Shell.fatal (name ++ lit ": parameter not set")
    return v.addTo (← get) purpose quoted f
  | .length name quoted => do
    let s ← get
    let n ← match ← Shell.given name with
      | .nothing => if s.has 'u' then Shell.fatal (name ++ lit ": parameter not set") else pure 0
      | .value b => pure b.length
      | .arguments _ => pure s.arguments.length
    return (Given.value (digits n)).addTo s purpose quoted f
  | .modified name how other quoted => do
    let v ← Shell.given name
    let s ← get
    let inner : Purpose := { purpose with cutsText := purpose.cuts && !quoted }
    let plain : Shell Bytes := do
      let g ← Shell.expand evaluate { cuts := false } {} other
      return Mark.bytes (g.toList.flatten)
    let own : Fields := v.addTo s purpose quoted f
    match how with
    | .orElse colon =>
      if v.isMissing s colon then Shell.expand evaluate inner f other else return own
    | .instead colon =>
      if v.isMissing s colon then return f else Shell.expand evaluate inner f other
    | .assigned colon =>
      if v.isMissing s colon then
        if !isName name then Shell.fatal (name ++ lit ": bad variable name")
        let b ← plain
        Shell.assign name b
        return (Given.value b).addTo s purpose quoted f
      else return own
    | .required colon =>
      if v.isMissing s colon then
        let b ← plain
        let words := if other.isEmpty then
            lit "parameter not set" ++ if colon then lit " or null" else []
          else b
        Shell.fatal (name ++ lit ": " ++ words)
      else return own
    | .withoutFront longest => do
      let g ← Shell.expand evaluate { cuts := false } {} other
      return (v.map (Glob.cutFront longest (Glob.parts g.toList.flatten))).addTo s purpose quoted f
    | .withoutEnd longest => do
      let g ← Shell.expand evaluate { cuts := false } {} other
      return (v.map (Glob.cutEnd longest (Glob.parts g.toList.flatten))).addTo s purpose quoted f
  | .output script quoted => do
    let p ← Shell.alone evaluate (evaluate script)
    let (data, e) ← Shell.act (collected p)
    modify fun s => { s with answer := statusOf e }
    return (Given.value (dropLineEnds data)).addTo (← get) purpose quoted f
  | .sum text quoted => do
    let g ← Shell.expand evaluate { cuts := false } {} text
    let b := Mark.bytes g.toList.flatten
    let pid ← Shell.act self
    let s ← get
    match Sum.ofText b >>= fun a => a.value (s.value? pid) [] with
    | .ok (n, changed) => do
      for (name, value) in changed.reverse do Shell.assign name value
      return (Given.value (signedDigits n)).addTo (← get) purpose quoted f
    | .error e => Shell.fatal (e.words b)
  | .meaningless => Shell.fatal (lit "Bad substitution")

end

namespace Shell

/-- The marks of a word that is one field. -/
def marks (evaluate : Bytes → Shell Unit) (w : Word) : Shell (List Mark) := do
  return (← expand evaluate { cuts := false } {} w).toList.flatten

/-- The text of a word that is one field. -/
def text (evaluate : Bytes → Shell Unit) (w : Word) : Shell Bytes := do
  return Mark.bytes (← marks evaluate w)

/-- The fields of words. -/
def fields (evaluate : Bytes → Shell Unit) : List Word → Shell (List Bytes)
  | [] => return []
  | w :: rest => do
    let f ← expand evaluate { cuts := true } {} w
    let literal := (← get).has 'f'
    let (files, view) ← act look
    let found := f.toList.flatMap fun ms =>
      if literal then [Mark.bytes ms] else Glob.paths files view ms
    return found ++ (← fields evaluate rest)

end Shell

end LineShell.Program.Sh
