import LineShell.Program.Arguments
import LineShell.System.Files

/-!
# Names in paths

`basename` writes the last name in a path, and `dirname` the path without it.
-/

namespace LineShell.Program

open Routine Arguments

/-- The last name in a path. -/
def baseName (path : Bytes) : Bytes :=
  let cut := Text.dropEndWhile (· = Path.slash) path
  if cut.isEmpty then (if path.isEmpty then [] else [Path.slash])
  else (cut.reverse.takeWhile (· != Path.slash)).reverse

/-- A path without its last name. -/
def directoryName (path : Bytes) : Bytes :=
  let cut := Text.dropEndWhile (· = Path.slash) path
  if cut.isEmpty then (if path.isEmpty then lit "." else [Path.slash])
  else
    let front := Text.dropEndWhile (· != Path.slash) cut
    if front.isEmpty then lit "."
    else
      let front := Text.dropEndWhile (· = Path.slash) front
      if front.isEmpty then [Path.slash] else front

/-- `b` without `suffix` at its end, unless that is all of it. -/
def withoutSuffix (b suffix : Bytes) : Bytes :=
  if b != suffix && suffix.isSuffixOf b then b.take (b.length - suffix.length) else b

/-- Write the last name in a path. -/
def basename : Utility := fun args => do
  let p ← leadingArguments [flag 'a' "multiple", valued 's' "suffix", flag 'z' "zero"] 1 args
  let ending := if p.has 'z' then [0] else [lineFeed]
  let name (path suffix : Bytes) : Bytes :=
    let n := baseName path
    (if n = [Path.slash] then n else withoutSuffix n suffix) ++ ending
  match p.operands with
  | [] => refuse 1 (lit "missing operand")
  | path :: rest =>
    if p.has 'a' || p.has 's' then
      put ((path :: rest).flatMap fun q => name q ((p.value? 's').getD []))
    else match rest with
      | _ :: extra :: _ => refuse 1 (lit "extra operand " ++ Quoting.plain extra)
      | rest => put (name path (rest.headD []))

/-- Write a path without its last name. -/
def dirname : Utility := fun args => do
  let p ← arguments [flag 'z' "zero"] 1 args
  if p.operands.isEmpty then refuse 1 (lit "missing operand")
  put (p.operands.flatMap fun q => directoryName q ++ (if p.has 'z' then [0] else [lineFeed]))

end LineShell.Program
