import LineShell.Program.Arguments

/-!
# Asking

Programs that remove or replace files can be told to ask first. The question goes to the
standard error stream, and the answer is a line of the standard input stream.
-/

namespace LineShell.Program

open Routine Arguments

namespace Asking

/-- A line of the standard input stream, of at most so many bytes. No byte behind its end is
taken. -/
def line : (rounds : Nat) → Routine Bytes
  | 0 => pure []
  | rounds + 1 => do
    match ← read (← standard 0) 1 with
    | .ok (b :: _) => if b = lineFeed then pure [] else return b :: (← line rounds)
    | _ => pure []

end Asking

/-- Ask a question, if need be. An answer that begins with a `y` agrees. -/
def agrees (asks : Bool) (question : Bytes) : Routine Bool := do
  if !asks then return true
  warn ((← frame).name ++ lit ": " ++ question ++ lit "? ")
  let answer ← Asking.line patience
  return answer.head? = some 0x79 || answer.head? = some 0x59

end LineShell.Program
