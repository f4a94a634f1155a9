import LineShell.Errno

/-!
# How processes end

An `Ending` is an exit with a code, or a death by a signal. `Ending.status?` is what the
process that waits for another learns of its end.
-/

namespace LineShell

/-- How a process ended. -/
inductive Ending where
  | exited (code : Nat)
  | killed (signal : Nat)
deriving DecidableEq, Repr

namespace Ending

/-- An exit with a code, of which the system keeps the low eight bits. -/
def ofCode (code : Nat) : Ending := .exited (code % 256)

/-- The status of an ended process: its exit code, or 128 and its signal. A signal
without a name cannot be told. -/
def status? : Ending → Except Errno Nat
  | .exited code => .ok code
  | .killed n => if 1 ≤ n ∧ n ≤ 31 then .ok (128 + n) else .error .invalid

end Ending

end LineShell
