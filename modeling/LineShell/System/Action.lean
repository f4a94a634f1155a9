import LineShell.System.Files

/-!
# What a program does next

A program is a set of states, and an `Action` is what it does in one of them: compute,
use a descriptor, look at or change the file tree, or end. Where the system has an
answer to give, the next state depends on it.
-/

namespace LineShell

/-- The next thing a program does, with states in `σ`. -/
inductive Action (σ : Type) where
  /-- Go on. -/
  | compute (next : σ)
  /-- Read at most `count` bytes from a descriptor. No bytes mean the end. -/
  | read (descriptor count : Nat) (next : Except Errno Bytes → σ)
  /-- Write bytes to a descriptor. The answer is how many were taken. If nobody can read
  them any more, the program is killed, or goes on with `broken`. -/
  | write (descriptor : Nat) (data : Bytes) (broken : Option σ) (next : Except Errno Nat → σ)
  /-- Open a path. The answer is the new descriptor. The program knows its descriptors by
  the numbers that `known` translates. -/
  | openPath (path : Bytes) (mode : OpenMode) (known : Nat → Option Nat)
      (next : Except Errno Nat → σ)
  /-- Go back in the file of a descriptor by so many bytes. -/
  | rewind (descriptor count : Nat) (next : Except Errno Unit → σ)
  /-- Close a descriptor. -/
  | close (descriptor : Nat) (next : σ)
  /-- Ask for the own number. -/
  | self (next : Nat → σ)
  /-- Ask for which node a descriptor stands, if it stands for one, and for the offset of
  the next byte. -/
  | inspect (descriptor : Nat) (next : Option (NodeId × Nat) → σ)
  /-- Look at the file tree, and change it and the program's own directory. -/
  | files (change : Files → View → Files × NodeId) (next : Files → View → σ)
  /-- End with an exit code. -/
  | exit (code : Nat)
  /-- Die of a signal. -/
  | raise (signal : Nat)

/-- The action with `f` applied to every state that may come next. -/
def Action.map {σ τ : Type} (f : σ → τ) : Action σ → Action τ
  | .compute next => .compute (f next)
  | .read d count next => .read d count fun a => f (next a)
  | .write d data broken next => .write d data (broken.map f) fun a => f (next a)
  | .openPath path mode known next => .openPath path mode known fun a => f (next a)
  | .rewind d count next => .rewind d count fun a => f (next a)
  | .close d next => .close d (f next)
  | .self next => .self fun pid => f (next pid)
  | .inspect d next => .inspect d fun a => f (next a)
  | .files change next => .files change fun files view => f (next files view)
  | .exit code => .exit code
  | .raise signal => .raise signal

/-- The programs that a system can run. -/
structure Machine (σ : Type) where
  /-- The state in which the program named first by the arguments begins, with the
  arguments it gets. -/
  load : Files → View → List Bytes → Except Errno σ
  /-- What a program does in a state. -/
  act : σ → Action σ

end LineShell
