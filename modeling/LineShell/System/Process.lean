import LineShell.Executor
import LineShell.System.Action
import LineShell.System.Descriptors
import LineShell.System.Ending

/-!
# Processes

A `Process` has a descriptor table, a directory, and a `Task`: what it still has to do.
The shell's task is to execute a line and wait for it. The tasks of the processes made
for the line follow the command tree: redirections are opened and installed one by one,
a pipe is made, its two sides get a process each and are waited for, and a program is
loaded and runs.
-/

namespace LineShell

/-- The number of a process. -/
abbrev Pid := Nat

/-- What a process still has to do. -/
inductive Task (σ : Type) where
  /-- Execute a line. -/
  | execute (c : Command)
  /-- Wait for the process of the line. -/
  | awaitLine (line : Pid)
  /-- The line was executed. -/
  | executed (result : ExecResult)
  /-- Run a command and end with its status. -/
  | run (c : Command)
  /-- Open the redirections `rs` in turn, then run the command inside them. -/
  | open_ (rs : List Redirection) (inner : Command)
  /-- Put the handle just opened in the place of `r.descriptor`, then go on. -/
  | install (handle : Nat) (r : Redirection) (rs : List Redirection) (inner : Command)
  /-- Make the process of the left side of a pipe. -/
  | forkLeft (reading writing : Nat) (left right : Command)
  /-- Close the writing end. -/
  | closeWriting (reading writing : Nat) (leftPid : Pid) (right : Command)
  /-- Make the process of the right side. -/
  | forkRight (reading : Nat) (leftPid : Pid) (right : Command)
  /-- Close the reading end. -/
  | closeReading (reading : Nat) (leftPid rightPid : Pid)
  /-- Wait for the left side. -/
  | awaitLeft (leftPid rightPid : Pid)
  /-- Wait for the right side. -/
  | awaitRight (rightPid : Pid)
  /-- In the process of the left side: close the reading end. -/
  | leaveReading (reading writing : Nat) (c : Command)
  /-- Put an end of a pipe in its place, then run a command. -/
  | attach (handle target : Nat) (c : Command)
  /-- Write the pieces of a message on descriptor 2, then exit. -/
  | complain (pieces : List Bytes) (code : Nat)
  /-- Be a program. -/
  | program (state : σ)
  /-- Ended, and not waited for yet. -/
  | ended (e : Ending)
  /-- Ended and waited for. -/
  | reaped (e : Ending)

/-- A process. -/
structure Process (σ : Type) where
  task : Task σ
  descriptors : Descriptors := {}
  directory : NodeId := 0
  /-- The arguments of the program it became. -/
  arguments : Option (List Bytes) := none

/-- An opened file: its node, the way it is used, and the offset of the next byte. -/
structure OpenFile where
  node : NodeId
  mode : OpenMode
  offset : Nat := 0
deriving DecidableEq, Repr

/-- The state of the system. The shell is process 0. -/
structure System (σ : Type) where
  processes : Array (Process σ)
  files : Files
  openFiles : Array OpenFile := #[]
  /-- What is in each pipe, the oldest byte first. -/
  pipes : Array Bytes := #[]
  /-- The most bytes in a pipe. -/
  capacity : Nat := 65536
  /-- One more than the highest descriptor a process can have. -/
  descriptorLimit : Nat := 1024

namespace System

variable {σ : Type}

/-- The shell. -/
def shell : Pid := 0

/-- A process is at a given place in its work. -/
def task? (s : System σ) (pid : Pid) : Option (Task σ) :=
  s.processes[pid]?.map Process.task

/-- Some process has a handle on a stream. -/
def held (s : System σ) (stream : Stream) : Bool :=
  s.processes.any fun p => p.descriptors.holds stream

/-- Put another process under a number. -/
def setProcess (s : System σ) (pid : Pid) (p : Process σ) : System σ :=
  { s with processes := s.processes.setIfInBounds pid p }

/-- Put a pipe's contents. -/
def setPipe (s : System σ) (pipe : Nat) (contents : Bytes) : System σ :=
  { s with pipes := s.pipes.setIfInBounds pipe contents }

/-- What is in a pipe. -/
def pipe (s : System σ) (pipe : Nat) : Bytes :=
  s.pipes.getD pipe []

/-- The system in which a process `p` has made a process like itself, with task `child`,
and goes on with the task that `next` gives for the new number. -/
def fork (s : System σ) (pid : Pid) (p : Process σ) (child : Task σ) (next : Pid → Task σ) :
    System σ :=
  let s' := { s with processes := s.processes.push { p with task := child } }
  s'.setProcess pid { p with task := next s.processes.size }

/-- The system after a process has ended. Its descriptors are closed. -/
def finish (s : System σ) (pid : Pid) (p : Process σ) (e : Ending) : System σ :=
  s.setProcess pid { p with task := .ended e, descriptors := {} }

/-- The system after an ended process was waited for. -/
def reap (s : System σ) (pid : Pid) (e : Ending) : System σ :=
  match s.processes[pid]? with
  | some p => s.setProcess pid { p with task := .reaped e }
  | none => s

end System

end LineShell
