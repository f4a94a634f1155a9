import LineShell.System.Stream

/-!
# Steps of a system

`System.step?` is the next step of one process, none if the process has to wait or has
ended. `System.Step` is a step of any process, and `System.Reachable` holds of the
states that some order of steps leads to.

A process made for a line goes through its task one system call at a time. The process
of a pipe makes the pipe, then the process of the left side, which closes the reading
end and takes the writing end as its descriptor 1, then the process of the right side,
which takes the reading end as its descriptor 0. It closes each end as soon as the side
that needs it has been made, waits for the left side and then for the right side, and
ends with the status of the right side.
-/

namespace LineShell

variable {σ : Type}

/-- The exit code of a program that could not be loaded. -/
def exitCodeOf (e : Errno) : Nat :=
  if e = .noEntry || e = .notDirectory then 127 else 126

/-- What is written of a program that could not be loaded. -/
def loadPieces (program : Bytes) (e : Errno) : List Bytes :=
  complaintPieces [program, Utf8.ofString ": ", e.description]

/-- What is written of arguments that no program can be given. -/
def zeroPieces (program : Bytes) : List Bytes :=
  written [Utf8.ofString "minish: ", program, Utf8.ofString ": argument contains a NUL byte\n"]

/-- The exit code of a process that was to exit with another code, and whose message was
refused. A descriptor that nothing can be written to is passed over, and any other refusal is
fatal. -/
def codeUntold (code : Nat) (e : Errno) : Nat :=
  if e = .badDescriptor then code else 101

/-- The mode in which a redirection opens its file. -/
def Direction.mode : Direction → OpenMode
  | .input => .read
  | .output => .write

namespace System

/-- Give a process its next task. -/
def setTask (s : System σ) (pid : Pid) (p : Process σ) (t : Task σ) : System σ :=
  s.setProcess pid { p with task := t }

/-- Let a process write the pieces of a message and exit. -/
def fail (s : System σ) (pid : Pid) (p : Process σ) (pieces : List Bytes) (code : Nat) : System σ :=
  s.setTask pid p (.complain pieces code)

/-- Turn a process into the program that its arguments name. -/
def becomeProgram (m : Machine σ) (s : System σ) (pid : Pid) (p : Process σ)
    (program : Bytes) (arguments : List Bytes) : System σ :=
  if (program :: arguments).any (·.contains 0) then s.fail pid p (zeroPieces program) 127
  else match m.load s.files (s.view p) (program :: arguments) with
    | .error e => s.fail pid p (loadPieces program e) (exitCodeOf e)
    | .ok state =>
      s.setProcess pid { p with
        task := .program state
        descriptors := p.descriptors.acrossExec
        arguments := some (program :: arguments) }

/-- Begin with a command. -/
def runStep (m : Machine σ) (s : System σ) (pid : Pid) (p : Process σ) : Command → System σ
  | .exec [] => s.finish pid p (.exited 0)
  | .exec (program :: arguments) => s.becomeProgram m pid p program arguments
  | .redirect target r =>
    s.setTask pid p (.open_ (Command.redirect target r).unwrap.2 (Command.redirect target r).unwrap.1)
  | .pipe left right =>
    match p.descriptors.addPipe s.descriptorLimit s.pipes.size with
    | .error e => s.fail pid p (complaintPieces (ExecError.pipe e).pieces) 1
    | .ok (reading, writing, t) =>
      { s with pipes := s.pipes.push [] }.setProcess pid
        { p with task := .forkLeft reading writing left right, descriptors := t }

/-- Open the next redirection. -/
def openStep (s : System σ) (pid : Pid) (p : Process σ) (r : Redirection)
    (rs : List Redirection) (inner : Command) : System σ :=
  if r.path.contains 0 then
    s.fail pid p (complaintPieces (ExecError.redirect r.path .zeroInName).pieces) 1
  else match s.openFor pid p r.path r.direction.mode some true (.install · r rs inner) with
    | .error e => s.fail pid p (complaintPieces (ExecError.redirect r.path (.system e)).pieces) 1
    | .ok s => s

/-- Put a handle in the place of a descriptor, and go on with `next`. -/
def installStep (s : System σ) (pid : Pid) (p : Process σ) (handle : Nat) (target : Int)
    (next : Task σ) : System σ :=
  match p.descriptors.install s.descriptorLimit handle target with
  | .error e =>
    s.fail pid { p with descriptors := p.descriptors.close handle }
      (complaintPieces (ExecError.install target e).pieces) 1
  | .ok t => s.setProcess pid { p with task := next, descriptors := t }

/-- Close a descriptor, and go on with `next`. -/
def closeStep (s : System σ) (pid : Pid) (p : Process σ) (n : Nat) (next : Task σ) : System σ :=
  s.setProcess pid { p with task := next, descriptors := p.descriptors.close n }

/-- Wait for a process, and go on with what its status says. -/
def awaitStep? (s : System σ) (pid : Pid) (p : Process σ) (child : Pid)
    (next : Except Errno Nat → Task σ) : Option (System σ) :=
  match s.task? child with
  | some (.ended e) => some ((s.reap child e).setTask pid p (next e.status?))
  | _ => none

/-- Go on after one side of a pipe has ended, unless it could not be waited for. -/
def afterWait (child : Pid) (next : Nat → Task σ) : Except Errno Nat → Task σ
  | .ok status => next status
  | .error e => .complain (complaintPieces (ExecError.wait child e).pieces) 1

/-- What comes of writing a piece of a message to descriptor 2 of a process. -/
def tell (s : System σ) (p : Process σ) (piece : Bytes) : Transfer Nat σ :=
  match p.descriptors.get? 2 with
  | none => .answer (.error .badDescriptor) s
  | some h => s.writeTo h.stream piece

/-- What is left of a piece and of those behind it when so many bytes of the piece were taken. -/
def untaken (piece : Bytes) (pieces : List Bytes) (n : Nat) : List Bytes :=
  if n < piece.length then piece.drop n :: pieces else pieces

/-- Write the next piece of a message, and exit behind the last. Where there is nothing to write
to, no piece can be written, and the message is lost. -/
def complainStep? (s : System σ) (pid : Pid) (p : Process σ) (code : Nat) :
    List Bytes → Option (System σ)
  | [] => some (s.finish pid p (.ofCode code))
  | piece :: pieces =>
    match s.tell p piece with
    | .wait => none
    | .broken => some (s.finish pid p (.killed 13))
    | .answer (.error e) s => some (s.finish pid p (.ofCode (codeUntold code e)))
    | .answer (.ok n) s => some (s.setTask pid p (.complain (untaken piece pieces n) code))

/-- The next step of a program. -/
def programStep? (m : Machine σ) (s : System σ) (pid : Pid) (p : Process σ) (state : σ) :
    Option (System σ) :=
  match m.act state with
  | .compute next => some (s.setTask pid p (.program next))
  | .read d count next =>
    match p.descriptors.get? d with
    | none => some (s.setTask pid p (.program (next (.error .badDescriptor))))
    | some h =>
      match s.readFrom h.stream count with
      | .answer a s => some (s.setTask pid p (.program (next a)))
      | .wait => none
      | .broken => none
  | .write d data broken next =>
    match p.descriptors.get? d with
    | none => some (s.setTask pid p (.program (next (.error .badDescriptor))))
    | some h =>
      match s.writeTo h.stream data with
      | .answer a s => some (s.setTask pid p (.program (next a)))
      | .wait => none
      | .broken =>
        match broken with
        | none => some (s.finish pid p (.killed 13))
        | some next => some (s.setTask pid p (.program next))
  | .openPath path mode known next =>
    match s.openFor pid p path mode known false (fun n => .program (next (.ok n))) with
    | .error e => some (s.setTask pid p (.program (next (.error e))))
    | .ok s => some s
  | .rewind d count next =>
    match p.descriptors.get? d with
    | none => some (s.setTask pid p (.program (next (.error .badDescriptor))))
    | some h =>
      match s.rewind h.stream count with
      | .error e => some (s.setTask pid p (.program (next (.error e))))
      | .ok s => some (s.setTask pid p (.program (next (.ok ()))))
  | .close d next => some (s.closeStep pid p d (.program next))
  | .self next => some (s.setTask pid p (.program (next pid)))
  | .inspect d next => some (s.setTask pid p (.program (next (s.placeOf? p d))))
  | .files change next =>
    let r := change s.files (s.view p)
    some ({ s with files := r.1 }.setProcess pid
      { p with task := .program (next s.files (s.view p)), directory := r.2 })
  | .exit code => some (s.finish pid p (.ofCode code))
  | .raise signal => some (s.finish pid p (.killed signal))

/-- The next step of a process, if it can take one. -/
def step? (m : Machine σ) (s : System σ) (pid : Pid) : Option (System σ) :=
  match s.processes[pid]? with
  | none => none
  | some p =>
    match p.task with
    | .execute c =>
      if c.isNoop then some (s.setTask pid p (.executed (.ok 0)))
      else some (s.fork pid p (.run c) .awaitLine)
    | .awaitLine line =>
      s.awaitStep? pid p line fun
        | .ok status => .executed (.ok status)
        | .error e => .executed (.error (.wait line e))
    | .executed _ => none
    | .run c => some (s.runStep m pid p c)
    | .open_ [] inner => some (s.setTask pid p (.run inner))
    | .open_ (r :: rs) inner => some (s.openStep pid p r rs inner)
    | .install handle r rs inner => some (s.installStep pid p handle r.descriptor (.open_ rs inner))
    | .forkLeft reading writing left right =>
      some (s.fork pid p (.leaveReading reading writing left)
        fun leftPid => .closeWriting reading writing leftPid right)
    | .closeWriting reading writing leftPid right =>
      some (s.closeStep pid p writing (.forkRight reading leftPid right))
    | .forkRight reading leftPid right =>
      some (s.fork pid p (.attach reading 0 right) fun rightPid =>
        .closeReading reading leftPid rightPid)
    | .closeReading reading leftPid rightPid =>
      some (s.closeStep pid p reading (.awaitLeft leftPid rightPid))
    | .awaitLeft leftPid rightPid =>
      s.awaitStep? pid p leftPid (afterWait leftPid fun _ => .awaitRight rightPid)
    | .awaitRight rightPid =>
      match s.task? rightPid with
      | some (.ended e) =>
        match e.status? with
        | .ok status => some ((s.reap rightPid e).finish pid p (.ofCode status))
        | .error err =>
          some ((s.reap rightPid e).fail pid p
            (complaintPieces (ExecError.wait rightPid err).pieces) 1)
      | _ => none
    | .leaveReading reading writing c => some (s.closeStep pid p reading (.attach writing 1 c))
    | .attach handle target c => some (s.installStep pid p handle target (.run c))
    | .complain pieces code => s.complainStep? pid p code pieces
    | .program state => s.programStep? m pid p state
    | .ended _ => none
    | .reaped _ => none

/-- A step of some process. -/
def Step (m : Machine σ) (s t : System σ) : Prop :=
  ∃ pid, s.step? m pid = some t

/-- The states to which steps lead. -/
inductive Reachable (m : Machine σ) (s : System σ) : System σ → Prop
  | refl : Reachable m s s
  | step {t u : System σ} : Reachable m s t → Step m t u → Reachable m s u

end System

end LineShell
