import LineShell.System.Process

/-!
# Reading and writing in a system

`System.readFrom` and `System.writeTo` are what a descriptor gives and takes. A file
answers at once. An empty pipe makes its reader wait while some process can write to
it, and is at its end afterwards. A full pipe makes its writer wait while some process
can read from it, and without a reader a pipe is broken. No bytes can always be written to a
pipe. `System.openFor` opens a path for a process.
-/

namespace LineShell

variable {σ : Type}

/-- What comes of reading or writing. -/
inductive Transfer (α σ : Type) where
  /-- It was done, or refused, with this answer. -/
  | answer (a : Except Errno α) (s : System σ)
  /-- It has to wait. -/
  | wait
  /-- Nobody can read what is written. -/
  | broken

namespace System

/-- Read at most `count` bytes from a stream. -/
def readFrom (s : System σ) (stream : Stream) (count : Nat) : Transfer Bytes σ :=
  match stream with
  | .file f =>
    match s.openFiles[f]? with
    | none => .answer (.error .badDescriptor) s
    | some o =>
      if o.mode = .read then
        match s.files.readAt o.node o.offset count with
        | .error e => .answer (.error e) s
        | .ok data =>
          .answer (.ok data)
            { s with openFiles :=
                s.openFiles.setIfInBounds f { o with offset := o.offset + data.length } }
      else .answer (.error .badDescriptor) s
  | .pipeReader p =>
    if (s.pipe p).isEmpty && count != 0 then
      if s.held (.pipeWriter p) then .wait else .answer (.ok []) s
    else .answer (.ok ((s.pipe p).take count)) (s.setPipe p ((s.pipe p).drop count))
  | .pipeWriter _ => .answer (.error .badDescriptor) s

/-- Write bytes to a stream. A pipe takes what it has room for. -/
def writeTo (s : System σ) (stream : Stream) (data : Bytes) : Transfer Nat σ :=
  match stream with
  | .file f =>
    match s.openFiles[f]? with
    | none => .answer (.error .badDescriptor) s
    | some o =>
      if o.mode = .read then .answer (.error .badDescriptor) s
      else
        let offset := if o.mode = .append then s.files.size o.node else o.offset
        match s.files.writeAt o.node offset data with
        | .error e => .answer (.error e) s
        | .ok files =>
          .answer (.ok data.length)
            { s with
              files := files
              openFiles :=
                s.openFiles.setIfInBounds f { o with offset := offset + data.length } }
  | .pipeWriter p =>
    if data.isEmpty then .answer (.ok 0) s
    else if !s.held (.pipeReader p) then .broken
    else
      let room := s.capacity - (s.pipe p).length
      if room = 0 then .wait
      else .answer (.ok (min room data.length)) (s.setPipe p (s.pipe p ++ data.take room))
  | .pipeReader _ => .answer (.error .badDescriptor) s

/-- Go back in the file of a stream by so many bytes, but not behind its first. -/
def rewind (s : System σ) (stream : Stream) (count : Nat) : Except Errno (System σ) :=
  match stream with
  | .file f =>
    match s.openFiles[f]? with
    | none => .error .badDescriptor
    | some o =>
      if count ≤ o.offset then
        .ok { s with openFiles := s.openFiles.setIfInBounds f { o with offset := o.offset - count } }
      else .error .invalid
  | _ => .error .illegalSeek

/-- What a stream leads to. -/
def openedOf (s : System σ) : Stream → Option Opened
  | .file f => s.openFiles[f]?.map fun o => .node o.node
  | _ => some .pipe

/-- Some process has a node open for writing. -/
def isWritten (s : System σ) (id : NodeId) : Bool :=
  s.processes.any fun p => p.descriptors.slots.any fun h =>
    match h with
    | some ⟨.file f, _⟩ => (s.openFiles[f]?).any fun o => o.node = id && o.mode != .read
    | _ => false

/-- The tree as a process looks at it. -/
def view (s : System σ) (p : Process σ) : View where
  directory := p.directory
  opened n := (p.descriptors.get? n).bind fun h => s.openedOf h.stream
  isWritten := s.isWritten

/-- The stream that opening a stream again gives. A pipe gives the end that is asked for. -/
def reopen (s : System σ) (stream : Stream) (mode : OpenMode) :
    Except Errno (Stream × System σ) :=
  match stream with
  | .pipeReader p => .ok (if mode = .read then .pipeReader p else .pipeWriter p, s)
  | .pipeWriter p => .ok (if mode = .read then .pipeReader p else .pipeWriter p, s)
  | .file f =>
    match s.openFiles[f]? with
    | none => .error .badDescriptor
    | some o =>
      match s.files.openExisting o.node mode with
      | .error e => .error e
      | .ok files =>
        .ok (.file s.openFiles.size,
          { s with files := files, openFiles := s.openFiles.push ⟨o.node, mode, 0⟩ })

/-- Open a path for a process, which knows its descriptors by the numbers that `known`
translates. The answer is the stream it gives. -/
def openStream (s : System σ) (p : Process σ) (path : Bytes) (mode : OpenMode)
    (known : Nat → Option Nat) : Except Errno (Stream × System σ) :=
  match s.files.openPath ((s.view p).renumber known) path mode with
  | .error e => .error e
  | .ok (.descriptor n, _) =>
    match (known n).bind p.descriptors.get? with
    | none => .error .noEntry
    | some h => s.reopen h.stream mode
  | .ok (.node id, files) =>
    .ok (.file s.openFiles.size,
      { s with files := files, openFiles := s.openFiles.push ⟨id, mode, 0⟩ })

/-- The node for which a descriptor of a process stands, and the offset of the next byte. -/
def placeOf? (s : System σ) (p : Process σ) (n : Nat) : Option (NodeId × Nat) :=
  match p.descriptors.get? n with
  | some ⟨.file f, _⟩ => s.openFiles[f]?.map fun o => (o.node, o.offset)
  | _ => none

/-- Open a path for process `pid` and put it under the lowest free number. The number is
looked for first, so that a full table is told even where there is no such file. -/
def openFor (s : System σ) (pid : Pid) (p : Process σ) (path : Bytes) (mode : OpenMode)
    (known : Nat → Option Nat) (closeOnExec : Bool) (next : Nat → Task σ) :
    Except Errno (System σ) :=
  if p.descriptors.lowestFree < s.descriptorLimit then
    match s.openStream p path mode known with
    | .error e => .error e
    | .ok (stream, s) =>
      let n := p.descriptors.lowestFree
      .ok (s.setProcess pid
        { p with task := next n, descriptors := p.descriptors.set n ⟨stream, closeOnExec⟩ })
  else .error .tooManyOpen

end System

end LineShell
