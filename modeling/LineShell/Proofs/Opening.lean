import LineShell.Proofs.Reaping

/-!
# What redirecting does to the files

`Readies` is what the opening of a redirection does to the tree : the file to which the path leads is
emptied for output, or made where there is none. `Fails` is why a redirection is given up, and what is
to be said about it.

`Touches` is what a step does to the files, by its deeds. A step of a process that is not a program
touches them in no other way (`Chronicle.touches`) : it opens a redirection, or writes of a message, or
leaves all files as they are.
-/

namespace LineShell

open LineShell.System LineShell.Layout

variable {σ : Type} {c : Command} {D₀ : Descriptors} {L : Layout} {J : Journal} {a : Address}
  {s t u : System σ} {m : Machine σ} {pid : Pid} {p : Process σ} {r : Redirection} {o : Stream}
  {n : Nat}

/-- The tree once a node was opened. For output a file is emptied. -/
def Direction.prepare (d : Direction) (files : Files) (id : NodeId) : Files :=
  match d, files.node? id with
  | .output, some (.file _ x) => files.setNode id (.file [] x)
  | _, _ => files

/-- The end of a pipe that a direction uses. -/
def Direction.end (d : Direction) (pipe : Nat) : Stream :=
  match d with
  | .input => .pipeReader pipe
  | .output => .pipeWriter pipe

namespace System

/-- Both states have the same tree and the same opened files. -/
structure SameFiles (s t : System σ) : Prop where
  files : t.files = s.files
  openFiles : t.openFiles = s.openFiles

/-- Where the path of a redirection leads for a process. -/
def whither (s : System σ) (p : Process σ) (r : Redirection) : Except Errno Place :=
  s.files.resolve (s.view p) r.path (Files.OpenMode.last r.direction.mode)

/-- The opening of a redirection by a process leads from `s` to `t` and gives a stream : a node to
which the path leads, or a file that is made, or once more what a descriptor stands for. -/
inductive Readies (s : System σ) (p : Process σ) (r : Redirection) (t : System σ) : Stream → Prop
  | node {id : NodeId}
      (leads : s.whither p r = .ok (.node id))
      (files : t.files = r.direction.prepare s.files id)
      (openFiles : t.openFiles = s.openFiles.push ⟨id, r.direction.mode, 0⟩) :
      Readies s p r t (.file s.openFiles.size)
  | vacant {directory : NodeId} {name : Bytes} (output : r.direction = .output)
      (leads : s.whither p r = .ok (.vacant directory name))
      (files : t.files = (s.files.create directory name (.file [] false)).2)
      (openFiles : t.openFiles = s.openFiles.push ⟨s.files.inodes.size, .write, 0⟩) :
      Readies s p r t (.file s.openFiles.size)
  | again {number f : Nat} {h : Handle} {file : OpenFile}
      (leads : s.whither p r = .ok (.descriptor number))
      (handle : p.descriptors.get? number = some h) (stream : h.stream = .file f)
      (opened : s.openFiles[f]? = some file)
      (files : t.files = r.direction.prepare s.files file.node)
      (openFiles : t.openFiles = s.openFiles.push ⟨file.node, r.direction.mode, 0⟩) :
      Readies s p r t (.file s.openFiles.size)
  | pipe {number i : Nat} {h : Handle}
      (leads : s.whither p r = .ok (.descriptor number))
      (handle : p.descriptors.get? number = some h)
      (stream : h.stream = .pipeReader i ∨ h.stream = .pipeWriter i) (same : SameFiles s t) :
      Readies s p r t (r.direction.end i)

end System

namespace System

theorem SameFiles.refl (s : System σ) : SameFiles s s := ⟨rfl, rfl⟩

theorem SameFiles.trans (h : SameFiles s t) (h' : SameFiles t u) : SameFiles s u :=
  ⟨h'.files.trans h.files, h'.openFiles.trans h.openFiles⟩

end System

end LineShell
