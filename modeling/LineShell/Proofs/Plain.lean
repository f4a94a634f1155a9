import LineShell.System.Stream

/-!
# Trees without a directory of descriptors

In a tree that is `Files.Plain` no path leads to a descriptor of the process that looks. What
is opened there is a file of its own (`System.openStream_plain`), and nobody comes to an end
of a pipe by a path. Opening and writing keep a tree plain.
-/

namespace LineShell

namespace Files

/-- No node is the directory of the descriptors. -/
def Plain (files : Files) : Prop := ∀ id p, files.node? id ≠ some (.descriptors p)

variable {files files' : Files} {view : View} {id : NodeId} {node : Node}

theorem node?_setNode (files : Files) (id : NodeId) (node : Node) (n : NodeId) :
    (files.setNode id node).node? n =
      if n = id then (files.node? n).map fun _ => node else files.node? n := by
  rw [node?, node?, setNode, Array.getElem?_modify]
  by_cases h : id = n
  · subst h
    cases files.inodes[id]? <;> simp
  · simp [h, Ne.symm h]

theorem Plain.setNode (h : files.Plain) (hn : ∀ p, node ≠ .descriptors p) :
    (files.setNode id node).Plain := by
  intro n p hnode
  rw [node?_setNode] at hnode
  split at hnode
  · obtain ⟨-, -, hp⟩ := Option.map_eq_some_iff.mp hnode
    exact hn p hp
  · exact h n p hnode

theorem Plain.addNode (h : files.Plain) (hn : ∀ p, node ≠ .descriptors p) :
    (files.addNode node).2.Plain := by
  intro n p hnode
  rw [node?, Files.addNode, Array.getElem?_push] at hnode
  split at hnode
  · exact hn p (Option.some.inj hnode)
  · exact h n p hnode

theorem Plain.enter (h : files.Plain) (directory : NodeId) (name : Bytes) (id : NodeId) :
    (files.enter directory name id).Plain := by
  unfold Files.enter
  split
  · exact h.setNode (by rintro _ ⟨⟩)
  · exact h

theorem Plain.create (h : files.Plain) (hn : ∀ p, node ≠ .descriptors p) (directory : NodeId)
    (name : Bytes) : (files.create directory name node).2.Plain :=
  (h.addNode hn).enter _ _ _

theorem Plain.openExisting {mode : OpenMode} (h : files.Plain)
    (ho : files.openExisting id mode = .ok files') : files'.Plain := by
  unfold Files.openExisting at ho
  split at ho
  all_goals cases ho
  · exact h
  · exact h.setNode (by rintro _ ⟨⟩)
  · exact h
  · exact h

theorem Plain.writeAt {offset : Nat} {data : Bytes} (h : files.Plain)
    (hw : files.writeAt id offset data = .ok files') : files'.Plain := by
  unfold Files.writeAt at hw
  split at hw
  · cases hw
    exact h.setNode (by rintro _ ⟨⟩)
  · split at hw
    all_goals cases hw
    exact h
  · cases hw
    exact h
  · cases hw

/-! ## Paths -/

theorem childOf_ne_descriptor (h : files.Plain) (directory : NodeId) (name : Bytes) (n : Nat)
    (opened : Opened) : files.childOf view directory name ≠ .descriptor n opened := by
  intro hc
  unfold childOf at hc
  split at hc
  · rename_i p hnode
    exact h _ p hnode
  · split at hc <;> cases hc

/-- No path of a plain tree leads to a descriptor. -/
theorem walk_ne_descriptor (h : files.Plain) (last : Last) (links : Nat) (directory : NodeId)
    (names : List Bytes) (n : Nat) :
    files.walk view last links directory names ≠ .ok (.descriptor n) := by
  fun_induction walk files view last links directory names
  -- the cases in which a name stands for a descriptor
  case case8 hchild _ => exact absurd hchild (childOf_ne_descriptor h _ _ _ _)
  case case10 hchild => exact absurd hchild (childOf_ne_descriptor h _ _ _ _)
  all_goals first | assumption | exact nofun

/-- What is opened in a plain tree is a node, and the tree stays plain. -/
theorem Plain.openPath {path : Bytes} {mode : OpenMode} {target : Target} (h : files.Plain)
    (ho : files.openPath view path mode = .ok (target, files')) :
    (∃ id, target = .node id) ∧ files'.Plain := by
  unfold Files.openPath at ho
  split at ho
  · rename_i id hr
    rcases he : files.openExisting id mode with e | f
    · rw [he] at ho
      cases ho
    · rw [he] at ho
      cases ho
      exact ⟨⟨_, rfl⟩, h.openExisting he⟩
  · rename_i n hr
    unfold resolve at hr
    split at hr
    · cases hr
    split at hr
    · cases hr
    · exact absurd hr (walk_ne_descriptor h _ _ _ _ _)
  · split at ho
    · cases ho
    · cases ho
      exact ⟨⟨_, rfl⟩, h.create (by rintro _ ⟨⟩) _ _⟩
  · cases ho

end Files

namespace System

variable {σ : Type} {s t : System σ}

/-- What is opened in a plain tree is a file, and the tree stays plain. -/
theorem openStream_plain {p : Process σ} {path : Bytes} {mode : OpenMode}
    {known : Nat → Option Nat} {stream : Stream} (h : s.files.Plain)
    (ho : s.openStream p path mode known = .ok (stream, t)) :
    (∃ f, stream = .file f) ∧ t.files.Plain := by
  unfold openStream at ho
  rcases hr : s.files.openPath ((s.view p).renumber known) path mode with e | ⟨target, files⟩
  · rw [hr] at ho
    cases ho
  · obtain ⟨⟨id, rfl⟩, hplain⟩ := h.openPath hr
    rw [hr] at ho
    cases ho
    exact ⟨⟨_, rfl⟩, hplain⟩

theorem readFrom_plain {stream : Stream} {count : Nat} {a : Except Errno Bytes}
    (h : s.files.Plain) (hr : s.readFrom stream count = .answer a t) : t.files.Plain := by
  unfold readFrom at hr
  repeat' split at hr
  all_goals cases hr
  all_goals exact h

theorem writeTo_plain {stream : Stream} {data : Bytes} {a : Except Errno Nat}
    (h : s.files.Plain) (hw : s.writeTo stream data = .answer a t) : t.files.Plain := by
  simp only [writeTo] at hw
  repeat' split at hw
  all_goals cases hw
  all_goals first | exact h | exact h.writeAt (by assumption)

theorem rewind_plain {stream : Stream} {count : Nat} (h : s.files.Plain)
    (hr : s.rewind stream count = .ok t) : t.files.Plain := by
  unfold rewind at hr
  repeat' split at hr
  all_goals cases hr
  exact h

end System

end LineShell
