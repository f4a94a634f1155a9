import LineShell.Proofs.Plain
import LineShell.Proofs.Table
import LineShell.System.Step

/-!
# What one step does

`System.work` is what every process has to do and which descriptors it has. A step changes
it in one of three ways (`System.Move`) : the process goes on alone (`Turn`), it makes another
process (`Forks`), or it goes on after a process it has waited for (`Resumes`).
`System.move_of_step?` : there are no other steps.
-/

namespace LineShell

variable {σ : Type}

/-- The process has ended. -/
def Task.IsOver (τ : Task σ) : Prop := ∃ e, τ = .ended e ∨ τ = .reaped e

/-- The status of an ended process can be told. -/
def Ending.IsTold (e : Ending) : Prop := ∃ n, e.status? = .ok n

theorem Ending.isTold_ofCode (code : Nat) : (Ending.ofCode code).IsTold := ⟨_, rfl⟩

theorem Ending.not_isTold {e : Ending} {err : Errno} (h : e.status? = .error err) : ¬e.IsTold := by
  rintro ⟨n, hn⟩
  rw [h] at hn
  cases hn

/-- The programs die of signals whose number can be told alone, and make no directory of
descriptors. -/
structure Machine.Ordinary (m : Machine σ) : Prop where
  told : ∀ state signal, m.act state = .raise signal → (Ending.killed signal).IsTold
  plain : ∀ state change next, m.act state = .files change next →
    ∀ files view, files.Plain → (change files view).1.Plain

/-- The programs make no directory of descriptors. -/
def Machine.KeepsPlain (m : Machine σ) : Prop :=
  ∀ state change next, m.act state = .files change next →
    ∀ files view, files.Plain → (change files view).1.Plain

namespace System

/-- What a process has to do, and its descriptors. -/
def work (s : System σ) (pid : Pid) : Option (Task σ × Descriptors) :=
  s.processes[pid]?.map fun p => (p.task, p.descriptors)

variable {s t u : System σ} {pid : Pid} {p q : Process σ}

theorem work_of_getElem? (h : s.processes[pid]? = some p) :
    s.work pid = some (p.task, p.descriptors) := by
  rw [work, h, Option.map_some]

theorem work_eq_some_iff {τ : Task σ} {D : Descriptors} :
    s.work pid = some (τ, D) ↔
      ∃ p, s.processes[pid]? = some p ∧ p.task = τ ∧ p.descriptors = D := by
  simp [work]

theorem work_inj {τ τ' : Task σ} {D D' : Descriptors} (h : s.work pid = some (τ, D))
    (h' : s.work pid = some (τ', D')) : τ = τ' ∧ D = D' :=
  Prod.mk.inj (Option.some.inj (h.symm.trans h'))

theorem work_of_update {f : Pid → Option (Task σ × Descriptors)} {w : Option (Task σ × Descriptors)}
    (h : t.work = Function.update f pid w) : t.work pid = w := by
  rw [h, Function.update_self]

theorem work_eq_none (h : s.processes.size ≤ pid) : s.work pid = none := by
  rw [work, Array.getElem?_eq_none h, Option.map_none]

theorem lt_of_work_eq_some {w : Task σ × Descriptors} (h : s.work pid = some w) :
    pid < s.processes.size := by
  by_contra hle
  rw [work_eq_none (Nat.le_of_not_lt hle)] at h
  cases h

theorem lt_of_getElem? (h : s.processes[pid]? = some p) : pid < s.processes.size :=
  (Array.getElem?_eq_some_iff.mp h).1

theorem work_setProcess (h : s.processes[pid]? = some p) (q : Process σ) :
    (s.setProcess pid q).work = Function.update s.work pid (some (q.task, q.descriptors)) := by
  ext1 r
  have hlt := lt_of_getElem? h
  rcases eq_or_ne r pid with rfl | hne
  · rw [Function.update_self, work, setProcess, Array.getElem?_setIfInBounds_self_of_lt hlt,
      Option.map_some]
  · rw [Function.update_of_ne hne, work, setProcess, Array.getElem?_setIfInBounds_ne hne.symm, work]

@[simp]
theorem size_setProcess (s : System σ) (pid : Pid) (q : Process σ) :
    (s.setProcess pid q).processes.size = s.processes.size :=
  Array.size_setIfInBounds

/-- `t` has the processes and the pipes of `s`, and its tree is as plain. -/
structure Aside (m : Machine σ) (s t : System σ) : Prop where
  processes : t.processes = s.processes
  pipes : t.pipes.size = s.pipes.size
  capacity : t.capacity = s.capacity
  limit : t.descriptorLimit = s.descriptorLimit
  plain : m.KeepsPlain → s.files.Plain → t.files.Plain

variable {m : Machine σ}

theorem Aside.refl (m : Machine σ) (s : System σ) : Aside m s s :=
  ⟨rfl, rfl, rfl, rfl, fun _ h => h⟩

theorem aside_of_readFrom {stream : Stream} {count : Nat} {a : Except Errno Bytes}
    (h : s.readFrom stream count = .answer a t) : Aside m s t := by
  have hplain : s.files.Plain → t.files.Plain := fun hs => readFrom_plain hs h
  unfold readFrom at h
  repeat' split at h
  all_goals cases h
  all_goals first
    | exact ⟨rfl, rfl, rfl, rfl, fun _ => hplain⟩
    | exact ⟨rfl, Array.size_setIfInBounds, rfl, rfl, fun _ => hplain⟩

theorem aside_of_writeTo {stream : Stream} {data : Bytes} {a : Except Errno Nat}
    (h : s.writeTo stream data = .answer a t) : Aside m s t := by
  have hplain : s.files.Plain → t.files.Plain := fun hs => writeTo_plain hs h
  simp only [writeTo] at h
  repeat' split at h
  all_goals cases h
  all_goals first
    | exact ⟨rfl, rfl, rfl, rfl, fun _ => hplain⟩
    | exact ⟨rfl, Array.size_setIfInBounds, rfl, rfl, fun _ => hplain⟩

theorem aside_of_rewind {stream : Stream} {count : Nat} (h : s.rewind stream count = .ok t) :
    Aside m s t := by
  have hplain : s.files.Plain → t.files.Plain := fun hs => rewind_plain hs h
  unfold rewind at h
  repeat' split at h
  all_goals cases h
  exact ⟨rfl, rfl, rfl, rfl, fun _ => hplain⟩

theorem aside_of_openStream {path : Bytes} {mode : OpenMode} {known : Nat → Option Nat}
    {stream : Stream} (h : s.openStream p path mode known = .ok (stream, t)) : Aside m s t := by
  have hplain : s.files.Plain → t.files.Plain := fun hs => (openStream_plain hs h).2
  simp only [openStream, reopen] at h
  repeat' split at h
  all_goals cases h
  all_goals exact ⟨rfl, rfl, rfl, rfl, fun _ => hplain⟩

/-! ## The three kinds of steps -/

/-- No program can be made of the arguments : the pieces of the message that says why, and the exit
code. -/
inductive Unloadable (m : Machine σ) (s : System σ) (p : Process σ) (program : Bytes)
    (arguments : List Bytes) : List Bytes → Nat → Prop
  | zero (holds : (program :: arguments).any (·.contains 0) = true) :
      Unloadable m s p program arguments (zeroPieces program) 127
  | load {e : Errno} (free : (program :: arguments).any (·.contains 0) = false)
      (failed : m.load s.files (s.view p) (program :: arguments) = .error e) :
      Unloadable m s p program arguments (loadPieces program e) (exitCodeOf e)

/-- How a process ends that has pieces of a message left to write, or none. -/
inductive Hushes (s : System σ) (p : Process σ) (code : Nat) : List Bytes → Ending → Prop
  | told : Hushes s p code [] (.ofCode code)
  | untold {piece : Bytes} {pieces : List Bytes} {e : Errno} {u : System σ}
      (answer : s.tell p piece = .answer (.error e) u) :
      Hushes s p code (piece :: pieces) (.ofCode (codeUntold code e))
  | broken {piece : Bytes} {pieces : List Bytes} (answer : s.tell p piece = .broken) :
      Hushes s p code (piece :: pieces) (.killed 13)

/-- How a program ends in a state : it exits, it dies of a signal of its own, or it has written
what nobody can read. -/
inductive Stops (m : Machine σ) (state : σ) : Ending → Prop
  | exits {code : Nat} (act : m.act state = .exit code) : Stops m state (.ofCode code)
  | dies {signal : Nat} (act : m.act state = .raise signal) : Stops m state (.killed signal)
  | breaks : Stops m state (.killed 13)

theorem Hushes.isTold {pieces : List Bytes} {code : Nat} {e : Ending}
    (h : Hushes s p code pieces e) : e.IsTold := by
  cases h with
  | told => exact Ending.isTold_ofCode code
  | untold answer => exact Ending.isTold_ofCode _
  | broken answer => exact ⟨141, rfl⟩

theorem Stops.isTold {state : σ} {e : Ending}
    (hm : ∀ state signal, m.act state = .raise signal → (Ending.killed signal).IsTold)
    (h : Stops m state e) : e.IsTold := by
  cases h with
  | exits act => exact Ending.isTold_ofCode _
  | dies act => exact hm _ _ act
  | breaks => exact ⟨141, rfl⟩

/-- What a process becomes when it goes on alone. -/
inductive Turn (m : Machine σ) (s : System σ) (p : Process σ) : Task σ → Descriptors → Prop
  | skips {c : Command} (task : p.task = .execute c) (noop : c.isNoop = true) :
      Turn m s p (.executed (.ok 0)) p.descriptors
  | exits (task : p.task = .run (.exec [])) : Turn m s p (.ended (.exited 0)) {}
  | refuses {program : Bytes} {arguments pieces : List Bytes} {code : Nat}
      (task : p.task = .run (.exec (program :: arguments)))
      (why : Unloadable m s p program arguments pieces code) :
      Turn m s p (.complain pieces code) p.descriptors
  | loads {program : Bytes} {arguments : List Bytes} {state : σ}
      (task : p.task = .run (.exec (program :: arguments)))
      (free : (program :: arguments).any (·.contains 0) = false)
      (loaded : m.load s.files (s.view p) (program :: arguments) = .ok state) :
      Turn m s p (.program state) p.descriptors.acrossExec
  | unwraps {c : Command} {r : Redirection} (task : p.task = .run (.redirect c r)) :
      Turn m s p (.open_ (Command.redirect c r).unwrap.2 (Command.redirect c r).unwrap.1)
        p.descriptors
  | lacksPipe {left right : Command} {e : Errno} (task : p.task = .run (.pipe left right)) :
      Turn m s p (.complain (complaintPieces (ExecError.pipe e).pieces) 1) p.descriptors
  | pipes {left right : Command} {reading writing : Nat} {D : Descriptors}
      (task : p.task = .run (.pipe left right))
      (added : p.descriptors.addPipe s.descriptorLimit s.pipes.size = .ok (reading, writing, D)) :
      Turn m s p (.forkLeft reading writing left right) D
  | settles {inner : Command} (task : p.task = .open_ [] inner) :
      Turn m s p (.run inner) p.descriptors
  | lacksFile {r : Redirection} {rs : List Redirection} {inner : Command} {e : IoError}
      (task : p.task = .open_ (r :: rs) inner) :
      Turn m s p (.complain (complaintPieces (ExecError.redirect r.path e).pieces) 1) p.descriptors
  | opens {r : Redirection} {rs : List Redirection} {inner : Command} {stream : Stream}
      {u : System σ}
      (task : p.task = .open_ (r :: rs) inner)
      (opened : s.openStream p r.path r.direction.mode some = .ok (stream, u)) :
      Turn m s p (.install p.descriptors.lowestFree r rs inner)
        (p.descriptors.set p.descriptors.lowestFree ⟨stream, true⟩)
  | misplaces {handle : Nat} {r : Redirection} {rs : List Redirection} {inner : Command}
      {e : Errno} (task : p.task = .install handle r rs inner)
      (failed : p.descriptors.install s.descriptorLimit handle r.descriptor = .error e) :
      Turn m s p (.complain (complaintPieces (ExecError.install r.descriptor e).pieces) 1)
        (p.descriptors.close handle)
  | installs {handle : Nat} {r : Redirection} {rs : List Redirection} {inner : Command}
      {D : Descriptors} (task : p.task = .install handle r rs inner)
      (installed : p.descriptors.install s.descriptorLimit handle r.descriptor = .ok D) :
      Turn m s p (.open_ rs inner) D
  | closesWriting {reading writing : Nat} {left : Pid} {right : Command}
      (task : p.task = .closeWriting reading writing left right) :
      Turn m s p (.forkRight reading left right) (p.descriptors.close writing)
  | closesReading {reading : Nat} {left right : Pid}
      (task : p.task = .closeReading reading left right) :
      Turn m s p (.awaitLeft left right) (p.descriptors.close reading)
  | leaves {reading writing : Nat} {c : Command} (task : p.task = .leaveReading reading writing c) :
      Turn m s p (.attach writing 1 c) (p.descriptors.close reading)
  | misattaches {handle target : Nat} {c : Command} {e : Errno}
      (task : p.task = .attach handle target c)
      (failed : p.descriptors.install s.descriptorLimit handle target = .error e) :
      Turn m s p (.complain (complaintPieces (ExecError.install target e).pieces) 1)
        (p.descriptors.close handle)
  | attaches {handle target : Nat} {c : Command} {D : Descriptors}
      (task : p.task = .attach handle target c)
      (installed : p.descriptors.install s.descriptorLimit handle target = .ok D) :
      Turn m s p (.run c) D
  | complains {piece : Bytes} {pieces : List Bytes} {code n : Nat} {u : System σ}
      (task : p.task = .complain (piece :: pieces) code)
      (answer : s.tell p piece = .answer (.ok n) u) :
      Turn m s p (.complain (untaken piece pieces n) code) p.descriptors
  | hushes {pieces : List Bytes} {code : Nat} {e : Ending} (task : p.task = .complain pieces code)
      (how : Hushes s p code pieces e) : Turn m s p (.ended e) {}
  | goesOn {state state' : σ} (task : p.task = .program state) :
      Turn m s p (.program state') p.descriptors
  | closes {state state' : σ} {n : Nat} (task : p.task = .program state) :
      Turn m s p (.program state') (p.descriptors.close n)
  | adds {state state' : σ} {path : Bytes} {mode : OpenMode} {known : Nat → Option Nat}
      {stream : Stream} {u : System σ} (task : p.task = .program state)
      (opened : s.openStream p path mode known = .ok (stream, u)) :
      Turn m s p (.program state')
        (p.descriptors.set p.descriptors.lowestFree ⟨stream, false⟩)
  | ends {state : σ} {e : Ending} (task : p.task = .program state) (how : Stops m state e) :
      Turn m s p (.ended e) {}

/-- A process with the first task makes one with the second, and goes on with the third. -/
inductive Forks : Task σ → Task σ → (Pid → Task σ) → Prop
  | line (c : Command) (busy : c.isNoop = false) : Forks (.execute c) (.run c) .awaitLine
  | left (reading writing : Nat) (left right : Command) :
      Forks (.forkLeft reading writing left right) (.leaveReading reading writing left)
        fun pid => .closeWriting reading writing pid right
  | right (reading : Nat) (left : Pid) (right : Command) :
      Forks (.forkRight reading left right) (.attach reading 0 right)
        fun pid => .closeReading reading left pid

/-- A process with the first task and the descriptors `D` waits for process `child`, and after
the end `e` of that it goes on with the second task and other descriptors. -/
inductive Resumes (D : Descriptors) (child : Pid) (e : Ending) :
    Task σ → Task σ → Descriptors → Prop
  | line (r : ExecResult) (h : r = e.status?.mapError fun err => .wait child err) :
      Resumes D child e (.awaitLine child) (.executed r) D
  | left (right : Pid) (told : e.IsTold) :
      Resumes D child e (.awaitLeft child right) (.awaitRight right) D
  | right (status : Nat) (told : e.status? = .ok status) :
      Resumes D child e (.awaitRight child) (.ended (.ofCode status)) {}
  | losesLeft (right : Pid) (err : Errno) (h : e.status? = .error err) :
      Resumes D child e (.awaitLeft child right)
        (.complain (complaintPieces (ExecError.wait child err).pieces) 1) D
  | losesRight (err : Errno) (h : e.status? = .error err) :
      Resumes D child e (.awaitRight child)
        (.complain (complaintPieces (ExecError.wait child err).pieces) 1) D

/-- What no step changes : no pipe is lost, none gets more room, no process may have more
descriptors, and the tree is as plain. -/
structure Kept (m : Machine σ) (s t : System σ) : Prop where
  capacity : t.capacity = s.capacity
  limit : t.descriptorLimit = s.descriptorLimit
  pipes : s.pipes.size ≤ t.pipes.size
  plain : m.KeepsPlain → s.files.Plain → t.files.Plain

/-- What a step of process `pid` does to the processes. -/
inductive Move (m : Machine σ) (s : System σ) (pid : Pid) (p : Process σ) (t : System σ) : Prop
  | turn (τ : Task σ) (D : Descriptors) (h : Turn m s p τ D) (kept : Kept m s t)
      (work : t.work = Function.update s.work pid (some (τ, D)))
      (size : t.processes.size = s.processes.size)
      (made : ∀ reading writing left right, τ = .forkLeft reading writing left right →
        s.pipes.size < t.pipes.size)
  | fork (child : Task σ) (next : Pid → Task σ) (h : Forks p.task child next) (kept : Kept m s t)
      (work : t.work = Function.update
        (Function.update s.work s.processes.size (some (child, p.descriptors)))
        pid (some (next s.processes.size, p.descriptors)))
      (size : t.processes.size = s.processes.size + 1)
  | resume (child : Pid) (e : Ending) (D' D : Descriptors) (τ : Task σ)
      (ended : s.work child = some (.ended e, D')) (h : Resumes p.descriptors child e p.task τ D)
      (kept : Kept m s t) (work : t.work = Function.update
        (Function.update s.work child (some (.reaped e, D'))) pid (some (τ, D)))
      (size : t.processes.size = s.processes.size)

/-! ## There are no other steps -/

/-- Giving a process another task and other descriptors is a turn. -/
theorem turn_setProcess (hp : s.processes[pid]? = some p) (ha : Aside m s u)
    (hq : Turn m s p q.task q.descriptors)
    (hne : ∀ reading writing left right, q.task ≠ .forkLeft reading writing left right) :
    Move m s pid p (u.setProcess pid q) := by
  have hp' : u.processes[pid]? = some p := by rwa [ha.processes]
  have hw : u.work = s.work := by
    ext1 r
    rw [work, work, ha.processes]
  refine .turn q.task q.descriptors hq ⟨ha.capacity, ha.limit, Nat.le_of_eq ha.pipes.symm, ha.plain⟩
    ?_ ?_ ?_
  · rw [work_setProcess hp', hw]
  · rw [size_setProcess, ha.processes]
  · intro reading writing left right h
    exact absurd h (hne reading writing left right)

theorem move_fail {pieces : List Bytes} {code : Nat} (hp : s.processes[pid]? = some p)
    (ha : Aside m s u) (h : Turn m s p (.complain pieces code) p.descriptors) :
    Move m s pid p (u.fail pid p pieces code) :=
  turn_setProcess hp ha h (by rintro _ _ _ _ ⟨⟩)

theorem move_finish {e : Ending} (hp : s.processes[pid]? = some p) (ha : Aside m s u)
    (h : Turn m s p (.ended e) {}) : Move m s pid p (u.finish pid p e) :=
  turn_setProcess hp ha h (by rintro _ _ _ _ ⟨⟩)

theorem move_runStep {c : Command} (hp : s.processes[pid]? = some p) (ht : p.task = .run c) :
    Move m s pid p (s.runStep m pid p c) := by
  unfold runStep
  split
  · exact move_finish hp (.refl m s) (.exits ht)
  · unfold becomeProgram
    split
    · rename_i hzero
      exact move_fail hp (.refl m s) (.refuses ht (.zero hzero))
    rename_i hzero
    rw [Bool.not_eq_true] at hzero
    split
    · rename_i hload
      exact move_fail hp (.refl m s) (.refuses ht (.load hzero hload))
    · rename_i hload
      exact turn_setProcess hp (.refl m s) (.loads ht hzero hload) (by rintro _ _ _ _ ⟨⟩)
  · exact turn_setProcess hp (.refl m s) (.unwraps ht) (by rintro _ _ _ _ ⟨⟩)
  · split
    · exact move_fail hp (.refl m s) (.lacksPipe ht)
    · rename_i left right reading writing D hadd
      have hp' : { s with pipes := s.pipes.push [] }.processes[pid]? = some p := hp
      have hlt : s.pipes.size < (s.pipes.push []).size := by
        rw [Array.size_push]
        exact Nat.lt_succ_self _
      exact .turn _ D (.pipes ht hadd) ⟨rfl, rfl, Nat.le_of_lt hlt, fun _ h => h⟩ (work_setProcess hp' _)
        (size_setProcess _ _ _) fun _ _ _ _ _ => hlt

theorem move_openStep {r : Redirection} {rs : List Redirection} {inner : Command}
    (hp : s.processes[pid]? = some p) (ht : p.task = .open_ (r :: rs) inner) :
    Move m s pid p (s.openStep pid p r rs inner) := by
  unfold openStep
  split
  · exact move_fail hp (.refl m s) (.lacksFile ht)
  split
  · exact move_fail hp (.refl m s) (.lacksFile ht)
  · rename_i u hopen
    unfold openFor at hopen
    split at hopen
    · split at hopen
      · cases hopen
      · rename_i stream u' hstream
        obtain rfl := Except.ok.inj hopen
        exact turn_setProcess hp (aside_of_openStream hstream) (.opens ht hstream)
          (by rintro _ _ _ _ ⟨⟩)
    · cases hopen

theorem move_installStep {handle : Nat} {target : Int} {next : Task σ}
    (hp : s.processes[pid]? = some p)
    (hfail : ∀ e, p.descriptors.install s.descriptorLimit handle target = .error e →
      Turn m s p (.complain (complaintPieces (ExecError.install target e).pieces) 1)
        (p.descriptors.close handle))
    (hnext : ∀ D, p.descriptors.install s.descriptorLimit handle target = .ok D →
      Turn m s p next D)
    (hne : ∀ reading writing left right, next ≠ .forkLeft reading writing left right) :
    Move m s pid p (s.installStep pid p handle target next) := by
  unfold installStep
  split
  · rename_i he
    exact turn_setProcess hp (.refl m s) (hfail _ he) (by rintro _ _ _ _ ⟨⟩)
  · rename_i D hD
    exact turn_setProcess hp (.refl m s) (hnext D hD) hne

theorem move_closeStep {n : Nat} {next : Task σ} (hp : s.processes[pid]? = some p)
    (h : Turn m s p next (p.descriptors.close n))
    (hne : ∀ reading writing left right, next ≠ .forkLeft reading writing left right) :
    Move m s pid p (s.closeStep pid p n next) :=
  turn_setProcess hp (.refl m s) h hne

theorem move_fork {child : Task σ} {next : Pid → Task σ} (hp : s.processes[pid]? = some p)
    (h : Forks p.task child next) : Move m s pid p (s.fork pid p child next) := by
  have hlt := lt_of_getElem? hp
  refine .fork child next h ⟨rfl, rfl, Nat.le_refl _, fun _ h => h⟩ ?_ ?_
  · unfold fork
    have hp' : { s with processes := s.processes.push { p with task := child } }.processes[pid]? =
        some p := by
      rw [Array.getElem?_push_lt hlt]
      exact (Array.getElem?_eq_some_iff.mp hp).2 ▸ rfl
    dsimp only
    rw [work_setProcess hp']
    congr 1
    ext1 r
    rcases eq_or_ne r s.processes.size with rfl | hr
    · rw [Function.update_self, work, Array.getElem?_push_size, Option.map_some]
    · rw [Function.update_of_ne hr, work, work, Array.getElem?_push, if_neg hr]
  · simp [fork]

theorem reap_eq (s : System σ) {child : Pid} {c : Process σ} (hc : s.processes[child]? = some c)
    (e : Ending) : s.reap child e = s.setProcess child { c with task := .reaped e } := by
  rw [reap, hc]

/-- Going on after a process that has ended. -/
theorem move_resume {child : Pid} {c : Process σ} {e : Ending} (hp : s.processes[pid]? = some p)
    (hc : s.processes[child]? = some c) (he : c.task = .ended e) (hne : ∀ e, p.task ≠ .ended e)
    (hq : Resumes p.descriptors child e p.task q.task q.descriptors) :
    Move m s pid p ((s.reap child e).setProcess pid q) := by
  have hchild : pid ≠ child := by
    rintro rfl
    rw [hp] at hc
    obtain rfl := Option.some.inj hc
    exact hne e he
  have hwork : s.work child = some (.ended e, c.descriptors) := by
    rw [work_of_getElem? hc, he]
  have hp' : (s.reap child e).processes[pid]? = some p := by
    rw [reap_eq s hc, setProcess, Array.getElem?_setIfInBounds_ne hchild.symm, hp]
  refine .resume child e c.descriptors q.descriptors q.task hwork hq ?_ ?_ ?_
  · rw [reap_eq s hc]
    exact ⟨rfl, rfl, Nat.le_refl _, fun _ h => h⟩
  · rw [work_setProcess hp', reap_eq s hc, work_setProcess hc]
  · rw [size_setProcess, reap_eq s hc, size_setProcess]

theorem move_awaitStep? {child : Pid} {next : Except Errno Nat → Task σ}
    (hp : s.processes[pid]? = some p) (hne : ∀ e, p.task ≠ .ended e)
    (hq : ∀ e, Resumes p.descriptors child e p.task (next e.status?) p.descriptors)
    (h : s.awaitStep? pid p child next = some t) : Move m s pid p t := by
  unfold awaitStep? at h
  split at h
  · rename_i e he
    obtain rfl := Option.some.inj h
    obtain ⟨c, hc, hce⟩ := Option.map_eq_some_iff.mp he
    exact move_resume hp hc hce hne (hq e)
  · cases h

theorem move_awaitRight {child : Pid} (hp : s.processes[pid]? = some p)
    (ht : p.task = .awaitRight child) (h : s.step? m pid = some t) : Move m s pid p t := by
  have hne : ∀ e, p.task ≠ .ended e := by
    intro e he
    rw [ht] at he
    cases he
  simp only [step?, hp, ht] at h
  split at h
  · rename_i e he
    obtain ⟨c, hc, hce⟩ := Option.map_eq_some_iff.mp he
    split at h
    · rename_i status hs
      obtain rfl := Option.some.inj h
      exact move_resume hp hc hce hne (ht ▸ .right status hs)
    · rename_i err hs
      obtain rfl := Option.some.inj h
      exact move_resume hp hc hce hne (ht ▸ .losesRight err hs)
  · cases h

theorem aside_of_tell {piece : Bytes} {a : Except Errno Nat}
    (h : s.tell p piece = .answer a u) : Aside m s u := by
  unfold tell at h
  split at h
  · cases h
    exact .refl m s
  · exact aside_of_writeTo h

theorem move_complainStep? {pieces : List Bytes} {code : Nat} (hp : s.processes[pid]? = some p)
    (ht : p.task = .complain pieces code) (h : s.complainStep? pid p code pieces = some t) :
    Move m s pid p t := by
  cases pieces with
  | nil =>
    obtain rfl := Option.some.inj h
    exact move_finish hp (.refl m s) (.hushes ht .told)
  | cons piece pieces =>
    rw [complainStep?] at h
    split at h
    · cases h
    · rename_i hw
      obtain rfl := Option.some.inj h
      exact move_finish hp (.refl m s) (.hushes ht (.broken hw))
    · rename_i hw
      obtain rfl := Option.some.inj h
      exact move_finish hp (aside_of_tell hw) (.hushes ht (.untold hw))
    · rename_i hw
      obtain rfl := Option.some.inj h
      exact turn_setProcess hp (aside_of_tell hw) (.complains ht hw) (by rintro _ _ _ _ ⟨⟩)

theorem move_programStep? {state : σ} (hp : s.processes[pid]? = some p)
    (ht : p.task = .program state) (h : s.programStep? m pid p state = some t) :
    Move m s pid p t := by
  have hgo : ∀ u state', Aside m s u → Move m s pid p (u.setTask pid p (.program state')) :=
    fun u state' ha => turn_setProcess hp ha (.goesOn ht) (by rintro _ _ _ _ ⟨⟩)
  unfold programStep? at h
  split at h
  · obtain rfl := Option.some.inj h
    exact hgo s _ (.refl m s)
  · split at h
    · obtain rfl := Option.some.inj h
      exact hgo s _ (.refl m s)
    split at h
    · rename_i hr
      obtain rfl := Option.some.inj h
      exact hgo _ _ (aside_of_readFrom hr)
    · cases h
    · cases h
  · split at h
    · obtain rfl := Option.some.inj h
      exact hgo s _ (.refl m s)
    split at h
    · rename_i hw
      obtain rfl := Option.some.inj h
      exact hgo _ _ (aside_of_writeTo hw)
    · cases h
    split at h
    · obtain rfl := Option.some.inj h
      exact move_finish hp (.refl m s) (.ends ht .breaks)
    · obtain rfl := Option.some.inj h
      exact hgo s _ (.refl m s)
  · split at h
    · obtain rfl := Option.some.inj h
      exact hgo s _ (.refl m s)
    · rename_i u hopen
      obtain rfl := Option.some.inj h
      unfold openFor at hopen
      split at hopen
      · split at hopen
        · cases hopen
        · rename_i stream u' hstream
          obtain rfl := Except.ok.inj hopen
          exact turn_setProcess hp (aside_of_openStream hstream) (.adds ht hstream)
            (by rintro _ _ _ _ ⟨⟩)
      · cases hopen
  · split at h
    · obtain rfl := Option.some.inj h
      exact hgo s _ (.refl m s)
    split at h
    · obtain rfl := Option.some.inj h
      exact hgo s _ (.refl m s)
    · rename_i hr
      obtain rfl := Option.some.inj h
      exact hgo _ _ (aside_of_rewind hr)
  · obtain rfl := Option.some.inj h
    exact move_closeStep hp (.closes ht) (by rintro _ _ _ _ ⟨⟩)
  · obtain rfl := Option.some.inj h
    exact hgo s _ (.refl m s)
  · obtain rfl := Option.some.inj h
    exact hgo s _ (.refl m s)
  · rename_i change next hact
    obtain rfl := Option.some.inj h
    exact turn_setProcess hp ⟨rfl, rfl, rfl, rfl, fun hm => hm state change next hact _ _⟩
      (.goesOn ht) (by rintro _ _ _ _ ⟨⟩)
  · rename_i code hact
    obtain rfl := Option.some.inj h
    exact move_finish hp (.refl m s) (.ends ht (.exits hact))
  · rename_i signal hact
    obtain rfl := Option.some.inj h
    exact move_finish hp (.refl m s) (.ends ht (.dies hact))

/-- Every step is a turn, the making of a process, or going on after one. -/
theorem move_of_step? (h : s.step? m pid = some t) :
    ∃ p, s.processes[pid]? = some p ∧ Move m s pid p t := by
  obtain ⟨p, hp⟩ : ∃ p, s.processes[pid]? = some p := by
    rw [← Option.isSome_iff_exists, ← Option.ne_none_iff_isSome]
    intro hnone
    rw [step?, hnone] at h
    cases h
  refine ⟨p, hp, ?_⟩
  have hawait : ∀ {τ : Task σ}, p.task = τ → (∀ e, τ ≠ .ended e) → ∀ e, p.task ≠ .ended e := by
    rintro τ rfl hne
    exact hne
  cases ht : p.task with
  | execute c =>
    simp only [step?, hp, ht] at h
    split at h
    · rename_i hnoop
      obtain rfl := Option.some.inj h
      exact turn_setProcess hp (.refl m s) (.skips ht hnoop) (by rintro _ _ _ _ ⟨⟩)
    · rename_i hnoop
      obtain rfl := Option.some.inj h
      exact move_fork hp (ht ▸ .line c (by simpa using hnoop))
  | awaitLine line =>
    simp only [step?, hp, ht] at h
    refine move_awaitStep? hp (hawait ht (by rintro _ ⟨⟩)) (fun e => ?_) h
    rw [ht]
    cases hs : e.status? with
    | ok status => exact .line _ (by rw [hs]; rfl)
    | error err => exact .line _ (by rw [hs]; rfl)
  | executed r => simp [step?, hp, ht] at h
  | run c =>
    simp only [step?, hp, ht, Option.some.injEq] at h
    exact h ▸ move_runStep hp ht
  | open_ rs inner =>
    cases rs with
    | nil =>
      simp only [step?, hp, ht, Option.some.injEq] at h
      exact h ▸ turn_setProcess hp (.refl m s) (.settles ht) (by rintro _ _ _ _ ⟨⟩)
    | cons r rs =>
      simp only [step?, hp, ht, Option.some.injEq] at h
      exact h ▸ move_openStep hp ht
  | install handle r rs inner =>
    simp only [step?, hp, ht, Option.some.injEq] at h
    exact h ▸ move_installStep hp (fun _ he => .misplaces ht he) (fun _ hD => .installs ht hD)
      (by rintro _ _ _ _ ⟨⟩)
  | forkLeft reading writing left right =>
    simp only [step?, hp, ht, Option.some.injEq] at h
    exact h ▸ move_fork hp (ht ▸ .left reading writing left right)
  | closeWriting reading writing left right =>
    simp only [step?, hp, ht, Option.some.injEq] at h
    exact h ▸ move_closeStep hp (.closesWriting ht) (by rintro _ _ _ _ ⟨⟩)
  | forkRight reading left right =>
    simp only [step?, hp, ht, Option.some.injEq] at h
    exact h ▸ move_fork hp (ht ▸ .right reading left right)
  | closeReading reading left right =>
    simp only [step?, hp, ht, Option.some.injEq] at h
    exact h ▸ move_closeStep hp (.closesReading ht) (by rintro _ _ _ _ ⟨⟩)
  | awaitLeft left right =>
    simp only [step?, hp, ht] at h
    refine move_awaitStep? hp (hawait ht (by rintro _ ⟨⟩)) (fun e => ?_) h
    rw [ht]
    cases hs : e.status? with
    | ok status => exact .left right ⟨status, hs⟩
    | error err => exact .losesLeft right err hs
  | awaitRight right => exact move_awaitRight hp ht h
  | leaveReading reading writing c =>
    simp only [step?, hp, ht, Option.some.injEq] at h
    exact h ▸ move_closeStep hp (.leaves ht) (by rintro _ _ _ _ ⟨⟩)
  | attach handle target c =>
    simp only [step?, hp, ht, Option.some.injEq] at h
    exact h ▸ move_installStep hp (fun _ he => .misattaches ht he) (fun _ hD => .attaches ht hD)
      (by rintro _ _ _ _ ⟨⟩)
  | complain pieces code =>
    simp only [step?, hp, ht] at h
    exact move_complainStep? hp ht h
  | program state =>
    simp only [step?, hp, ht] at h
    exact move_programStep? hp ht h
  | ended e => simp [step?, hp, ht] at h
  | reaped e => simp [step?, hp, ht] at h

/-- What a step does to other processes : one that has ended may be waited for, and one that
was not there before may begin. -/
theorem work_of_step? {q : Pid} (h : s.step? m pid = some t) (hne : q ≠ pid) :
    t.work q = s.work q ∨
      (∃ e D, s.work q = some (.ended e, D) ∧ t.work q = some (.reaped e, D)) ∨
      q = s.processes.size ∧ ∃ p child next, s.processes[pid]? = some p ∧
        Forks p.task child next ∧ t.work q = some (child, p.descriptors) := by
  obtain ⟨p, hp, hm⟩ := move_of_step? h
  cases hm with
  | turn τ D ht kept work size made =>
    exact .inl (by rw [work, Function.update_of_ne hne])
  | fork child next hf kept work size =>
    rcases eq_or_ne q s.processes.size with rfl | hnew
    · exact .inr (.inr ⟨rfl, p, child, next, hp, hf,
        by rw [work, Function.update_of_ne hne, Function.update_self]⟩)
    · exact .inl (by rw [work, Function.update_of_ne hne, Function.update_of_ne hnew])
  | resume child e D' D τ ended hr kept work size =>
    rcases eq_or_ne q child with rfl | hchild
    · exact .inr (.inl ⟨e, D', ended,
        by rw [work, Function.update_of_ne hne, Function.update_self]⟩)
    · exact .inl (by rw [work, Function.update_of_ne hne, Function.update_of_ne hchild])

/-- What a step has made is what some process makes. -/
theorem forks_of_new {τ : Task σ} {D : Descriptors} (h : s.step? m pid = some t)
    (hw : t.work s.processes.size = some (τ, D)) : ∃ τ' next, Forks τ' τ next := by
  have hne : s.processes.size ≠ pid := by
    rintro rfl
    obtain ⟨p, hp, -⟩ := move_of_step? h
    exact absurd (lt_of_getElem? hp) (Nat.lt_irrefl _)
  have hnone : s.work s.processes.size = none := work_eq_none (Nat.le_refl _)
  rcases work_of_step? h hne with
    hsame | ⟨e, D', hended, -⟩ | ⟨-, p, child, next, -, hf, hchild⟩
  · rw [hsame, hnone] at hw
    cases hw
  · rw [hnone] at hended
    cases hended
  · obtain ⟨rfl, -⟩ := work_inj hw hchild
    exact ⟨_, next, hf⟩

theorem kept_of_step? (h : s.step? m pid = some t) : Kept m s t := by
  obtain ⟨p, hp, hm⟩ := move_of_step? h
  cases hm <;> assumption

end System

end LineShell
