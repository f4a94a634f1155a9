import LineShell.Proofs.Wiring

/-!
# The stages of a process

`Traced` holds of the states to which steps lead, each with its `Layout` : what the steps on
the way tell of the places of processes, of pipes, and of opened files. `Stage` says which
table a process of a place has at every point of its work, until it is a program. `Arranged` :
every process is in such a stage. No step breaks that (`Arranged.step`).
-/

namespace LineShell

variable {σ : Type}

/-- What is known once a process at place `a` has come to a task, with its descriptors. -/
def Layout.note (L : Layout) (a : Address) (τ : Task σ) (D : Descriptors) : Layout :=
  match τ with
  | .awaitLine line => L.enter line []
  | .closeWriting _ _ left _ => L.enter left (.left :: a)
  | .closeReading _ _ right => L.enter right (.right :: a)
  | .forkLeft _ writing _ _ =>
    match D.get? writing with
    | some ⟨.pipeWriter p, _⟩ => L.make a p
    | _ => L
  | .install handle _ _ _ =>
    match D.get? handle with
    | some h => L.take a h.stream
    | none => L
  | _ => L

/-- What is known after a step of process `pid` has led to the state `t`. -/
def Layout.after (L : Layout) (t : System σ) (pid : Pid) : Layout :=
  match t.work pid with
  | some (τ, D) => L.note ((L.place pid).getD []) τ D
  | none => L

namespace System

/-- The states to which steps lead, and what is known of them. -/
inductive Traced (m : Machine σ) (s : System σ) : System σ → Layout → Prop
  | start : Traced m s s {}
  | step {t u : System σ} {L : Layout} {pid : Pid} :
      Traced m s t L → t.step? m pid = some u → Traced m s u (L.after u pid)

variable {m : Machine σ} {s t : System σ}

theorem Traced.reachable {L : Layout} (h : Traced m s t L) : Reachable m s t := by
  induction h with
  | start => exact .refl
  | step _ hstep ih => exact .step ih ⟨_, hstep⟩

theorem exists_traced (h : Reachable m s t) : ∃ L, Traced m s t L := by
  induction h with
  | refl => exact ⟨_, .start⟩
  | step _ hstep ih =>
    obtain ⟨L, hL⟩ := ih
    obtain ⟨pid, hpid⟩ := hstep
    exact ⟨_, .step hL hpid⟩

end System

open LineShell.System

/-! ## The stages -/

section

variable (c : Command) (T : Table) (L : Layout) (a : Address)

/-- At a place there is a pipe between two commands, and all that is around it is open. -/
structure Splits (left right : Command) (p : Nat) : Prop where
  part : ∃ k, c.part? a = some k ∧ k.unwrap.1 = .pipe left right ∧
    k.unwrap.2.length = (L.opened a).length
  pipe : L.pipe a = some p

/-- What the process of a place has to do, and its table `S` while it does that. The redirections
`done` have been opened. A table with an end of a pipe under a number that was free before
is said by that number. -/
inductive Stage (S : Table) : Task σ → Prop
  | run {k k' : Command} {done : List Redirection} (part : c.part? a = some k)
      (rest : k.unwrap = (k'.unwrap.1, done ++ k'.unwrap.2))
      (opened : done.length = (L.opened a).length) (childless : L.Childless a)
      (table : S = L.wiring c T a) : Stage S (.run k')
  | open_ {k inner : Command} {done rs : List Redirection} (part : c.part? a = some k)
      (rest : k.unwrap = (inner, done ++ rs)) (opened : done.length = (L.opened a).length)
      (childless : L.Childless a) (table : S = L.wiring c T a) : Stage S (.open_ rs inner)
  | install {k inner : Command} {done rs : List Redirection} {r : Redirection} {handle : Nat}
      {os : List Stream} {o : Stream} (part : c.part? a = some k)
      (rest : k.unwrap = (inner, done ++ r :: rs)) (opened : L.opened a = os ++ [o])
      (length : done.length = os.length) (childless : L.Childless a)
      (free : redirected (done.zip os) (L.entry c T a) handle = none)
      (table : S = Function.update (redirected (done.zip os) (L.entry c T a)) handle
        (some ⟨o, true⟩)) : Stage S (.install handle r rs inner)
  | forkLeft {left right : Command} {p reading writing : Nat} (splits : Splits c L a left right p)
      (childless : L.Childless a) (freeReading : L.wiring c T a reading = none)
      (freeWriting : L.wiring c T a writing = none) (ne : reading ≠ writing)
      (table : S = Function.update
        (Function.update (L.wiring c T a) reading (some ⟨.pipeReader p, false⟩))
        writing (some ⟨.pipeWriter p, false⟩)) : Stage S (.forkLeft reading writing left right)
  | closeWriting {left right : Command} {p reading writing : Nat} {leftPid : Pid}
      (splits : Splits c L a left right p) (placed : L.place leftPid = some (.left :: a))
      (alone : ∀ q, L.place q ≠ some (.right :: a)) (freeReading : L.wiring c T a reading = none)
      (freeWriting : L.wiring c T a writing = none) (ne : reading ≠ writing)
      (table : S = Function.update
        (Function.update (L.wiring c T a) reading (some ⟨.pipeReader p, false⟩))
        writing (some ⟨.pipeWriter p, false⟩)) :
      Stage S (.closeWriting reading writing leftPid right)
  | forkRight {left right : Command} {p reading : Nat} {leftPid : Pid}
      (splits : Splits c L a left right p) (placed : L.place leftPid = some (.left :: a))
      (alone : ∀ q, L.place q ≠ some (.right :: a)) (freeReading : L.wiring c T a reading = none)
      (table : S = Function.update (L.wiring c T a) reading (some ⟨.pipeReader p, false⟩)) :
      Stage S (.forkRight reading leftPid right)
  | closeReading {left right : Command} {p reading : Nat} {leftPid rightPid : Pid}
      (splits : Splits c L a left right p) (placed : L.place leftPid = some (.left :: a))
      (placedRight : L.place rightPid = some (.right :: a))
      (freeReading : L.wiring c T a reading = none)
      (table : S = Function.update (L.wiring c T a) reading (some ⟨.pipeReader p, false⟩)) :
      Stage S (.closeReading reading leftPid rightPid)
  | awaitLeft {left right : Command} {p : Nat} {leftPid rightPid : Pid}
      (splits : Splits c L a left right p) (placed : L.place leftPid = some (.left :: a))
      (placedRight : L.place rightPid = some (.right :: a)) (table : S = L.wiring c T a) :
      Stage S (.awaitLeft leftPid rightPid)
  | awaitRight {left right : Command} {p : Nat} {rightPid : Pid}
      (splits : Splits c L a left right p) (placedRight : L.place rightPid = some (.right :: a))
      (table : S = L.wiring c T a) : Stage S (.awaitRight rightPid)
  | leaveReading {k : Command} {b : Address} {p reading writing : Nat} (cons : a = .left :: b)
      (part : c.part? a = some k) (opened : L.opened a = []) (childless : L.Childless a)
      (pipe : L.pipe b = some p) (freeReading : L.wiring c T b reading = none)
      (freeWriting : L.wiring c T b writing = none) (ne : reading ≠ writing)
      (table : S = Function.update
        (Function.update (L.wiring c T b) reading (some ⟨.pipeReader p, false⟩))
        writing (some ⟨.pipeWriter p, false⟩)) : Stage S (.leaveReading reading writing k)
  | attach {k : Command} {d : Side} {b : Address} {p handle target : Nat} (cons : a = d :: b)
      (eq : target = d.target) (part : c.part? a = some k) (opened : L.opened a = [])
      (childless : L.Childless a) (pipe : L.pipe b = some p) (free : L.wiring c T b handle = none)
      (table : S = Function.update (L.wiring c T b) handle (some ⟨d.stream p, false⟩)) :
      Stage S (.attach handle target k)
  | complain {pieces : List Bytes} {code : Nat} : Stage S (.complain pieces code)
  | program {state : σ} : Stage S (.program state)
  | ended {e : Ending} : Stage S (.ended e)
  | reaped {e : Ending} : Stage S (.reaped e)

/-- What the shell has to do. -/
inductive ShellStage : Task σ → Prop
  | begins (none : ∀ q, L.place q = none) : ShellStage (.execute c)
  | waits {line : Pid} (placed : L.place line = some []) : ShellStage (.awaitLine line)
  | done (r : ExecResult) : ShellStage (.executed r)

end

/-- Every process is in a stage of its work. Those without a place ended before. -/
structure Arranged (c : Command) (D₀ : Descriptors) (L : Layout) (s : System σ) : Prop where
  atShell : ∃ τ, s.work shell = some (τ, D₀) ∧ ShellStage c L τ
  placed : ∀ q a, L.place q = some a → q ≠ shell ∧ q < s.processes.size
  inj : ∀ q r a, L.place q = some a → L.place r = some a → q = r
  stage : ∀ q a τ D, L.place q = some a → s.work q = some (τ, D) →
    Stage c D₀.get? L a D.get? τ
  other : ∀ q τ D, q ≠ shell → L.place q = none → s.work q = some (τ, D) →
    τ.IsOver ∧ ∀ n, D.get? n = none
  parent : ∀ q d a, L.place q = some (d :: a) → ∃ r, L.place r = some a
  fresh : ∀ a, (∀ q, L.place q ≠ some a) → L.opened a = [] ∧ L.pipe a = none

variable {c : Command} {D₀ D : Descriptors} {T S : Table} {L L' : Layout} {a b : Address}
  {τ : Task σ} {s t : System σ} {m : Machine σ} {pid q : Pid}

/-! ## What a stage depends on -/

theorem Layout.Agrees.wiring_above {d : Side} (h : L.Agrees L' (d :: a)) :
    L'.wiring c T a = L.wiring c T a := by
  have hentry : L'.entry c T a = L.entry c T a :=
    Layout.entry_of_above a fun d' a' hs => h.above d' a' (hs.trans (List.suffix_cons d a))
  rw [Layout.wiring, Layout.wiring, hentry, (h.above d a (List.suffix_refl _)).2]

theorem Splits.of_agrees {left right : Command} {p : Nat} (h : Splits c L b left right p)
    (hL : L.Agrees L' b) : Splits c L' b left right p := by
  refine ⟨?_, hL.pipe.trans h.pipe⟩
  rw [hL.opened]
  exact h.part

/-- A stage is the same in layouts that agree about its place. -/
theorem Stage.of_agrees (h : Stage c T L b S τ) (hL : L.Agrees L' b) : Stage c T L' b S τ := by
  have hwiring : L'.wiring c T b = L.wiring c T b := Layout.wiring_of_agrees hL
  have hentry : L'.entry c T b = L.entry c T b := Layout.entry_of_agrees hL
  have hplace := hL.below
  have halone : ∀ d, (∀ q, L.place q ≠ some (d :: b)) → ∀ q, L'.place q ≠ some (d :: b) :=
    fun d hd q hq => hd q ((hplace q d).mp hq)
  cases h with
  | run part rest opened childless table =>
    exact .run part rest (by rw [hL.opened, opened]) (Layout.childless_of_agrees hL childless)
      (by rw [hwiring, table])
  | open_ part rest opened childless table =>
    exact .open_ part rest (by rw [hL.opened, opened]) (Layout.childless_of_agrees hL childless)
      (by rw [hwiring, table])
  | install part rest opened length childless free table =>
    exact .install part rest (by rw [hL.opened, opened]) length
      (Layout.childless_of_agrees hL childless) (by rw [hentry, free]) (by rw [hentry, table])
  | forkLeft splits childless freeReading freeWriting ne table =>
    rw [← hwiring] at freeReading freeWriting table
    exact .forkLeft (splits.of_agrees hL) (Layout.childless_of_agrees hL childless) freeReading
      freeWriting ne table
  | closeWriting splits placed alone freeReading freeWriting ne table =>
    rw [← hwiring] at freeReading freeWriting table
    exact .closeWriting (splits.of_agrees hL) ((hplace _ _).mpr placed) (halone _ alone)
      freeReading freeWriting ne table
  | forkRight splits placed alone freeReading table =>
    rw [← hwiring] at freeReading table
    exact .forkRight (splits.of_agrees hL) ((hplace _ _).mpr placed) (halone _ alone) freeReading
      table
  | closeReading splits placed placedRight freeReading table =>
    rw [← hwiring] at freeReading table
    exact .closeReading (splits.of_agrees hL) ((hplace _ _).mpr placed)
      ((hplace _ _).mpr placedRight) freeReading table
  | awaitLeft splits placed placedRight table =>
    exact .awaitLeft (splits.of_agrees hL) ((hplace _ _).mpr placed)
      ((hplace _ _).mpr placedRight) (by rw [hwiring, table])
  | awaitRight splits placedRight table =>
    exact .awaitRight (splits.of_agrees hL) ((hplace _ _).mpr placedRight) (by rw [hwiring, table])
  | leaveReading cons part opened childless pipe freeReading freeWriting ne table =>
    subst cons
    rw [← hL.wiring_above] at freeReading freeWriting table
    exact .leaveReading rfl part (by rw [hL.opened, opened])
      (Layout.childless_of_agrees hL childless)
      ((hL.above _ _ (List.suffix_refl _)).1.trans pipe) freeReading freeWriting ne table
  | attach cons eq part opened childless pipe free table =>
    subst cons
    rw [← hL.wiring_above] at free table
    exact .attach rfl eq part (by rw [hL.opened, opened]) (Layout.childless_of_agrees hL childless)
      ((hL.above _ _ (List.suffix_refl _)).1.trans pipe) free table
  | complain => exact .complain
  | program => exact .program
  | ended => exact .ended
  | reaped => exact .reaped

end LineShell
