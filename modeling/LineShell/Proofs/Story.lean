import LineShell.Proofs.Journal

/-!
# What a process of a place has done

The deeds of a process follow from its place and from how far it has come : first those of the
redirections, one after the other, then those of the command inside them. `Story` says so for
every task. `Failure` is what the process has done that has a message to write, and `Finale` what
the process has done that has ended.

A turn of the process, the making of another, and going on after another lead from a story to a
story with the deeds of the step added (`Story.turn`, `Story.forks`, `Story.resumes`).
-/

namespace LineShell

variable {σ : Type} {c k left right inner : Command} {D D' D₁ : Descriptors} {L L' : Layout}
  {a : Address} {τ : Task σ} {s t : System σ} {m : Machine σ} {q l r : Pid} {p : Process σ}
  {es : List Deed} {e : Ending}

namespace Command

/-- The command at a place, inside its redirections. -/
def core? (c : Command) (a : Address) : Option Command :=
  (c.part? a).map fun k => k.unwrap.1

theorem core?_eq (h : c.part? a = some k) : c.core? a = some k.unwrap.1 := by
  rw [core?, h, Option.map_some]

theorem unwrap_of_core? (h : c.core? a = some k) : k.unwrap = (k, []) := by
  obtain ⟨k', -, rfl⟩ := Option.map_eq_some_iff.mp h
  exact k'.unwrap_unwrap

/-- Only in a pipe is there a command at a place further down. -/
theorem core?_of_cons {d : Side} (h : c.core? (d :: a) = some k) :
    ∃ left right, c.core? a = some (.pipe left right) := by
  obtain ⟨k', hk', -⟩ := Option.map_eq_some_iff.mp h
  obtain ⟨k₀, hk₀, hside⟩ := Option.bind_eq_some_iff.mp hk'
  rw [core?_eq hk₀]
  cases hpipe : k₀.unwrap.1 with
  | pipe left right => exact ⟨left, right, rfl⟩
  | exec argv => simp [hpipe] at hside
  | redirect target r => simp [hpipe] at hside

theorem part?_cons_of_core? (h : c.core? a = some (.pipe left right)) (d : Side) :
    c.part? (d :: a) = some (d.command left right) := by
  obtain ⟨k, hk, hpipe⟩ := Option.map_eq_some_iff.mp h
  exact part?_cons hk hpipe

end Command

open LineShell.System

/-- The deeds of redirections that a process gets through. -/
def performed (rs : List Redirection) : List Deed :=
  rs.flatMap fun r => [.opens r, .places r]

theorem performed_concat (rs : List Redirection) (r : Redirection) :
    performed (rs ++ [r]) = performed rs ++ [.opens r] ++ [.places r] := by
  simp [performed]

/-- A process keeps its place when another comes to one. -/
theorem Layout.place_enter_of_place {b : Address} (hq : L.place q = none)
    (hr : L.place r = some b) : (L.enter q a).place r = some b := by
  have hne : r ≠ q := by
    rintro rfl
    rw [hq] at hr
    cases hr
  rw [place_enter, Function.update_of_ne hne, hr]

/-- At a place there is a pipe, and its sides have the processes `l` and `r`. -/
structure Sides (c : Command) (L : Layout) (a : Address) (l r : Pid) : Prop where
  core : ∃ left right, c.core? a = some (.pipe left right)
  left : L.place l = some (.left :: a)
  right : L.place r = some (.right :: a)

/-- What a process does that has a message to write, and how it ends. -/
inductive Utters (message : Bytes) (code : Nat) : List Deed → Ending → Prop
  | told {datas : List Bytes} (all : datas.flatten = message) :
      Utters message code (datas.map .prints) (.ofCode code)
  | untold {datas : List Bytes} {rest : Bytes} {e : Errno} (part : datas.flatten ++ rest = message) :
      Utters message code (datas.map .prints ++ [.mutes e]) (.ofCode (codeUntold code e))
  | broken {datas : List Bytes} {rest : Bytes} (part : datas.flatten ++ rest = message) :
      Utters message code (datas.map .prints ++ [.breaks]) (.killed 13)

/-- What was taken of a piece and what was not are all that there was. -/
theorem take_append_untaken (piece : Bytes) (pieces : List Bytes) (n : Nat) :
    piece.take n ++ (untaken piece pieces n).flatten = (piece :: pieces).flatten := by
  rw [untaken, List.flatten_cons]
  split
  · rw [List.flatten_cons, ← List.append_assoc, List.take_append_drop]
  · rw [List.take_of_length_le (by omega)]

section

variable (c : Command) (L : Layout) (a : Address)

/-- What a process of a place has done that fails, the pieces of the message that it has to write, and
its exit code. -/
inductive Failure : List Deed → List Bytes → Nat → Prop
  | unopened {done rest : List Redirection} {r : Redirection} {e : IoError}
      (redirections : c.redirectionsAt a = done ++ r :: rest) :
      Failure (performed done ++ [.refuses r])
        (complaintPieces (ExecError.redirect r.path e).pieces) 1
  | unplaced {done rest : List Redirection} {r : Redirection} {e : Errno}
      (redirections : c.redirectionsAt a = done ++ r :: rest) :
      Failure (performed done ++ [.opens r, .refuses r])
        (complaintPieces (ExecError.install r.descriptor e).pieces) 1
  | zero {program : Bytes} {arguments : List Bytes}
      (core : c.core? a = some (.exec (program :: arguments)))
      (holds : (program :: arguments).any (·.contains 0) = true) :
      Failure (performed (c.redirectionsAt a) ++ [.balks]) (zeroPieces program) 127
  | unloaded {program : Bytes} {arguments : List Bytes} {e : Errno}
      (core : c.core? a = some (.exec (program :: arguments)))
      (free : (program :: arguments).any (·.contains 0) = false) :
      Failure (performed (c.redirectionsAt a) ++ [.lacks e]) (loadPieces program e) (exitCodeOf e)
  | pipeless {left right : Command} {e : Errno} (core : c.core? a = some (.pipe left right)) :
      Failure (performed (c.redirectionsAt a) ++ [.lacksPipe])
        (complaintPieces (ExecError.pipe e).pieces) 1
  | losesLeft {l r : Pid} {e : Ending} {err : Errno} (sides : Sides c L a l r)
      (untold : e.status? = .error err) :
      Failure (performed (c.redirectionsAt a) ++ [.forks l, .forks r, .reaps l e])
        (complaintPieces (ExecError.wait l err).pieces) 1
  | losesRight {l r : Pid} {e e' : Ending} {err : Errno} (sides : Sides c L a l r)
      (untold : e'.status? = .error err) (heard : e.IsTold) :
      Failure (performed (c.redirectionsAt a) ++ [.forks l, .forks r, .reaps l e, .reaps r e'])
        (complaintPieces (ExecError.wait r err).pieces) 1

/-- What a process of a place has done that has ended, and how it has ended. -/
inductive Finale (m : Machine σ) : List Deed → Ending → Prop
  | empty (core : c.core? a = some (.exec [])) :
      Finale m (performed (c.redirectionsAt a)) (.exited 0)
  | program {program : Bytes} {arguments : List Bytes} {state : σ} {e : Ending}
      (core : c.core? a = some (.exec (program :: arguments)))
      (free : (program :: arguments).any (·.contains 0) = false) (how : Stops m state e) :
      Finale m (performed (c.redirectionsAt a) ++ [.execs (program :: arguments), .ends e]) e
  | fails {es said : List Deed} {pieces : List Bytes} {code : Nat} {e : Ending}
      (failure : Failure c L a es pieces code) (utters : Utters pieces.flatten code said e) :
      Finale m (es ++ said) e
  | pipe {l r : Pid} {e e' : Ending} {status : Nat} (sides : Sides c L a l r)
      (told : e'.status? = .ok status) (heard : e.IsTold) :
      Finale m (performed (c.redirectionsAt a) ++ [.forks l, .forks r, .reaps l e, .reaps r e'])
        (.ofCode status)

/-- What a process of a place has done that has come to a task. -/
inductive Story (m : Machine σ) : Task σ → List Deed → Prop
  | leaveReading {reading writing : Nat} {k : Command} (part : c.part? a = some k) :
      Story m (.leaveReading reading writing k) []
  | attach {handle target : Nat} {k : Command} (part : c.part? a = some k) :
      Story m (.attach handle target k) []
  | run {k : Command} {done : List Redirection} (core : c.core? a = some k.unwrap.1)
      (redirections : c.redirectionsAt a = done ++ k.unwrap.2) : Story m (.run k) (performed done)
  | open_ {inner : Command} {done rs : List Redirection} (core : c.core? a = some inner)
      (redirections : c.redirectionsAt a = done ++ rs) : Story m (.open_ rs inner) (performed done)
  | install {inner : Command} {done rs : List Redirection} {r : Redirection} {handle : Nat}
      (core : c.core? a = some inner) (redirections : c.redirectionsAt a = done ++ r :: rs) :
      Story m (.install handle r rs inner) (performed done ++ [.opens r])
  | forkLeft {left right : Command} {reading writing : Nat}
      (core : c.core? a = some (.pipe left right)) :
      Story m (.forkLeft reading writing left right) (performed (c.redirectionsAt a))
  | closeWriting {left right : Command} {reading writing : Nat} {l : Pid}
      (core : c.core? a = some (.pipe left right)) (placed : L.place l = some (.left :: a)) :
      Story m (.closeWriting reading writing l right) (performed (c.redirectionsAt a) ++ [.forks l])
  | forkRight {left right : Command} {reading : Nat} {l : Pid}
      (core : c.core? a = some (.pipe left right)) (placed : L.place l = some (.left :: a)) :
      Story m (.forkRight reading l right) (performed (c.redirectionsAt a) ++ [.forks l])
  | closeReading {reading : Nat} {l r : Pid} (sides : Sides c L a l r) :
      Story m (.closeReading reading l r) (performed (c.redirectionsAt a) ++ [.forks l, .forks r])
  | awaitLeft {l r : Pid} (sides : Sides c L a l r) :
      Story m (.awaitLeft l r) (performed (c.redirectionsAt a) ++ [.forks l, .forks r])
  | awaitRight {l r : Pid} {e : Ending} (sides : Sides c L a l r) (heard : e.IsTold) :
      Story m (.awaitRight r) (performed (c.redirectionsAt a) ++ [.forks l, .forks r, .reaps l e])
  | complain {es : List Deed} {pieces rest datas : List Bytes} {code : Nat}
      (failure : Failure c L a es pieces code)
      (part : datas.flatten ++ rest.flatten = pieces.flatten) :
      Story m (.complain rest code) (es ++ datas.map .prints)
  | program {program : Bytes} {arguments : List Bytes} {state : σ}
      (core : c.core? a = some (.exec (program :: arguments)))
      (free : (program :: arguments).any (·.contains 0) = false) :
      Story m (.program state) (performed (c.redirectionsAt a) ++ [.execs (program :: arguments)])
  | ended {es : List Deed} {e : Ending} (finale : Finale c L a m es e) : Story m (.ended e) es
  | reaped {es : List Deed} {e : Ending} (finale : Finale c L a m es e) : Story m (.reaped e) es

/-- What the shell has done that has come to a task. -/
inductive ShellStory : Task σ → List Deed → Prop
  | execute : ShellStory (.execute c) []
  | awaitLine {line : Pid} (busy : c.isNoop = false) (placed : L.place line = some []) :
      ShellStory (.awaitLine line) [.forks line]
  | skipped (noop : c.isNoop = true) : ShellStory (.executed (.ok 0)) []
  | executed {line : Pid} {e : Ending} {r : ExecResult} (busy : c.isNoop = false)
      (placed : L.place line = some [])
      (result : r = e.status?.mapError fun err => .wait line err) :
      ShellStory (.executed r) [.forks line, .reaps line e]

end

/-! ## More places -/

section

variable (hL : ∀ q b, L.place q = some b → L'.place q = some b)
include hL

theorem Sides.mono (h : Sides c L a l r) : Sides c L' a l r :=
  ⟨h.core, hL _ _ h.left, hL _ _ h.right⟩

theorem Failure.mono {pieces : List Bytes} {code : Nat} (h : Failure c L a es pieces code) :
    Failure c L' a es pieces code := by
  cases h with
  | unopened redirections => exact .unopened redirections
  | unplaced redirections => exact .unplaced redirections
  | zero core holds => exact .zero core holds
  | unloaded core free => exact .unloaded core free
  | pipeless core => exact .pipeless core
  | losesLeft sides untold => exact .losesLeft (sides.mono hL) untold
  | losesRight sides untold heard => exact .losesRight (sides.mono hL) untold heard

theorem Finale.mono (h : Finale c L a m es e) : Finale c L' a m es e := by
  cases h with
  | empty core => exact .empty core
  | program core free how => exact .program core free how
  | fails failure utters => exact .fails (failure.mono hL) utters
  | pipe sides told heard => exact .pipe (sides.mono hL) told heard

/-- A story stays true while others come to their places. -/
theorem Story.mono (h : Story c L a m τ es) : Story c L' a m τ es := by
  cases h with
  | leaveReading part => exact .leaveReading part
  | attach part => exact .attach part
  | run core redirections => exact .run core redirections
  | open_ core redirections => exact .open_ core redirections
  | install core redirections => exact .install core redirections
  | forkLeft core => exact .forkLeft core
  | closeWriting core placed => exact .closeWriting core (hL _ _ placed)
  | forkRight core placed => exact .forkRight core (hL _ _ placed)
  | closeReading sides => exact .closeReading (sides.mono hL)
  | awaitLeft sides => exact .awaitLeft (sides.mono hL)
  | awaitRight sides heard => exact .awaitRight (sides.mono hL) heard
  | complain failure part => exact .complain (failure.mono hL) part
  | program core free => exact .program core free
  | ended finale => exact .ended (finale.mono hL)
  | reaped finale => exact .reaped (finale.mono hL)

theorem ShellStory.mono (h : ShellStory c L τ es) : ShellStory c L' τ es := by
  cases h with
  | execute => exact .execute
  | awaitLine busy placed => exact .awaitLine busy (hL _ _ placed)
  | skipped noop => exact .skipped noop
  | executed busy placed result => exact .executed busy (hL _ _ placed) result

end

/-! ## One step -/

/-- What a process has done that has ended stays when it was waited for. -/
theorem Story.reap (h : Story c L a m (.ended e) es) : Story c L a m (.reaped e) es := by
  cases h with
  | ended finale => exact .reaped finale

/-- A process fails, and has not written anything yet. -/
theorem Failure.story {pieces : List Bytes} {code : Nat} (h : Failure c L a es pieces code) :
    Story c L a m (.complain pieces code) es := by
  have hs : Story c L a m (.complain pieces code) (es ++ [].map .prints) := .complain h rfl
  rwa [List.map_nil, List.append_nil] at hs

/-- A process begins with its command. -/
theorem Story.begins (part : c.part? a = some k) : Story c L a m (.run k) [] := by
  have hs : Story c L a m (.run k) (performed []) :=
    .run (Command.core?_eq part) (Command.redirectionsAt_eq part)
  exact hs

namespace Story

variable {program piece : Bytes} {arguments pieces : List Bytes} {code : Nat}

theorem prints (h : Story c L a m (.complain (piece :: pieces) code) es) (n : Nat) :
    Story c L a m (.complain (untaken piece pieces n) code) (es ++ [.prints (piece.take n)]) := by
  cases h with
  | @complain es' _ _ datas _ failure part =>
    have hs : Story c L a m (.complain (untaken piece pieces n) code)
        (es' ++ (datas ++ [piece.take n]).map .prints) := by
      refine .complain failure ?_
      rw [List.flatten_concat, List.append_assoc, take_append_untaken, part]
    rwa [List.map_append, ← List.append_assoc] at hs

theorem core_of_run_exec {argv : List Bytes} (h : Story c L a m (.run (.exec argv)) es) :
    c.core? a = some (.exec argv) ∧ es = performed (c.redirectionsAt a) := by
  cases h with
  | @run _ done core redirections =>
    obtain rfl : c.redirectionsAt a = done := redirections.trans (List.append_nil done)
    exact ⟨core, rfl⟩

theorem core_of_run_pipe (h : Story c L a m (.run (.pipe left right)) es) :
    c.core? a = some (.pipe left right) ∧ es = performed (c.redirectionsAt a) := by
  cases h with
  | @run _ done core redirections =>
    obtain rfl : c.redirectionsAt a = done := redirections.trans (List.append_nil done)
    exact ⟨core, rfl⟩

/-- No program can be made of the arguments. -/
theorem refuses (h : Story c L a m (.run (.exec (program :: arguments))) es)
    (why : Unloadable m s p program arguments pieces code) (named : Option (List Bytes)) :
    Story c L a m (.complain pieces code)
      (es ++ s.loading m p program arguments named (.complain pieces code)) := by
  obtain ⟨core, rfl⟩ := h.core_of_run_exec
  cases why with
  | zero holds =>
    rw [loading, if_pos holds, if_pos ⟨rfl, rfl⟩]
    exact Failure.story (.zero core holds)
  | load free failed =>
    rw [loading, if_neg (by rw [free]; exact Bool.false_ne_true), failed]
    dsimp only
    rw [if_pos ⟨rfl, rfl⟩]
    exact Failure.story (.unloaded core free)

/-- A program is made of the arguments. -/
theorem loads {state : σ} (h : Story c L a m (.run (.exec (program :: arguments))) es)
    (free : (program :: arguments).any (·.contains 0) = false) :
    Story c L a m (.program state) (es ++
      s.loading m p program arguments (some (program :: arguments)) (.program state)) := by
  obtain ⟨core, rfl⟩ := h.core_of_run_exec
  exact .program core free

/-- The file of a redirection cannot be opened. -/
theorem lacksFile {r : Redirection} {rs : List Redirection} {e : IoError}
    (h : Story c L a m (.open_ (r :: rs) inner) es) :
    Story c L a m (.complain (complaintPieces (ExecError.redirect r.path e).pieces) 1)
      (es ++ [.refuses r]) := by
  cases h with
  | open_ core redirections => exact Failure.story (.unopened redirections)

/-- The file of a redirection cannot be put in its place. -/
theorem misplaces {handle : Nat} {r : Redirection} {rs : List Redirection} {e : Errno}
    (h : Story c L a m (.install handle r rs inner) es) :
    Story c L a m (.complain (complaintPieces (ExecError.install r.descriptor e).pieces) 1)
      (es ++ [.refuses r]) := by
  cases h with
  | install core redirections =>
    rw [List.append_assoc]
    exact Failure.story (.unplaced redirections)

/-- The file of a redirection is in its place. -/
theorem installs {handle : Nat} {r : Redirection} {rs : List Redirection}
    (h : Story c L a m (.install handle r rs inner) es) :
    Story c L a m (.open_ rs inner) (es ++ [.places r]) := by
  cases h with
  | install core redirections =>
    rw [← performed_concat]
    exact .open_ core (by rw [redirections, List.append_assoc]; rfl)

/-- All redirections are in their places. -/
theorem settles (h : Story c L a m (.open_ [] inner) es) : Story c L a m (.run inner) es := by
  cases h with
  | open_ core redirections =>
    have hu := Command.unwrap_of_core? core
    exact .run (by rw [hu, core]) (by rw [hu, redirections])

/-- A message comes to its end. -/
theorem hushes (h : Story c L a m (.complain pieces code) es) (how : Hushes s p code pieces e) :
    Story c L a m (.ended e) (es ++ s.telling p pieces) := by
  cases h with
  | complain failure part =>
    rw [List.append_assoc]
    refine .ended (.fails failure ?_)
    cases how with
    | told =>
      rw [telling, List.append_nil]
      exact .told (by rw [← part, List.flatten_nil, List.append_nil])
    | untold answer =>
      rw [telling, answer]
      exact .untold part
    | broken answer =>
      rw [telling, answer]
      exact .broken part

/-- A turn of a process adds its deeds to the story. An end of a pipe finds its place, and a program has
its arguments. -/
theorem turn (h : Story c L a m p.task es) (ht : Turn m s p τ D) {named : Option (List Bytes)}
    (hattach : ∀ handle target k e, p.task = .attach handle target k →
      p.descriptors.install s.descriptorLimit handle target ≠ .error e)
    (hnamed : ∀ program arguments state, p.task = .run (.exec (program :: arguments)) →
      τ = .program state → named = some (program :: arguments)) :
    Story c L a m τ (es ++ s.deeds m p named τ) := by
  cases ht with
  | skips task =>
    rw [task] at h
    cases h
  | exits task =>
    rw [task] at h
    simp only [deeds, task, List.append_nil]
    obtain ⟨core, rfl⟩ := h.core_of_run_exec
    exact .ended (.empty core)
  | refuses task why =>
    rw [task] at h
    simp only [deeds, task]
    exact h.refuses why named
  | loads task free loaded =>
    rw [task] at h
    simp only [deeds, task]
    obtain rfl := hnamed _ _ _ task rfl
    exact h.loads free
  | unwraps task =>
    rw [task] at h
    simp only [deeds, task, List.append_nil]
    cases h with
    | run core redirections => exact .open_ core redirections
  | lacksPipe task =>
    rw [task] at h
    simp only [deeds, task, Task.complains, if_true]
    obtain ⟨core, rfl⟩ := h.core_of_run_pipe
    exact Failure.story (.pipeless core)
  | pipes task added =>
    rw [task] at h
    simp only [deeds, task, Task.complains]
    obtain ⟨core, rfl⟩ := h.core_of_run_pipe
    simpa using Story.forkLeft core
  | settles task =>
    rw [task] at h
    simp only [deeds, task, List.append_nil]
    exact h.settles
  | lacksFile task =>
    rw [task] at h
    simp only [deeds, task, Task.complains, if_true]
    exact h.lacksFile
  | opens task opened =>
    rw [task] at h
    simp only [deeds, task, Task.complains]
    cases h with
    | open_ core redirections => exact .install core redirections
  | misplaces task failed =>
    rw [task] at h
    simp only [deeds, task, Task.complains, if_true]
    exact h.misplaces
  | installs task installed =>
    rw [task] at h
    simp only [deeds, task, Task.complains]
    exact h.installs
  | closesWriting task =>
    rw [task] at h
    simp only [deeds, task, List.append_nil]
    cases h with
    | closeWriting core placed => exact .forkRight core placed
  | closesReading task =>
    rw [task] at h
    simp only [deeds, task, List.append_nil]
    cases h with
    | closeReading sides => exact .awaitLeft sides
  | leaves task =>
    rw [task] at h
    simp only [deeds, task, List.append_nil]
    cases h with
    | leaveReading part => exact .attach part
  | misattaches task failed => exact absurd failed (hattach _ _ _ _ task)
  | attaches task installed =>
    rw [task] at h
    simp only [deeds, task, List.append_nil]
    cases h with
    | attach part => exact .begins part
  | @complains piece pieces code n u task answer =>
    rw [task] at h
    simp only [deeds, task, telling, answer]
    exact h.prints n
  | hushes task how =>
    rw [task] at h
    simp only [deeds, task]
    exact h.hushes how
  | goesOn task | closes task | adds task =>
    rw [task] at h
    simp only [deeds, task, List.append_nil]
    cases h with
    | program core free => exact .program core free
  | ends task how =>
    rw [task] at h
    simp only [deeds, task]
    cases h with
    | program core free =>
      rw [List.append_assoc]
      exact .ended (.program core free how)

/-- A process makes that of the left side, which begins its own story. -/
theorem forkLeft_enter {reading writing : Nat} (q : Pid)
    (h : Story c L a m (.forkLeft reading writing left right) es) :
    Story c (L.enter q (.left :: a)) a m (.closeWriting reading writing q right) (es ++ [.forks q]) ∧
      Story c (L.enter q (.left :: a)) (.left :: a) m (.leaveReading reading writing left) [] := by
  cases h with
  | forkLeft core =>
    exact ⟨.closeWriting core (Function.update_self _ _ _),
      .leaveReading (Command.part?_cons_of_core? core .left)⟩

/-- A process makes that of the right side, which begins its own story. -/
theorem forkRight_enter {reading : Nat} (hq : L.place q = none)
    (h : Story c L a m (.forkRight reading l right) es) :
    Story c (L.enter q (.right :: a)) a m (.closeReading reading l q) (es ++ [.forks q]) ∧
      Story c (L.enter q (.right :: a)) (.right :: a) m (.attach reading 0 right) [] := by
  cases h with
  | forkRight core placed =>
    rw [List.append_assoc]
    exact ⟨.closeReading ⟨⟨_, _, core⟩, Layout.place_enter_of_place hq placed,
      Function.update_self _ _ _⟩, .attach (Command.part?_cons_of_core? core .right)⟩

/-- A process goes on after one that it has waited for. -/
theorem resumes (h : Story c L a m p.task es) (hr : Resumes D q e p.task τ D')
    (hq : s.work q = some (.ended e, D₁)) : Story c L a m τ (es ++ s.reaping q) := by
  rw [reaping_eq hq]
  generalize p.task = τ' at h hr
  cases hr with
  | line r => cases h
  | left right told =>
    cases h with
    | awaitLeft sides =>
      rw [List.append_assoc]
      exact .awaitRight sides told
  | losesLeft right err untold =>
    cases h with
    | awaitLeft sides =>
      rw [List.append_assoc]
      exact Failure.story (.losesLeft sides untold)
  | right status told =>
    cases h with
    | awaitRight sides heard =>
      rw [List.append_assoc]
      exact .ended (.pipe sides told heard)
  | losesRight err untold =>
    cases h with
    | awaitRight sides heard =>
      rw [List.append_assoc]
      exact Failure.story (.losesRight sides untold heard)

end Story

end LineShell
