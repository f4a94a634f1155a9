import LineShell.Proofs.Field
import LineShell.Proofs.History
import LineShell.Session

/-!
# What a session does, said without its state

An `Account` says what a session has done : the lines it has recorded, what it has
written, and its dealings with the world, each an `Event`. `Account.step` is the account
after one more line.

`Account.step_handled` : a line is recorded unless it changes the directory, and is dealt
with at most once. It is reported if it failed, and only then. `Account.Replays` : the world
of an account is the first one with the dealings done to it in order.
-/

namespace LineShell

/-! ## The lines of the shell itself -/

/-- The directory named by a line that begins with `cd` and a space. -/
def targetOf? (line : Text) : Option Text :=
  if "cd ".toList.isPrefixOf line then some (Text.trim (line.drop 3)) else none

theorem directoryOfLine?_eq (line : Text) : directoryOfLine? line = targetOf? line := by
  unfold directoryOfLine?
  split
  · rename_i rest
    rw [Text.trim, Text.trimWhile_dropEndWhile]
    · simp [targetOf?, Text.trim]
    · intro c hc
      obtain rfl : c = '\n' := by simpa using hc
      rfl
  · rename_i hno
    rw [targetOf?, if_neg]
    intro hp
    obtain ⟨rest, rfl⟩ := List.isPrefixOf_iff_prefix.mp hp
    exact hno rest rfl

/-- The line that lists the history. -/
def historyLine : Text := "history\n".toList

/-- The line that ends a session. -/
def exitLine : Text := "exit\n".toList

theorem ofLine?_eq (line : Text) :
    Builtin.ofLine? line =
      if line = historyLine then some .history
      else if line = exitLine then some .exit else none := by
  have hhistory : Builtin.history.line = historyLine := rfl
  have hexit : Builtin.exit.line = exitLine := rfl
  simp only [Builtin.ofLine?, List.find?_cons, List.find?_nil, hhistory, hexit, eq_comm (b := line)]
  have hne : exitLine ≠ historyLine := by decide
  by_cases hh : line = historyLine <;> by_cases he : line = exitLine <;> simp [hh, he, hne]

@[simp]
theorem targetOf?_exitLine : targetOf? exitLine = none := rfl

/-! ## What is done to the world -/

/-- A dealing of a session with the world. -/
inductive Event where
  /-- It tried to change to a directory. -/
  | tried (directory : Text)
  /-- It had a command executed. -/
  | executed (c : Command)
  /-- It reported something. -/
  | reported (message : Bytes)
deriving DecidableEq, Repr

/-- The world after a dealing. -/
def Event.apply {ω : Type} (host : Host ω) (w : ω) : Event → ω
  | .tried directory => (host.changeDirectory directory w).2
  | .executed c => (host.execute c w).2
  | .reported message => host.report message w

/-- The directory that was tried. -/
def Event.directory? : Event → Option Text
  | .tried directory => some directory
  | _ => none

/-- What a session has done. -/
structure Account (ω : Type) where
  /-- The lines it has recorded. -/
  recorded : List Text := []
  /-- What it has written. -/
  out : Bytes := []
  /-- Its dealings with the world, in order. -/
  log : List Event := []
  world : ω

namespace Account

variable {ω : Type}

/-- The listing of the recorded lines that a history still has. -/
def listing (config : Config) (lines : List Text) : Bytes :=
  (History.lastOf (max config.historySize 1) lines).flatMap fun e => e.pieces.flatten

/-- What is shown before a line is read. -/
def promptOf (config : Config) (interactive : Bool) : Bytes :=
  if interactive then Utf8.encode config.prompt else []

/-- The account after one more dealing. -/
def deal (host : Host ω) (ev : Event) (a : Account ω) : Account ω :=
  { a with log := a.log ++ [ev], world := ev.apply host a.world }

/-- The account after a report of a line that failed. -/
def report (host : Host ω) (e : LineError) (a : Account ω) : Account ω :=
  a.deal host (.reported (complaint e.message))

/-- The account after an attempt to change to a directory. -/
def change (host : Host ω) (path : Text) (a : Account ω) : Account ω :=
  match (host.changeDirectory path a.world).1 with
  | .ok () => a.deal host (.tried path)
  | .error e => (a.deal host (.tried path)).report host (.changeDirectory path e)

/-- The account after a command was executed. -/
def execute (host : Host ω) (c : Command) (a : Account ω) : Account ω :=
  match (host.execute c a.world).1 with
  | .ok _ => a.deal host (.executed c)
  | .error e => (a.deal host (.executed c)).report host (.exec e)

/-- The account after a line. -/
def step (host : Host ω) (config : Config) (line : Text) (a : Account ω) : Account ω :=
  match targetOf? line with
  | some path => a.change host path
  | none =>
    let b := { a with recorded := a.recorded ++ [line] }
    if line = historyLine then { b with out := b.out ++ listing config b.recorded }
    else if line = exitLine then b
    else match parse config.maxArguments (Utf8.encode line) with
      | .error e => b.report host (.malformed e)
      | .ok c => b.execute host c

/-- The account after a prompt and a line. -/
def turn (host : Host ω) (config : Config) (interactive : Bool) (a : Account ω) (line : Text) :
    Account ω :=
  { a with out := a.out ++ promptOf config interactive }.step host config line

/-! ## What a line does to an account -/

/-- The command that a line has executed. -/
def commandOf? (config : Config) (line : Text) : Option Command :=
  if targetOf? line = none ∧ line ≠ historyLine ∧ line ≠ exitLine then
    (parse config.maxArguments (Utf8.encode line)).toOption
  else none

/-- What a line tries to do to the world. -/
def attempt? (config : Config) (line : Text) : Option Event :=
  ((targetOf? line).map .tried).or ((commandOf? config line).map .executed)

/-- Why a line fails in a world. -/
def failure? (host : Host ω) (config : Config) (line : Text) (w : ω) : Option LineError :=
  match targetOf? line with
  | some path =>
    match (host.changeDirectory path w).1 with
    | .ok () => none
    | .error e => some (.changeDirectory path e)
  | none =>
    if line = historyLine ∨ line = exitLine then none
    else match parse config.maxArguments (Utf8.encode line) with
      | .error e => some (.malformed e)
      | .ok c =>
        match (host.execute c w).1 with
        | .ok _ => none
        | .error e => some (.exec e)

/-- The dealings that a line has with a world : an attempt, and a report if the line fails. -/
def dealings (host : Host ω) (config : Config) (line : Text) (w : ω) : List Event :=
  (attempt? config line).toList ++
    (failure? host config line w).toList.map fun e => .reported (complaint e.message)

variable {host : Host ω} {config : Config} {line : Text}

/-- What a line makes of the account `a`. -/
structure Handled (host : Host ω) (config : Config) (line : Text) (a b : Account ω) : Prop where
  /-- The line is recorded once, unless it changes the directory. -/
  recorded : b.recorded = a.recorded ++ if targetOf? line = none then [line] else []
  /-- Nothing is written but the listing that was asked for. -/
  out : b.out = a.out ++ if line = historyLine then listing config b.recorded else []
  log : b.log = a.log ++ dealings host config line a.world
  world : b.world = (dealings host config line a.world).foldl (Event.apply host) a.world

@[simp]
theorem targetOf?_historyLine : targetOf? historyLine = none := rfl

theorem ne_historyLine_of_targetOf? {path : Text} (h : targetOf? line = some path) :
    line ≠ historyLine := by
  rintro rfl
  rw [targetOf?_historyLine] at h
  cases h

/-- A line that changes the directory does nothing else. -/
theorem change_handled (host : Host ω) (config : Config) {path : Text} (a : Account ω)
    (h : targetOf? line = some path) : Handled host config line a (a.change host path) := by
  have hattempt : attempt? config line = some (.tried path) := by simp [attempt?, h]
  have hne := ne_historyLine_of_targetOf? h
  rcases hr : (host.changeDirectory path a.world).1 with e | ⟨⟩
  · have hd : dealings host config line a.world =
        [.tried path, .reported (complaint (LineError.changeDirectory path e).message)] := by
      simp [dealings, hattempt, failure?, h, hr]
    have hb : a.change host path =
        (a.deal host (.tried path)).report host (.changeDirectory path e) := by
      simp [change, hr]
    rw [hb]
    exact ⟨by simp [h, report, deal], by simp [hne, report, deal], by simp [hd, report, deal],
      by rw [hd]; rfl⟩
  · have hd : dealings host config line a.world = [.tried path] := by
      simp [dealings, hattempt, failure?, h, hr]
    have hb : a.change host path = a.deal host (.tried path) := by simp [change, hr]
    rw [hb]
    exact ⟨by simp [h, deal], by simp [hne, deal], by simp [hd, deal], by rw [hd]; rfl⟩

/-- A line of another kind is recorded, then executed if it can be read. -/
theorem execute_handled (host : Host ω) (config : Config) (a : Account ω)
    (ht : targetOf? line = none) (hh : line ≠ historyLine) (he : line ≠ exitLine) :
    Handled host config line a
      (match parse config.maxArguments (Utf8.encode line) with
      | .error e => Account.report host (.malformed e) { a with recorded := a.recorded ++ [line] }
      | .ok c => Account.execute host c { a with recorded := a.recorded ++ [line] }) := by
  rcases hp : parse config.maxArguments (Utf8.encode line) with e | c
  · have hd : dealings host config line a.world =
        [.reported (complaint (LineError.malformed e).message)] := by
      simp [dealings, attempt?, commandOf?, failure?, ht, hh, he, hp, Except.toOption]
    exact ⟨by simp [ht, report, deal], by simp [hh, report, deal], by simp [hd, report, deal],
      by rw [hd]; rfl⟩
  have hattempt : attempt? config line = some (.executed c) := by
    simp [attempt?, commandOf?, ht, hh, he, hp, Except.toOption]
  rcases hr : (host.execute c a.world).1 with e | status
  · have hd : dealings host config line a.world =
        [.executed c, .reported (complaint (LineError.exec e).message)] := by
      simp [dealings, hattempt, failure?, ht, hh, he, hp, hr]
    simp only [execute, hr]
    exact ⟨by simp [ht, report, deal], by simp [hh, report, deal], by simp [hd, report, deal],
      by rw [hd]; rfl⟩
  · have hd : dealings host config line a.world = [.executed c] := by
      simp [dealings, hattempt, failure?, ht, hh, he, hp, hr]
    simp only [execute, hr]
    exact ⟨by simp [ht, deal], by simp [hh, deal], by simp [hd, deal], by rw [hd]; rfl⟩

/-- What a line does : it is recorded unless it changes the directory, and dealt with at
most once. It is reported once if it failed, and not otherwise. -/
theorem step_handled (host : Host ω) (config : Config) (line : Text) (a : Account ω) :
    Handled host config line a (a.step host config line) := by
  rw [step]
  cases ht : targetOf? line with
  | some path => exact change_handled host config a ht
  | none =>
    by_cases hh : line = historyLine
    · have hd : dealings host config line a.world = [] := by
        simp [dealings, attempt?, commandOf?, failure?, hh]
      simp only [if_pos hh]
      exact ⟨by simp [ht], by simp [hh], by simp [hd], by rw [hd]; rfl⟩
    by_cases he : line = exitLine
    · have hd : dealings host config line a.world = [] := by
        simp [dealings, attempt?, commandOf?, failure?, he]
      simp only [if_neg hh, if_pos he]
      exact ⟨by simp [ht], by simp [hh], by simp [hd], by rw [hd]; rfl⟩
    · simp only [if_neg hh, if_neg he]
      exact execute_handled host config a ht hh he

end Account

namespace Account

variable {ω δ : Type} {host : Host ω} {config : Config} {line : Text} {directory : ω → δ}

/-- The world of an account is the first one with the dealings done to it in order. -/
def Replays (host : Host ω) (w : ω) (a : Account ω) : Prop :=
  a.world = a.log.foldl (Event.apply host) w

theorem Replays.step {w : ω} {a : Account ω} (h : Replays host w a) (config : Config)
    (line : Text) : Replays host w (a.step host config line) := by
  have hs := step_handled host config line a
  rw [Replays, hs.world, hs.log, List.foldl_append, ← h]

end Account

/-- The lines of an input up to the first that ends the session. -/
def untilExit : List Text → List Text
  | [] => []
  | line :: lines => if line = exitLine then [line] else line :: untilExit lines

end LineShell
