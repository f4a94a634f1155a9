import LineShell.Proofs.Account

/-!
# A session keeps its account

`Session.Matches` : a session whose writer never fails has done what an account says. Every
line keeps that (`Matches.submit`).

`run_eq_foldl` : such a session ends well, and its account is the fold of `Account.turn`
over the lines of its input up to the first line `exit`. What is behind that line is not
read.
-/

namespace LineShell

/-! ## A session and its account -/

namespace Session

variable {ω : Type} {host : Host ω} {config : Config}

/-- A session whose writer never fails has done what an account says. -/
structure Matches (config : Config) (a : Account ω) (s : Session ω) : Prop where
  config_eq : s.config = config
  room : s.out.room = none
  written : s.out.written = a.out
  history : s.history.Holds a.recorded
  capacity : s.history.capacity = max config.historySize 1
  world : s.world = a.world

variable {a : Account ω} {s : Session ω}

/-- A dealing with the world is entered in the account. -/
theorem Matches.deal (h : Matches config a s) (host : Host ω) (ev : Event) :
    Matches config (a.deal host ev) { s with world := ev.apply host s.world } := by
  refine ⟨h.config_eq, h.room, h.written, h.history, h.capacity, ?_⟩
  simp [Account.deal, h.world]

/-- What `submit` makes of the answer `r` of a line : an error is reported. -/
def conclude (host : Host ω) (r : Except LineError Flow × Session ω) : Flow × Session ω :=
  match r with
  | (.ok flow, s) => (flow, s)
  | (.error e, s) => (.proceed, { s with world := host.report (complaint e.message) s.world })

theorem submit_eq (host : Host ω) (line : Text) (s : Session ω) :
    s.submit host line = conclude host (s.handle host line) := rfl

/-- A line that failed is reported once. -/
theorem Matches.conclude_error (h : Matches config a s) (host : Host ω) (e : LineError) :
    Matches config (a.report host e) (conclude host (.error e, s)).2 ∧
      (conclude host (.error e, s)).1 = .proceed :=
  ⟨h.deal host (.reported (complaint e.message)), rfl⟩

theorem Matches.changeDirectory (h : Matches config a s) (host : Host ω) (path : Text) :
    Matches config (a.change host path)
        (conclude host (s.changeDirectory host path)).2 ∧
      (conclude host (s.changeDirectory host path)).1 = .proceed := by
  have hm := h.deal host (.tried path)
  rw [Account.change, Session.changeDirectory, ← h.world]
  rcases hr : host.changeDirectory path s.world with ⟨e | ⟨⟩, w⟩
  · simp only [Event.apply, hr] at hm ⊢
    exact hm.conclude_error host _
  · simp only [Event.apply, hr] at hm ⊢
    exact ⟨hm, rfl⟩

theorem Matches.execute (h : Matches config a s) (host : Host ω) (line : Text) :
    Matches config
        (match parse config.maxArguments (Utf8.encode line) with
        | .error e => a.report host (.malformed e)
        | .ok c => a.execute host c)
        (conclude host (s.execute host line)).2 ∧
      (conclude host (s.execute host line)).1 = .proceed := by
  obtain rfl := h.config_eq
  rw [Session.execute]
  rcases parse s.config.maxArguments (Utf8.encode line) with e | c
  · exact h.conclude_error host _
  have hm := h.deal host (.executed c)
  simp only [Account.execute, ← h.world]
  rcases hr : host.execute c s.world with ⟨e | status, w⟩
  · simp only [Event.apply, hr] at hm ⊢
    exact hm.conclude_error host _
  · simp only [Event.apply, hr] at hm ⊢
    exact ⟨hm, rfl⟩

/-- The listing is written whole. -/
theorem Matches.list (h : Matches config a s) (host : Host ω) :
    Matches config { a with out := a.out ++ Account.listing config a.recorded }
        (conclude host s.list).2 ∧
      (conclude host s.list).1 = .proceed := by
  have hw := Sink.writeAll_of_room_none s.history.pieces s.out h.room
  have heq : s.list =
      (.ok .proceed, { s with
        out := { s.out with written := s.out.written ++ s.history.pieces.flatten } }) := by
    simp [Session.list, hw]
  have hpieces : s.history.pieces.flatten = Account.listing config a.recorded := by
    rw [History.pieces, h.history.entries_eq, h.capacity, Account.listing, List.flatMap_def,
      List.flatten_flatten, List.map_map, ← List.flatMap_def]
    rfl
  rw [heq, hpieces]
  refine ⟨⟨h.config_eq, h.room, ?_, h.history, h.capacity, h.world⟩, rfl⟩
  simp [conclude, h.written]

/-- A line does to a session what it does to the account. -/
theorem Matches.submit (h : Matches config a s) (host : Host ω) (line : Text) :
    Matches config (a.step host config line) (s.submit host line).2 ∧
      ((s.submit host line).1 = .exit ↔ line = exitLine) := by
  rw [submit_eq, handle, directoryOfLine?_eq, Account.step]
  have proceed_ne : (Flow.proceed = .exit) = False := by simp
  cases ht : targetOf? line with
  | some path =>
    obtain ⟨hm, hf⟩ := h.changeDirectory host path
    refine ⟨hm, ?_⟩
    simp only [hf, proceed_ne, false_iff]
    rintro rfl
    rw [targetOf?_exitLine] at ht
    cases ht
  | none =>
    have hr : Matches config { a with recorded := a.recorded ++ [line] }
        { s with history := s.history.append line } :=
      ⟨h.config_eq, h.room, h.written, h.history.append line, h.capacity, h.world⟩
    rw [ofLine?_eq]
    by_cases hh : line = historyLine
    · obtain ⟨hm, hf⟩ := hr.list host
      simp only [hh, if_true] at hm hf ⊢
      refine ⟨hm, ?_⟩
      simp only [hf, proceed_ne, false_iff]
      decide
    by_cases he : line = exitLine
    · simp only [if_neg hh, if_pos he]
      exact ⟨hr, by simp [conclude, he]⟩
    · obtain ⟨hm, hf⟩ := hr.execute host line
      simp only [if_neg hh, if_neg he]
      exact ⟨hm, by simp [hf, he]⟩

/-- The prompt is written whole. -/
theorem Matches.showPrompt (h : Matches config a s) (interactive : Bool) :
    (s.showPrompt interactive).1 = .ok () ∧
      Matches config { a with out := a.out ++ Account.promptOf config interactive }
        (s.showPrompt interactive).2 := by
  cases interactive with
  | false =>
    refine ⟨rfl, ?_⟩
    simpa [Session.showPrompt, Account.promptOf] using h
  | true =>
    have hw : s.out.write (Utf8.encode s.config.prompt) =
        (.ok (), { s.out with written := s.out.written ++ Utf8.encode s.config.prompt }) := by
      simp [Sink.write, h.room]
    simp only [Session.showPrompt, hw, if_true, true_and]
    refine ⟨h.config_eq, h.room, ?_, h.history, h.capacity, h.world⟩
    simp [Account.promptOf, h.written, h.config_eq]

/-! ## A whole run -/

/-- The account of a run : a turn for every line up to the first that ends the session, and
a last prompt if there is none. -/
def accountOf (host : Host ω) (config : Config) (interactive : Bool) (lines : List Text)
    (a : Account ω) : Account ω :=
  let b := (untilExit lines).foldl (Account.turn host config interactive) a
  if exitLine ∈ lines then b else { b with out := b.out ++ Account.promptOf config interactive }

/-- A run from any state that an account matches. -/
theorem Matches.run (host : Host ω) (interactive : Bool) (input : Bytes) (a : Account ω)
    (s : Session ω) (h : Matches config a s) :
    (s.run host interactive input).result = .ok () ∧
      Matches config (accountOf host config interactive (readLines config.lineMax input) a)
        (s.run host interactive input).session ∧
      readLines config.lineMax input = untilExit (readLines config.lineMax input) ++
        readLines config.lineMax (s.run host interactive input).rest := by
  fun_induction Session.run host interactive input s generalizing a with
  | case1 input s e s' hp =>
    have hok := (h.showPrompt interactive).1
    rw [hp] at hok
    cases hok
  | case2 input s s' hp hr =>
    have hm := (h.showPrompt interactive).2
    rw [hp] at hm
    rw [hm.config_eq] at hr
    rw [readLines_of_none hr]
    exact ⟨rfl, hm, rfl⟩
  | case3 input s s' hp line rest hr s'' hs =>
    have hm := (h.showPrompt interactive).2
    rw [hp] at hm
    have hstep := hm.submit host line
    rw [hs] at hstep
    obtain rfl : line = exitLine := hstep.2.mp rfl
    rw [hm.config_eq] at hr
    rw [readLines_of_some hr]
    have haccount :
        accountOf host config interactive (exitLine :: readLines config.lineMax rest) a =
        a.turn host config interactive exitLine := by
      simp [accountOf, untilExit]
    rw [haccount]
    exact ⟨rfl, hstep.1, by simp [untilExit]⟩
  | case4 input s s' hp line rest hr s'' hs ih =>
    have hm := (h.showPrompt interactive).2
    rw [hp] at hm
    have hstep := hm.submit host line
    rw [hs] at hstep
    have hne : line ≠ exitLine := by
      intro he
      have := hstep.2.mpr he
      cases this
    rw [hm.config_eq] at hr
    obtain ⟨hresult, hmatch, hlines⟩ := ih _ hstep.1
    have haccount : accountOf host config interactive (line :: readLines config.lineMax rest) a =
        accountOf host config interactive (readLines config.lineMax rest)
          (a.turn host config interactive line) := by
      simp [accountOf, untilExit, hne, Ne.symm hne]
    rw [readLines_of_some hr, haccount, untilExit, if_neg hne]
    refine ⟨hresult, hmatch, ?_⟩
    rw [List.cons_append, ← hlines]

theorem eq_of_start? {world : ω} (h : start? config world = some s) :
    s = { config := config, history := History.empty config.historySize, world := world } := by
  obtain ⟨history, hr, rfl⟩ := Option.map_eq_some_iff.mp h
  rw [History.eq_empty_of_reserve? hr]

/-- A world with one directory to change to, in which no process can be made. -/
def narrowHost : Host Text where
  changeDirectory path w := if path = ['b'] then (.ok (), path) else (.error .zeroInName, w)
  execute _ w := (.error (.fork ⟨11⟩), w)
  report _ w := w

end Session

end LineShell
