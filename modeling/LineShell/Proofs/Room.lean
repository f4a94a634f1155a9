import LineShell.Proofs.Session
import Mathlib.Data.List.TakeDrop

/-!
# Two sessions, one with room for so many bytes

`Keeps N u l` : the session `l` is where `u` is, but of what `u` has written it has kept the
first `N` bytes only, and it may have reported more. A prompt and a line keep that, whether
the writes of `l` fit or not (`Keeps.turn`), since nothing that a session does depends on
what it has written. The run of a session is the fold of its turns, up to the first prompt
that cannot be written (`exists_ran`).

`run_within` puts both together : what the run with little room writes, records, executes
and reads is the beginning of what the other does.
-/

namespace LineShell

/-! ## Writing with little room -/

namespace Sink

variable {N : Nat} {u l : Sink}

/-- The sink `u` takes everything, and `l` has kept the first `N` bytes of it. -/
structure Keeps (N : Nat) (u l : Sink) : Prop where
  room_whole : u.room = none
  room : l.room = some (N - u.written.length)
  written : l.written = u.written.take N

theorem keeps_empty (N : Nat) : Keeps N {} { room := some N } := ⟨rfl, rfl, by simp⟩

/-- A write keeps that, and fails where it goes beyond the room. -/
theorem Keeps.write (h : Keeps N u l) (data : Bytes) :
    Keeps N { u with written := u.written ++ data } (l.write data).2 ∧
      (l.write data).1 =
        if data.length ≤ N - u.written.length then .ok () else .error .writeCutShort := by
  simp only [Sink.write, h.room, and_true]
  refine ⟨h.room_whole, ?_, ?_⟩
  · simp only [List.length_append, Option.some.injEq]
    omega
  · rw [h.written, List.take_append]

/-- A sink without room keeps the first bytes, whatever more is written. -/
theorem Keeps.more (h : Keeps N u l) (hN : N ≤ u.written.length) (data : Bytes) :
    Keeps N { u with written := u.written ++ data } l := by
  refine ⟨h.room_whole, ?_, ?_⟩
  · rw [h.room, List.length_append, Option.some.injEq]
    omega
  · rw [h.written, List.take_append_of_le_length hN]

/-- Pieces are written as one, up to the first that does not fit. -/
theorem Keeps.writeAll (h : Keeps N u l) (pieces : List Bytes) :
    Keeps N { u with written := u.written ++ pieces.flatten } (l.writeAll pieces).2 ∧
      (l.writeAll pieces).1 =
        if pieces.flatten.length ≤ N - u.written.length then .ok () else .error .writeCutShort := by
  induction pieces generalizing u l with
  | nil => simpa [Sink.writeAll] using h
  | cons piece pieces ih =>
    obtain ⟨hk, hr⟩ := h.write piece
    rw [Sink.writeAll, List.flatten_cons, List.length_append]
    rcases hw : l.write piece with ⟨e | ⟨⟩, l'⟩ <;> rw [hw] at hk hr
    · have hlong : ¬piece.length ≤ N - u.written.length := fun hle => by
        rw [if_pos hle] at hr
        cases hr
      rw [if_neg hlong] at hr
      cases hr
      have hN : N ≤ (u.written ++ piece).length := by rw [List.length_append]; omega
      rw [if_neg (by omega)]
      exact ⟨by simpa using hk.more hN pieces.flatten, rfl⟩
    · have hshort : piece.length ≤ N - u.written.length := by
        by_contra hlong
        rw [if_neg hlong] at hr
        cases hr
      obtain ⟨hk', hr'⟩ := ih hk
      refine ⟨by simpa using hk', ?_⟩
      simp only [List.length_append] at hr'
      rw [hr']
      congr 1
      simp only [eq_iff_iff]
      omega

theorem prefix_written_write (s : Sink) (data : Bytes) : s.written <+: (s.write data).2.written := by
  unfold Sink.write
  split <;> exact List.prefix_append _ _

theorem prefix_written_writeAll (s : Sink) (pieces : List Bytes) :
    s.written <+: (s.writeAll pieces).2.written := by
  induction pieces generalizing s with
  | nil => exact List.prefix_refl _
  | cons piece pieces ih =>
    have hw := prefix_written_write s piece
    rw [Sink.writeAll]
    rcases hr : s.write piece with ⟨e | ⟨⟩, s'⟩ <;> rw [hr] at hw
    · exact hw
    · exact hw.trans (ih s')

end Sink

/-! ## What the world hears -/

/-- The report of a listing that was cut short. -/
def shortage : Bytes := complaint (LineError.io .writeCutShort).message

variable {ω : Type}

/-- The world `w` has been dealt with as `v` has, but may have heard of more writes that were
cut short. -/
structure Hears (v w : Recorder × ω) : Prop where
  answers : w.1.answers = v.1.answers
  commands : w.1.commands = v.1.commands
  directory : w.2 = v.2
  reports : v.1.reports.Sublist w.1.reports
  /-- All that was reported besides is the same. -/
  others : w.1.reports.filter (· ≠ shortage) = v.1.reports.filter (· ≠ shortage)

namespace Hears

variable {v w : Recorder × ω}

theorem refl (v : Recorder × ω) : Hears v v := ⟨rfl, rfl, rfl, List.Sublist.refl _, rfl⟩

theorem report (h : Hears v w) (host : Host ω) (message : Bytes) :
    Hears (host.recording.report message v) (host.recording.report message w) := by
  refine ⟨h.answers, h.commands, h.directory, h.reports.append (List.Sublist.refl _), ?_⟩
  simp only [Host.recording, Recorder.report, List.filter_append, h.others]

theorem shortage (h : Hears v w) (host : Host ω) :
    Hears v (host.recording.report LineShell.shortage w) := by
  refine ⟨h.answers, h.commands, h.directory, h.reports.trans (List.sublist_append_left _ _), ?_⟩
  have hnone : [LineShell.shortage].filter (· ≠ LineShell.shortage) = [] := by simp
  simp only [Host.recording, Recorder.report, List.filter_append, hnone, List.append_nil, h.others]

theorem changeDirectory (h : Hears v w) (host : Host ω) (path : Text) :
    (host.recording.changeDirectory path w).1 = (host.recording.changeDirectory path v).1 ∧
      Hears (host.recording.changeDirectory path v).2 (host.recording.changeDirectory path w).2 := by
  simp only [Host.recording, h.directory, true_and]
  exact ⟨h.answers, h.commands, rfl, h.reports, h.others⟩

theorem execute (h : Hears v w) (host : Host ω) (c : Command) :
    (host.recording.execute c w).1 = (host.recording.execute c v).1 ∧
      Hears (host.recording.execute c v).2 (host.recording.execute c w).2 := by
  have ha := h.answers
  have hc := h.commands
  simp only [Host.recording, Recorder.execute, ha]
  cases v.1.answers with
  | nil => exact ⟨rfl, rfl, by simp [hc], h.directory, h.reports, h.others⟩
  | cons a rest => exact ⟨rfl, rfl, by simp [hc], h.directory, h.reports, h.others⟩

end Hears

namespace Session

variable {host : Host ω} {N : Nat} {u l : Session (Recorder × ω)}

/-! ## One line -/

/-- The session `l` is where `u` is, with room for `N` bytes in all. -/
structure Keeps (N : Nat) (u l : Session (Recorder × ω)) : Prop where
  config : l.config = u.config
  history : l.history = u.history
  world : Hears u.world l.world
  out : u.out.Keeps N l.out

/-- A report of the same failure keeps that. -/
theorem Keeps.conclude {r r' : Except LineError Flow × Session (Recorder × ω)} (h : r'.1 = r.1)
    (hk : Keeps N r.2 r'.2) :
    Keeps N (conclude host.recording r).2 (conclude host.recording r').2 := by
  obtain ⟨r, u⟩ := r
  obtain ⟨r', l⟩ := r'
  obtain rfl : r' = r := h
  cases r' with
  | error e => exact ⟨hk.config, hk.history, hk.world.report host _, hk.out⟩
  | ok flow => exact hk

theorem Keeps.showPrompt (h : Keeps N u l) (interactive : Bool) :
    Keeps N (u.showPrompt interactive).2 (l.showPrompt interactive).2 ∧
      (l.showPrompt interactive).1 =
        if (Account.promptOf u.config interactive).length ≤ N - u.out.written.length then .ok ()
        else .error .writeCutShort := by
  cases interactive with
  | false => exact ⟨h, by simp [Session.showPrompt, Account.promptOf]⟩
  | true =>
    obtain ⟨hk, hr⟩ := h.out.write (Utf8.encode u.config.prompt)
    have hu : u.out.write (Utf8.encode u.config.prompt) =
        (.ok (), { u.out with written := u.out.written ++ Utf8.encode u.config.prompt }) := by
      simp [Sink.write, h.out.room_whole]
    simp only [Session.showPrompt, Account.promptOf, if_true, h.config, hu]
    exact ⟨⟨rfl, h.history, h.world, hk⟩, hr⟩

/-- The listing of the history fits, or is cut short. -/
theorem Keeps.list (h : Keeps N u l) :
    Keeps N u.list.2 l.list.2 ∧ u.list.1 = .ok .proceed ∧
      l.list.1 = if u.history.listing.length ≤ N - u.out.written.length then .ok .proceed
        else .error (.io .writeCutShort) := by
  obtain ⟨hk, hr⟩ := h.out.writeAll u.history.pieces
  have hu := Sink.writeAll_of_room_none u.history.pieces u.out h.out.room_whole
  rw [Session.list, Session.list, h.history, hu]
  rcases hw : l.out.writeAll u.history.pieces with ⟨e | ⟨⟩, out⟩ <;> rw [hw] at hk hr <;>
    refine ⟨⟨h.config, rfl, h.world, hk⟩, rfl, ?_⟩ <;>
    · simp only [History.listing] at hr ⊢
      split at hr <;> simp_all

theorem Keeps.changeDirectory (h : Keeps N u l) (host : Host ω) (path : Text) :
    (l.changeDirectory host.recording path).1 = (u.changeDirectory host.recording path).1 ∧
      Keeps N (u.changeDirectory host.recording path).2 (l.changeDirectory host.recording path).2 := by
  obtain ⟨hr, hw⟩ := h.world.changeDirectory host path
  rw [Session.changeDirectory, Session.changeDirectory]
  rcases hu : host.recording.changeDirectory path u.world with ⟨r, v⟩
  rcases hl : host.recording.changeDirectory path l.world with ⟨r', w⟩
  rw [hu, hl] at hr hw
  obtain rfl : r' = r := hr
  cases r' <;> exact ⟨rfl, h.config, h.history, hw, h.out⟩

theorem Keeps.execute (h : Keeps N u l) (host : Host ω) (line : Text) :
    (l.execute host.recording line).1 = (u.execute host.recording line).1 ∧
      Keeps N (u.execute host.recording line).2 (l.execute host.recording line).2 := by
  rw [Session.execute, Session.execute, h.config]
  rcases parse u.config.maxArguments (Utf8.encode line) with e | c
  · exact ⟨rfl, h⟩
  obtain ⟨hr, hw⟩ := h.world.execute host c
  rcases hu : host.recording.execute c u.world with ⟨r, v⟩
  rcases hl : host.recording.execute c l.world with ⟨r', w⟩
  rw [hu, hl] at hr hw
  obtain rfl : r' = r := hr
  cases r' <;> simp only [hu, hl] <;>
    exact ⟨trivial, rfl, h.history, hw, h.out⟩

theorem handle_historyLine {σ : Type} (host : Host σ) (s : Session σ) :
    s.handle host historyLine = Session.list { s with history := s.history.append historyLine } :=
  rfl

/-- A line that lists nothing comes to the same in both sessions. -/
theorem Keeps.handle (h : Keeps N u l) (host : Host ω) {line : Text} (hh : line ≠ historyLine) :
    (l.handle host.recording line).1 = (u.handle host.recording line).1 ∧
      Keeps N (u.handle host.recording line).2 (l.handle host.recording line).2 := by
  have hr : Keeps N { u with history := u.history.append line }
      { l with history := l.history.append line } :=
    ⟨h.config, by rw [h.history], h.world, h.out⟩
  rw [Session.handle, Session.handle, directoryOfLine?_eq, ofLine?_eq, if_neg hh]
  cases targetOf? line with
  | some path => exact h.changeDirectory host path
  | none =>
    by_cases he : line = exitLine
    · simp only [if_pos he]
      exact ⟨trivial, hr⟩
    · simp only [if_neg he]
      exact hr.execute host line

/-- A line comes to the same in both sessions, but for a listing that does not fit. -/
theorem Keeps.submit (h : Keeps N u l) (host : Host ω) (line : Text) :
    Keeps N (u.submit host.recording line).2 (l.submit host.recording line).2 ∧
      (l.handle host.recording line).1 =
        if line = historyLine ∧
            N - u.out.written.length < (u.history.append line).listing.length then
          .error (.io .writeCutShort)
        else (u.handle host.recording line).1 := by
  rw [submit_eq, submit_eq]
  by_cases hh : line = historyLine
  · subst hh
    have hr : Keeps N { u with history := u.history.append historyLine }
        { l with history := l.history.append historyLine } :=
      ⟨h.config, by rw [h.history], h.world, h.out⟩
    obtain ⟨hk, hu, hl⟩ := hr.list
    rw [handle_historyLine, handle_historyLine]
    by_cases hfits : (u.history.append historyLine).listing.length ≤ N - u.out.written.length
    · rw [if_pos hfits] at hl
      refine ⟨hk.conclude (hl.trans hu.symm), ?_⟩
      rw [if_neg (by omega), hl, hu]
    · rw [if_neg hfits] at hl
      refine ⟨?_, by rw [if_pos ⟨rfl, by omega⟩, hl]⟩
      rcases hlist : Session.list { l with history := l.history.append historyLine } with ⟨r, l'⟩
      rcases hlist' : Session.list { u with history := u.history.append historyLine } with ⟨r', u'⟩
      rw [hlist, hlist'] at hk
      rw [hlist] at hl
      rw [hlist'] at hu
      obtain rfl : r = .error (.io .writeCutShort) := hl
      obtain rfl : r' = .ok .proceed := hu
      exact ⟨hk.config, hk.history, hk.world.shortage host, hk.out⟩
  · obtain ⟨hsame, hk⟩ := h.handle host hh
    exact ⟨Keeps.conclude hsame hk, by simp [hh, hsame]⟩

/-! ## The turns of a run -/

/-- The session after a prompt and a line. -/
def turn {σ : Type} (host : Host σ) (interactive : Bool) (s : Session σ) (line : Text) : Session σ :=
  ((s.showPrompt interactive).2.submit host line).2

theorem Keeps.turn (h : Keeps N u l) (host : Host ω) (interactive : Bool) (line : Text) :
    Keeps N (u.turn host.recording interactive line) (l.turn host.recording interactive line) :=
  ((h.showPrompt interactive).1.submit host line).1

theorem Keeps.foldl_turn (h : Keeps N u l) (host : Host ω) (interactive : Bool)
    (lines : List Text) :
    Keeps N (lines.foldl (Session.turn host.recording interactive) u)
      (lines.foldl (Session.turn host.recording interactive) l) := by
  induction lines generalizing u l with
  | nil => exact h
  | cons line lines ih => exact ih (h.turn host interactive line)

section Run

variable {σ : Type} {host : Host σ} {interactive : Bool} {s s' : Session σ}

@[simp]
theorem config_showPrompt (s : Session σ) (interactive : Bool) :
    (s.showPrompt interactive).2.config = s.config := by
  cases interactive <;> rfl

@[simp]
theorem history_showPrompt (s : Session σ) (interactive : Bool) :
    (s.showPrompt interactive).2.history = s.history := by
  cases interactive <;> rfl

@[simp]
theorem world_showPrompt (s : Session σ) (interactive : Bool) :
    (s.showPrompt interactive).2.world = s.world := by
  cases interactive <;> rfl

/-- What a line changes of a session besides its world. -/
structure Submitted (line : Text) (s s' : Session σ) : Prop where
  config : s'.config = s.config
  history : s'.history = if (targetOf? line).isNone then s.history.append line else s.history
  written : s.out.written <+: s'.out.written

theorem Submitted.conclude {line : Text} {r : Except LineError Flow × Session σ}
    (h : Submitted line s r.2) : Submitted line s (conclude host r).2 := by
  obtain ⟨e | flow, s'⟩ := r
  · exact ⟨h.config, h.history, h.written⟩
  · exact h

theorem conclude_eq_exit_iff (r : Except LineError Flow × Session σ) :
    (conclude host r).1 = .exit ↔ r.1 = .ok .exit := by
  obtain ⟨e | flow, s'⟩ := r <;> simp [conclude]

theorem changeDirectory_submitted (host : Host σ) (s : Session σ) {line path : Text}
    (h : targetOf? line = some path) :
    Submitted line s (s.changeDirectory host path).2 ∧
      (s.changeDirectory host path).1 ≠ .ok .exit := by
  rw [Session.changeDirectory]
  split <;> exact ⟨⟨rfl, by simp [h], List.prefix_refl _⟩, by simp⟩

theorem list_submitted (s : Session σ) :
    s.list.2.config = s.config ∧ s.list.2.history = s.history ∧
      s.out.written <+: s.list.2.out.written ∧ s.list.1 ≠ .ok .exit := by
  have hw := s.out.prefix_written_writeAll s.history.pieces
  rw [Session.list]
  split <;> rename_i heq <;> rw [heq] at hw <;> exact ⟨rfl, rfl, hw, by simp⟩

theorem execute_submitted (host : Host σ) (line : Text) (s : Session σ) :
    (s.execute host line).2.config = s.config ∧ (s.execute host line).2.history = s.history ∧
      (s.execute host line).2.out = s.out ∧ (s.execute host line).1 ≠ .ok .exit := by
  rw [Session.execute]
  split
  · simp
  · split <;> simp

theorem handle_submitted (host : Host σ) (line : Text) (s : Session σ) :
    Submitted line s (s.handle host line).2 ∧
      ((s.handle host line).1 = .ok .exit ↔ line = exitLine) := by
  rw [Session.handle, directoryOfLine?_eq, ofLine?_eq]
  cases ht : targetOf? line with
  | some path =>
    obtain ⟨hs, hne⟩ := changeDirectory_submitted host s ht
    have hline : line ≠ exitLine := by rintro rfl; rw [targetOf?_exitLine] at ht; cases ht
    exact ⟨hs, iff_of_false hne hline⟩
  | none =>
    by_cases hh : line = historyLine
    · obtain ⟨hc, hhist, hw, hne⟩ := list_submitted { s with history := s.history.append line }
      have hline : line ≠ exitLine := by rw [hh]; decide
      simp only [if_pos hh]
      exact ⟨⟨hc, by simpa [ht] using hhist, hw⟩, iff_of_false hne hline⟩
    by_cases he : line = exitLine
    · simp only [if_neg hh, if_pos he]
      exact ⟨⟨rfl, by simp [ht], List.prefix_refl _⟩, by simpa using he⟩
    · obtain ⟨hc, hhist, hw, hne⟩ :=
        execute_submitted host line { s with history := s.history.append line }
      simp only [if_neg hh, if_neg he]
      exact ⟨⟨hc, by simpa [ht] using hhist, by simp only [hw, List.prefix_refl]⟩,
        iff_of_false hne he⟩

theorem submit_submitted (host : Host σ) (line : Text) (s : Session σ) :
    Submitted line s (s.submit host line).2 ∧
      ((s.submit host line).1 = .exit ↔ line = exitLine) := by
  obtain ⟨hs, hexit⟩ := handle_submitted host line s
  rw [submit_eq, conclude_eq_exit_iff]
  exact ⟨hs.conclude, hexit⟩

theorem prefix_written_showPrompt (s : Session σ) (interactive : Bool) :
    s.out.written <+: (s.showPrompt interactive).2.out.written := by
  cases interactive with
  | false => exact List.prefix_refl _
  | true => exact s.out.prefix_written_write _

/-- What a turn changes of a session besides its world. -/
theorem turn_submitted (host : Host σ) (interactive : Bool) (line : Text) (s : Session σ) :
    Submitted line s (s.turn host interactive line) := by
  obtain ⟨⟨hc, hh, hw⟩, -⟩ := submit_submitted host line (s.showPrompt interactive).2
  exact ⟨hc.trans (config_showPrompt s interactive), hh.trans (by rw [history_showPrompt]),
    (prefix_written_showPrompt s interactive).trans hw⟩

@[simp]
theorem config_foldl_turn (host : Host σ) (interactive : Bool) (lines : List Text)
    (s : Session σ) : (lines.foldl (Session.turn host interactive) s).config = s.config := by
  induction lines generalizing s with
  | nil => rfl
  | cons line lines ih => rw [List.foldl_cons, ih, (turn_submitted host interactive line s).config]

theorem prefix_written_foldl_turn (host : Host σ) (interactive : Bool) (lines : List Text)
    (s : Session σ) :
    s.out.written <+: (lines.foldl (Session.turn host interactive) s).out.written := by
  induction lines generalizing s with
  | nil => exact List.prefix_refl _
  | cons line lines ih => exact (turn_submitted host interactive line s).written.trans (ih _)

/-- The history after some lines : all of them are entered that do not change the directory. -/
def enter (lines : List Text) (h : History) : History :=
  (lines.filter fun line => (targetOf? line).isNone).foldl (fun h line => h.append line) h

theorem history_foldl_turn (host : Host σ) (interactive : Bool) (lines : List Text)
    (s : Session σ) :
    (lines.foldl (Session.turn host interactive) s).history = enter lines s.history := by
  induction lines generalizing s with
  | nil => rfl
  | cons line lines ih =>
    rw [List.foldl_cons, ih, (turn_submitted host interactive line s).history, enter, enter,
      List.filter_cons]
    split <;> rfl

/-- The run of a session whose turns are `done` : it has come to the end of its lines, or a
prompt could not be written. -/
structure Ran (host : Host σ) (interactive : Bool) (input : Bytes) (s : Session σ)
    (done more : List Text) (r : Ending σ) : Prop where
  lines : untilExit (readLines s.config.lineMax input) = done ++ more
  /-- One record was read for every line. -/
  rest : r.rest = (fun input => (takeRecord input).2)^[done.length] input
  ending : more = [] ∧ r.result = .ok () ∧ r.session =
        (if exitLine ∈ done then done.foldl (Session.turn host interactive) s
        else ((done.foldl (Session.turn host interactive) s).showPrompt interactive).2) ∨
      exitLine ∉ done ∧ ∃ e,
        ((done.foldl (Session.turn host interactive) s).showPrompt interactive).1 = .error e ∧
        r.result = .error e ∧
        r.session = ((done.foldl (Session.turn host interactive) s).showPrompt interactive).2

theorem takeRecord_of_readLine {lineMax : Nat} {input rest : Bytes} {line : Text}
    (h : readLine lineMax input = some (line, rest)) : (takeRecord input).2 = rest := by
  rw [readLine] at h
  split at h <;> cases h
  rfl

/-- A run is a run of turns. -/
theorem exists_ran (host : Host σ) (interactive : Bool) (input : Bytes) (s : Session σ) :
    ∃ done more, Ran host interactive input s done more (s.run host interactive input) := by
  fun_induction Session.run host interactive input s with
  | case1 input s e s' hp =>
    refine ⟨[], _, rfl, rfl, .inr ⟨by simp, e, ?_⟩⟩
    simp [hp]
  | case2 input s s' hp hr =>
    obtain rfl : (s.showPrompt interactive).2 = s' := by rw [hp]
    rw [config_showPrompt] at hr
    exact ⟨[], [], by rw [readLines_of_none hr]; rfl, rfl, .inl ⟨rfl, rfl, by simp⟩⟩
  | case3 input s s' hp line rest hr s'' hs =>
    obtain rfl : (s.showPrompt interactive).2 = s' := by rw [hp]
    rw [config_showPrompt] at hr
    obtain rfl : line = exitLine := (submit_submitted host line _).2.mp (by rw [hs])
    have hturn : s.turn host interactive exitLine = s'' := by rw [turn, hs]
    refine ⟨[exitLine], [], ?_, takeRecord_of_readLine hr ▸ rfl, .inl ⟨rfl, rfl, by simp [hturn]⟩⟩
    rw [readLines_of_some hr, untilExit, if_pos rfl]
    rfl
  | case4 input s s' hp line rest hr s'' hs ih =>
    obtain rfl : (s.showPrompt interactive).2 = s' := by rw [hp]
    rw [config_showPrompt] at hr
    obtain ⟨done, more, hlines, hrest, hending⟩ := ih
    have hne : line ≠ exitLine := by
      intro he
      have := (submit_submitted host line (s.showPrompt interactive).2).2.mpr he
      rw [hs] at this
      cases this
    have hturn : s.turn host interactive line = s'' := by rw [turn, hs]
    have hmem : exitLine ∈ line :: done ↔ exitLine ∈ done := by simp [Ne.symm hne]
    subst hturn
    rw [(turn_submitted host interactive line s).config] at hlines
    refine ⟨line :: done, more, ?_, ?_, ?_⟩
    · rw [readLines_of_some hr, untilExit, if_neg hne, hlines, List.cons_append]
    · rw [hrest, List.length_cons, Function.iterate_succ_apply, takeRecord_of_readLine hr]
    · simpa only [hmem, List.foldl_cons] using hending

end Run

/-! ## The commands of a run -/

/-- A report adds no command. -/
theorem commands_conclude (host : Host ω) (r : Except LineError Flow × Session (Recorder × ω)) :
    (conclude host.recording r).2.world.1.commands = r.2.world.1.commands := by
  obtain ⟨e | flow, s⟩ := r <;> rfl

theorem commands_execute (c : Command) (r : Recorder) :
    (r.execute c).2.commands = r.commands ++ [c] := by
  rw [Recorder.execute]
  split <;> rfl

theorem world_list {σ : Type} (s : Session σ) : s.list.2.world = s.world := by
  rw [Session.list]
  split <;> rfl

/-- A line has its own command executed. -/
theorem commands_handle (host : Host ω) (line : Text) (s : Session (Recorder × ω)) :
    (s.handle host.recording line).2.world.1.commands =
      s.world.1.commands ++ (Account.commandOf? s.config line).toList := by
  rw [Session.handle, directoryOfLine?_eq, ofLine?_eq, Account.commandOf?]
  cases ht : targetOf? line with
  | some path =>
    have hw : (host.recording.changeDirectory path s.world).2.1 = s.world.1 := rfl
    simp only [Session.changeDirectory]
    rcases hr : host.recording.changeDirectory path s.world with ⟨e | ⟨⟩, w⟩ <;> rw [hr] at hw <;>
      simpa using congrArg Recorder.commands hw
  | none =>
    by_cases hh : line = historyLine
    · simp [hh, world_list]
    by_cases he : line = exitLine
    · simp [he, show exitLine ≠ historyLine by decide]
    · simp only [Session.execute, hh, he, not_false_eq_true, and_self, ne_eq, if_true, if_false]
      rcases parse s.config.maxArguments (Utf8.encode line) with e | c
      · simp [Except.toOption]
      · have hw : (host.recording.execute c s.world).2.1.commands = s.world.1.commands ++ [c] :=
          commands_execute c s.world.1
        simp only [Except.toOption, Option.toList_some]
        rcases hr : host.recording.execute c s.world with ⟨e | status, w⟩ <;> rw [hr] at hw <;>
          exact hw

theorem commands_turn (host : Host ω) (interactive : Bool) (line : Text)
    (s : Session (Recorder × ω)) :
    (s.turn host.recording interactive line).world.1.commands =
      s.world.1.commands ++ (Account.commandOf? s.config line).toList := by
  rw [turn, submit_eq, commands_conclude, commands_handle, world_showPrompt, config_showPrompt]

theorem commands_foldl_turn (host : Host ω) (interactive : Bool) (lines : List Text)
    (s : Session (Recorder × ω)) :
    (lines.foldl (Session.turn host.recording interactive) s).world.1.commands =
      s.world.1.commands ++ lines.filterMap (Account.commandOf? s.config) := by
  induction lines generalizing s with
  | nil => simp
  | cons line lines ih =>
    rw [List.foldl_cons, ih, commands_turn, (turn_submitted _ _ line s).config, List.append_assoc,
      List.filterMap_cons]
    cases Account.commandOf? s.config line <;> rfl

/-! ## Two runs -/

theorem showPrompt_of_room_none {σ : Type} {s : Session σ} (h : s.out.room = none)
    (interactive : Bool) : (s.showPrompt interactive).1 = .ok () := by
  cases interactive with
  | false => rfl
  | true => simp [Session.showPrompt, Sink.write, h]

/-- Without a prompt nothing is written before a line. -/
theorem showPrompt_of_no_prompt {σ : Type} {s : Session σ} {interactive : Bool}
    (h : interactive = false ∨ s.config.prompt = []) :
    s.showPrompt interactive = (.ok (), s) := by
  cases interactive with
  | false => rfl
  | true =>
    have hp : Utf8.encode s.config.prompt = [] := by simp [h.resolve_left (by simp), Utf8.encode]
    have hw : s.out.write [] = (.ok (), s.out) := by
      rcases s.out with ⟨written, room⟩
      cases room <;> simp [Sink.write]
    simp only [Session.showPrompt, if_true, hp, hw]

/-- What a prompt has written is the beginning of what is written with more lines. -/
theorem prefix_written_of_more {σ : Type} (host : Host σ) (interactive : Bool) (s : Session σ)
    {more : List Text} (h : more ≠ []) :
    (s.showPrompt interactive).2.out.written <+:
      (more.foldl (turn host interactive) s).out.written := by
  obtain ⟨line, lines, rfl⟩ := List.exists_cons_of_ne_nil h
  exact (submit_submitted host line (s.showPrompt interactive).2).1.written.trans
    (prefix_written_foldl_turn host interactive lines _)

/-- Records are taken off the front of the input. -/
theorem suffix_iterate_takeRecord (n : Nat) (input : Bytes) :
    (fun input => (takeRecord input).2)^[n] input <:+ input := by
  induction n generalizing input with
  | zero => exact List.suffix_refl _
  | succ n ih =>
    rw [Function.iterate_succ_apply]
    refine (ih _).trans ?_
    unfold takeRecord
    cases hc : Text.cutAt lineFeed input with
    | none => exact List.nil_suffix
    | some p =>
      rw [Text.append_of_cutAt hc]
      exact ⟨p.1 ++ [lineFeed], by simp⟩

/-- Of lines that are cut short only the listing of the history is one. -/
theorem handle_eq_error_io {σ : Type} (host : Host σ) (s : Session σ) {line : Text} {e : IoError}
    (h : (s.handle host line).1 = .error (.io e)) :
    line = historyLine ∧ ∃ out, (s.handle host line).2 =
      { s with history := s.history.append line, out := out } := by
  rw [Session.handle, directoryOfLine?_eq, ofLine?_eq] at h ⊢
  cases ht : targetOf? line with
  | some path =>
    simp only [ht, Session.changeDirectory] at h
    split at h <;> cases h
  | none =>
    simp only [ht] at h ⊢
    by_cases hh : line = historyLine
    · simp only [if_pos hh, Session.list] at h ⊢
      refine ⟨hh, ?_⟩
      split <;> exact ⟨_, rfl⟩
    by_cases he : line = exitLine
    · simp only [if_neg hh, if_pos he] at h
      cases h
    · simp only [if_neg hh, if_neg he, Session.execute] at h
      split at h
      · cases h
      · split at h <;> cases h

theorem written_showPrompt_of_room_none {σ : Type} {s : Session σ} (h : s.out.room = none)
    (interactive : Bool) :
    (s.showPrompt interactive).2.out.written =
      s.out.written ++ Account.promptOf s.config interactive := by
  cases interactive with
  | false => exact (List.append_nil _).symm
  | true => simp [Session.showPrompt, Sink.write, h, Account.promptOf]

/-- What a prompt has written stays at the front, unless the session has ended before it. -/
theorem prefix_written_of_shown {σ : Type} (host : Host σ) (interactive : Bool) (s : Session σ)
    {done : List Text} (hexit : exitLine ∉ done) (more : List Text) :
    ((done.foldl (turn host interactive) s).showPrompt interactive).2.out.written <+:
      (if exitLine ∈ done ++ more then (done ++ more).foldl (turn host interactive) s
        else (((done ++ more).foldl (turn host interactive) s).showPrompt interactive).2
        ).out.written := by
  cases more with
  | nil =>
    simp only [List.append_nil, if_neg hexit, List.prefix_refl]
  | cons line more =>
    have hmore := prefix_written_of_more host interactive (done.foldl (turn host interactive) s)
      (List.cons_ne_nil line more)
    rw [List.foldl_append]
    split
    · exact hmore
    · exact hmore.trans (prefix_written_showPrompt _ interactive)

/-- A session without a limit comes to the end of its lines. -/
theorem Keeps.run_whole (h : Keeps N u l) (host : Host ω) (interactive : Bool) (input : Bytes) :
    let lines := untilExit (readLines u.config.lineMax input)
    let t := lines.foldl (Session.turn host.recording interactive) u
    let whole := u.run host.recording interactive input
    whole.result = .ok () ∧ whole.rest = (fun input => (takeRecord input).2)^[lines.length] input ∧
      whole.session = if exitLine ∈ lines then t else (t.showPrompt interactive).2 := by
  intro lines t whole
  obtain ⟨done, more, hlines, hrest, ⟨rfl, hresult, hsession⟩ | ⟨-, e, he, -⟩⟩ :=
    exists_ran host.recording interactive input u
  · obtain rfl : lines = done := hlines.trans (List.append_nil _)
    exact ⟨hresult, hrest, hsession⟩
  · have hroom := (h.foldl_turn host interactive done).out.room_whole
    rw [showPrompt_of_room_none hroom] at he
    cases he

/-- What is written with little room is the beginning of what is written without a limit. -/
theorem Keeps.written_run (h : Keeps N u l) (host : Host ω) (interactive : Bool) (input : Bytes) :
    (l.run host.recording interactive input).session.out.written =
      (u.run host.recording interactive input).session.out.written.take N := by
  obtain ⟨-, -, hwhole⟩ := h.run_whole host interactive input
  obtain ⟨done, more, hlines, -, hending⟩ := exists_ran host.recording interactive input l
  rw [h.config] at hlines
  rw [hwhole, hlines]
  have hdone := h.foldl_turn host interactive done
  obtain ⟨hshown, hfit⟩ := hdone.showPrompt interactive
  rcases hending with ⟨rfl, -, hsession⟩ | ⟨hexit, e, he, -, hsession⟩
  · rw [hsession, List.append_nil]
    split
    · exact hdone.out.written
    · exact hshown.out.written
  · -- nothing is kept of what is written behind a prompt that does not fit
    have hlong : N ≤ ((done.foldl (Session.turn host.recording interactive) u).showPrompt
        interactive).2.out.written.length := by
      rw [written_showPrompt_of_room_none hdone.out.room_whole, List.length_append]
      by_contra hshort
      rw [if_pos (by omega), he] at hfit
      cases hfit
    obtain ⟨tail, htail⟩ := prefix_written_of_shown host.recording interactive u hexit more
    rw [hsession, hshown.out.written, ← htail, List.take_append_of_le_length hlong]

/-- The lines that are handled with little room are the first of those that are handled
without a limit, and the last of them is followed by a prompt that does not fit. -/
theorem Keeps.exists_done (h : Keeps N u l) (host : Host ω) (interactive : Bool) (input : Bytes) :
    let whole := u.run host.recording interactive input
    let cut := l.run host.recording interactive input
    ∃ done more, untilExit (readLines u.config.lineMax input) = done ++ more ∧
      cut.session.history = enter done u.history ∧
      cut.session.world.1.commands <+: whole.session.world.1.commands ∧
      (∃ consumed unread, input = consumed ++ cut.rest ∧ cut.rest = unread ++ whole.rest) ∧
      (cut.result = .ok () ∧ more = [] ∨ cut.result = .error .writeCutShort ∧
        N - (done.foldl (Session.turn host.recording interactive) u).out.written.length <
          (Account.promptOf u.config interactive).length) := by
  intro whole cut
  obtain ⟨-, hrest, hwhole⟩ := h.run_whole host interactive input
  obtain ⟨done, more, hlines, hcrest, hending⟩ := exists_ran host.recording interactive input l
  rw [h.config] at hlines
  rw [hlines] at hrest hwhole
  have hshown : cut.session = done.foldl (Session.turn host.recording interactive) l ∨
      cut.session =
        ((done.foldl (Session.turn host.recording interactive) l).showPrompt interactive).2 := by
    rcases hending with ⟨-, -, hsession⟩ | ⟨-, e, -, -, hsession⟩
    · split at hsession
      · exact .inl hsession
      · exact .inr hsession
    · exact .inr hsession
  refine ⟨done, more, hlines, ?_, ?_, ?_, ?_⟩
  · have hhistory := history_foldl_turn host.recording interactive done l
    rw [h.history] at hhistory
    rcases hshown with hs | hs <;> rw [hs]
    · exact hhistory
    · rw [history_showPrompt, hhistory]
  · have hcut : cut.session.world.1.commands =
        u.world.1.commands ++ done.filterMap (Account.commandOf? u.config) := by
      rw [← h.world.commands, ← h.config, ← commands_foldl_turn host interactive]
      rcases hshown with hs | hs <;> rw [hs]
      rw [world_showPrompt]
    have hall : whole.session.world.1.commands =
        u.world.1.commands ++ (done ++ more).filterMap (Account.commandOf? u.config) := by
      rw [← commands_foldl_turn host interactive, hwhole]
      split
      · rfl
      · rw [world_showPrompt]
    rw [hcut, hall, List.filterMap_append, ← List.append_assoc]
    exact List.prefix_append _ _
  · obtain ⟨consumed, hconsumed⟩ := suffix_iterate_takeRecord done.length input
    obtain ⟨unread, hunread⟩ := suffix_iterate_takeRecord more.length cut.rest
    refine ⟨consumed, unread, by rw [hcrest]; exact hconsumed.symm, ?_⟩
    rw [hrest, List.length_append, Nat.add_comm, Function.iterate_add_apply, ← hcrest]
    exact hunread.symm
  · rcases hending with ⟨hmore, hresult, -⟩ | ⟨-, e, he, hresult, -⟩
    · exact .inl ⟨hresult, hmore⟩
    · obtain ⟨-, hfit⟩ := (h.foldl_turn host interactive done).showPrompt interactive
      rw [he, config_foldl_turn] at hfit
      split at hfit <;> cases hfit
      exact .inr ⟨hresult, by omega⟩

/-- Where no prompt is shown, a run is the fold of its lines, whatever room there is. -/
theorem run_of_no_prompt {σ : Type} (host : Host σ) {interactive : Bool} (input : Bytes)
    {s : Session σ} (hp : interactive = false ∨ s.config.prompt = []) :
    (s.run host interactive input).result = .ok () ∧
      (s.run host interactive input).rest = (fun input => (takeRecord input).2)^[
        (untilExit (readLines s.config.lineMax input)).length] input ∧
      (s.run host interactive input).session =
        (untilExit (readLines s.config.lineMax input)).foldl (turn host interactive) s := by
  obtain ⟨done, more, hlines, hrest, hending⟩ := exists_ran host interactive input s
  have hshow : (done.foldl (turn host interactive) s).showPrompt interactive = (.ok (), _) :=
    showPrompt_of_no_prompt (by rwa [config_foldl_turn])
  rw [hshow] at hending
  rcases hending with ⟨rfl, hresult, hsession⟩ | ⟨-, e, he, -⟩
  · rw [hlines, List.append_nil]
    exact ⟨hresult, hrest, by rw [hsession]; split <;> rfl⟩
  · cases he

/-- A session with room for `N` bytes, against one without a limit. What it writes is the
first `N` bytes of what the other writes. It handles the first of the lines that the other
handles, so it records, executes and reads the beginning of what the other does, and ends
early only with a prompt that goes beyond `N`. Where no prompt is shown nothing differs but
the listings that go beyond `N` : these are reported. A listing that is cut short is entered
in the history like every line, and nothing else comes of it. -/
theorem run_within (host : Host ω) (config : Config) (history : History) (world : Recorder × ω)
    (interactive : Bool) (input : Bytes) (N : Nat) :
    let start (room : Option Nat) : Session (Recorder × ω) :=
      { config := config, history := history, world := world, out := { room := room } }
    let after (room : Option Nat) (done : List Text) : Session (Recorder × ω) :=
      done.foldl (turn host.recording interactive) (start room)
    let whole := (start none).run host.recording interactive input
    let cut := (start (some N)).run host.recording interactive input
    let lines := untilExit (readLines config.lineMax input)
    cut.session.out.written = whole.session.out.written.take N ∧
    whole.result = .ok () ∧ whole.session.history = enter lines history ∧
    (∃ done more, lines = done ++ more ∧ cut.session.history = enter done history ∧
      cut.session.world.1.commands <+: whole.session.world.1.commands ∧
      (∃ consumed unread, input = consumed ++ cut.rest ∧ cut.rest = unread ++ whole.rest) ∧
      (cut.result = .ok () ∧ more = [] ∨ cut.result = .error .writeCutShort ∧ interactive = true ∧
        N - (after none done).out.written.length < (Utf8.encode config.prompt).length)) ∧
    (interactive = false ∨ config.prompt = [] →
      (cut.result = .ok () ∧ cut.rest = whole.rest ∧
        cut.session.history = whole.session.history ∧
        Hears whole.session.world cut.session.world ∧
        cut.session = after (some N) lines ∧ whole.session = after none lines) ∧
      ∀ done line more, lines = done ++ line :: more →
        ((after (some N) done).handle host.recording line).1 =
          if line = historyLine ∧ N - (after none done).out.written.length <
              ((after none done).history.append line).listing.length then
            .error (.io .writeCutShort)
          else ((after none done).handle host.recording line).1) ∧
    ∀ (s : Session (Recorder × ω)) line e, (s.handle host.recording line).1 = .error (.io e) →
      line = historyLine ∧ ∃ out, (s.handle host.recording line).2 =
        { s with history := s.history.append line, out := out } := by
  intro start after whole cut lines
  have hstart : Keeps N (start none) (start (some N)) :=
    ⟨rfl, rfl, Hears.refl _, Sink.keeps_empty N⟩
  obtain ⟨hresult, hrest, hwhole⟩ := hstart.run_whole host interactive input
  refine ⟨hstart.written_run host interactive input, hresult, ?_, ?_, ?_,
    fun s line e => handle_eq_error_io host.recording s⟩
  · rw [hwhole, ← history_foldl_turn host.recording interactive lines (start none)]
    split
    · rfl
    · exact history_showPrompt _ _
  · obtain ⟨done, more, hlines, hhistory, hcommands, hread, hend⟩ :=
      hstart.exists_done host interactive input
    refine ⟨done, more, hlines, hhistory, hcommands, hread, hend.imp_right ?_⟩
    rintro ⟨herror, hlong⟩
    cases interactive with
    | false => exact absurd hlong (Nat.not_lt_zero _)
    | true => exact ⟨herror, rfl, hlong⟩
  · intro hp
    obtain ⟨hok, hcrest, hcut⟩ := run_of_no_prompt host.recording input (s := start (some N)) hp
    obtain ⟨-, -, hall⟩ := run_of_no_prompt host.recording input (s := start none) hp
    have hkeeps := hstart.foldl_turn host interactive lines
    refine ⟨⟨hok, hcrest.trans hrest.symm, ?_, ?_, hcut, hall⟩, ?_⟩
    · rw [show cut.session = _ from hcut, show whole.session = _ from hall]
      exact hkeeps.history
    · rw [show cut.session = _ from hcut, show whole.session = _ from hall]
      exact hkeeps.world
    · intro done line more _
      exact ((hstart.foldl_turn host interactive done).submit host line).2

/-- A second listing finds no room, and the session goes on : only its prompt would end it. -/
theorem run_within_full :
    let world : Recorder × Unit := ({ answers := [.ok 0] }, ())
    let host : Host Unit := ⟨fun _ w => (.ok (), w), fun _ w => (.ok 0, w), fun _ w => w⟩
    let start (prompt : Text) (room : Option Nat) : Session (Recorder × Unit) :=
      { config := { prompt := prompt }, history := .empty 2, world := world, out := { room := room } }
    let input := Utf8.ofString "history\nhistory\nls\nexit\n"
    ((start [] (some 12)).run host.recording true input).result = .ok () ∧
      ((start [] (some 12)).run host.recording true input).session.out.written =
        ((start [] none).run host.recording true input).session.out.written.take 12 ∧
      ∃ done more, untilExit (readLines 100 input) = done ++ more ∧
        ((start ['>'] (some 12)).run host.recording true input).session.history =
          enter done (.empty 2) := by
  intro world host start input
  have hp := run_within host { prompt := [] } (.empty 2) world true input 12
  have hq := run_within host { prompt := ['>'] } (.empty 2) world true input 12
  obtain ⟨done, more, hlines, hhistory, -⟩ := hq.2.2.2.1
  exact ⟨(hp.2.2.2.2.1 (.inr rfl)).1.1, hp.1, done, more, hlines, hhistory⟩

end Session

end LineShell
