import LineShell.Proofs.Room
import LineShell.Proofs.Settings

/-!
# Settings in words of 64 bits

What a shell counts with are words of 64 bits. A sum can be too large for one, a difference below
zero, a division by zero, and a slot may not be there : `History.append?`, `History.entries?`,
`readLine?` and `Session.run?` do in words what is done in numbers without a question mark, and are
none where one of this happens.

Counts that are read from settings are words with their least values (`Config.bounds_of_read`). They
are enough for all but one thing. The slots of a history are not bounded by them, so a session may
not be started (`Session.isSome_start?_iff`). In one that is started only the number of a line can be
too large, after as many lines as there are words (`Session.Sound.run?_eq`).
`Session.start?_and_run?_of_read` puts this together.
-/

namespace LineShell

/-! ## Words -/

namespace Word

/-- The sum of two words, if it is one. -/
def add? (m n : Nat) : Option Nat := if m + n < Decimal.countBound then some (m + n) else none

/-- The difference of two words, if it is not below zero. -/
def sub? (m n : Nat) : Option Nat := if n ≤ m then some (m - n) else none

/-- The remainder of a division, if it is not by zero. -/
def mod? (m n : Nat) : Option Nat := if n = 0 then none else some (m % n)

end Word

/-! ## The history -/

namespace History

variable {h : History} {lines : List Text}

/-- Enter a line, in words. -/
def append? (line : Text) (h : History) : Option History := do
  let slot ← Word.mod? h.count h.capacity
  let count ← Word.add? h.count 1
  let entry : Entry := ⟨count, Text.dropEndWhile isLineEnd line⟩
  if h.slots.size < h.capacity then some { h with slots := h.slots.push entry, count := count }
  else if hslot : slot < h.slots.size then
    some { h with slots := h.slots.set slot entry hslot, count := count }
  else none

/-- The slot of the oldest entry, in words. -/
def oldest? (h : History) : Option Nat :=
  if h.slots.size < h.capacity then some 0 else Word.mod? h.count h.capacity

/-- The entries, the oldest first, out of slots that are there. -/
def entries? (h : History) : Option (List Entry) := do
  let oldest ← h.oldest?
  if oldest ≤ h.slots.size then some (h.slots.toList.drop oldest ++ h.slots.toList.take oldest)
  else none

/-- All that can fail is to count the line. -/
theorem Holds.append?_eq (hh : h.Holds lines) (line : Text) : h.append? line =
    if h.count + 1 < Decimal.countBound then some (h.append line) else none := by
  obtain ⟨hcap, hslot, -⟩ := hh.slots_in_range
  simp only [append?, Word.mod?, Word.add?, if_neg (Nat.ne_of_gt hcap), Option.bind_eq_bind,
    Option.bind_some]
  by_cases hcount : h.count + 1 < Decimal.countBound
  · simp only [if_pos hcount, Option.bind_some, History.append]
    by_cases hroom : h.slots.size < h.capacity
    · simp only [if_pos hroom]
    · have hin := hslot (Nat.le_of_not_lt hroom)
      simp only [if_neg hroom, dif_pos hin, Array.setIfInBounds]
  · simp only [if_neg hcount, Option.bind_none]

theorem Holds.oldest?_eq (hh : h.Holds lines) : h.oldest? = some h.oldest := by
  rw [oldest?, oldest, Word.mod?, if_neg (Nat.ne_of_gt hh.slots_in_range.1)]
  split <;> rfl

theorem Holds.entries?_eq (hh : h.Holds lines) : h.entries? = some h.entries := by
  rw [entries?, hh.oldest?_eq]
  simp only [Option.bind_eq_bind, Option.bind_some, if_pos hh.slots_in_range.2.2]
  rfl

end History

/-! ## The reader -/

variable {lineMax : Nat} {input rest : Bytes} {line : Text}

/-- The next line and the input behind it, read in words. At the end of the input it is some none. -/
def readLine? (lineMax : Nat) (input : Bytes) : Option (Option (Text × Bytes)) :=
  if input.isEmpty then some none
  else (Word.sub? lineMax 2).map fun keep =>
    some (Utf8.decodeLossy ((takeRecord input).1.take keep) ++ ['\n'], (takeRecord input).2)

theorem readLine?_eq (hmax : 2 ≤ lineMax) (input : Bytes) :
    readLine? lineMax input = some (readLine lineMax input) := by
  rw [readLine?, readLine, Word.sub?, if_pos hmax]
  split <;> rfl

theorem length_lt_of_readLine? (h : readLine? lineMax input = some (some (line, rest))) :
    rest.length < input.length := by
  rw [readLine?] at h
  split at h
  · cases h
  · rename_i hne
    obtain ⟨keep, -, hkeep⟩ := Option.map_eq_some_iff.mp h
    cases hkeep
    exact length_takeRecord_lt (by simpa using hne)

/-! ## Settings -/

namespace Config

variable {lines : List Text} {settings : List Setting} {source : Text} {c : Config}

/-- A line sets no count that is no word. -/
theorem Settles.lt_countBound (h : Settles lines settings) {n : Count} {v : Nat}
    (hv : Setting.count n v ∈ settings) : v < Decimal.countBound := by
  induction h with
  | nil => cases hv
  | skip h hrest ih => exact ih hv
  | assign h hrest ih =>
    rcases List.mem_cons.mp hv with rfl | hv
    · cases h with
      | count hcut hkey hvalue hword => exact Decimal.count?_lt (Decimal.count?_eq_some_iff.mpr hword)
    · exact ih hv

theorem Final.lt_countBound (hc : Final settings c)
    (hsettings : ∀ n v, Setting.count n v ∈ settings → v < Decimal.countBound) (n : Count) :
    c.count n < Decimal.countBound := by
  rw [hc.count]
  cases hlast : (settings.filterMap (Setting.count? n)).getLast? with
  | none => cases n <;> decide
  | some v =>
    obtain ⟨s, hs, hv⟩ := List.mem_filterMap.mp (List.mem_of_getLast? hlast)
    cases s with
    | prompt value => cases hv
    | count m value =>
      rw [Setting.count?] at hv
      split at hv
      · cases hv
        exact hsettings m v hs
      · cases hv

/-- The counts of settings that are read are words, and have their least values. -/
theorem bounds_of_read (h : read source = .ok c) (n : Count) :
    n.least ≤ c.count n ∧ c.count n < Decimal.countBound := by
  rw [read_eq_outcome (lines_linesOf source)] at h
  cases outcome_eq_iff.mp h with
  | ok hsettles hc hhistory harguments hline =>
    refine ⟨?_, hc.lt_countBound (fun n v => hsettles.lt_countBound) n⟩
    cases n with
    | historySize => exact Nat.one_le_iff_ne_zero.mpr hhistory
    | maxArguments => exact Nat.one_le_iff_ne_zero.mpr harguments
    | lineMax => exact hline

end Config

/-! ## A run -/

namespace Session

variable {ω : Type} {host : Host ω} {interactive : Bool} {s s' : Session ω} {lines : List Text}

/-- Write the listing of the history, in words. -/
def list? (s : Session ω) : Option (Except LineError Flow × Session ω) :=
  s.history.entries?.map fun entries =>
    match s.out.writeAll (entries.flatMap History.Entry.pieces) with
    | (.ok (), out) => (.ok .proceed, { s with out := out })
    | (.error e, out) => (.error (.io e), { s with out := out })

/-- Do what a line asks for, in words. -/
def handle? (host : Host ω) (line : Text) (s : Session ω) :
    Option (Except LineError Flow × Session ω) :=
  match directoryOfLine? line with
  | some path => some (s.changeDirectory host path)
  | none => do
    let history ← s.history.append? line
    let s := { s with history := history }
    match Builtin.ofLine? line with
    | some .history => s.list?
    | some .exit => some (.ok .exit, s)
    | none => some (s.execute host line)

/-- Read lines and handle them in words, up to the line `exit`, the end of the input, or a prompt that
cannot be written. -/
def run? (host : Host ω) (interactive : Bool) (input : Bytes) (s : Session ω) :
    Option (Ending ω) :=
  match s.showPrompt interactive with
  | (.error e, s) => some ⟨.error e, s, input⟩
  | (.ok (), s) =>
    match _h : readLine? s.config.lineMax input with
    | none => none
    | some none => some ⟨.ok (), s, input⟩
    | some (some (line, rest)) =>
      match (s.handle? host line).map (conclude host) with
      | none => none
      | some (.exit, s) => some ⟨.ok (), s, rest⟩
      | some (.proceed, s) => run? host interactive rest s
termination_by input.length
decreasing_by exact length_lt_of_readLine? (by assumption)

/-- A session that can go on in words : its history has been entered line by line, the lines have been
counted so far, and its reader has no difference below zero. -/
structure Sound (s : Session ω) : Prop where
  holds : ∃ lines, s.history.Holds lines
  count_lt : s.history.count < Decimal.countBound
  two_le : 2 ≤ s.config.lineMax

theorem Sound.of_showPrompt {r : Except IoError Unit} (h : s.Sound)
    (hp : s.showPrompt interactive = (r, s')) : s'.Sound := by
  obtain rfl : (s.showPrompt interactive).2 = s' := by rw [hp]
  have hhistory := history_showPrompt s interactive
  exact ⟨hhistory ▸ h.holds, hhistory ▸ h.count_lt, config_showPrompt s interactive ▸ h.two_le⟩

/-- A line counts for one, or for none. -/
theorem count_submit (host : Host ω) (line : Text) (s : Session ω) :
    s.history.count ≤ (s.submit host line).2.history.count ∧
      (s.submit host line).2.history.count ≤ s.history.count + 1 := by
  rw [(submit_submitted host line s).1.history]
  split
  · rw [History.count_append]
    omega
  · omega

theorem Sound.submit (h : s.Sound) (host : Host ω) (line : Text)
    (hcount : (s.submit host line).2.history.count < Decimal.countBound) :
    (s.submit host line).2.Sound := by
  obtain ⟨lines, hh⟩ := h.holds
  have hsubmitted := (submit_submitted host line s).1
  refine ⟨?_, hcount, hsubmitted.config ▸ h.two_le⟩
  rw [hsubmitted.history]
  split
  · exact ⟨_, hh.append line⟩
  · exact ⟨lines, hh⟩

theorem list?_eq (hh : s.history.Holds lines) : s.list? = some s.list := by
  rw [list?, hh.entries?_eq]
  rfl

/-- All that can fail is to count the line. -/
theorem Sound.handle?_eq (h : s.Sound) (host : Host ω) (line : Text) : s.handle? host line =
    if (s.handle host line).2.history.count < Decimal.countBound then some (s.handle host line)
    else none := by
  obtain ⟨lines, hh⟩ := h.holds
  have hhistory := (handle_submitted host line s).1.history
  rw [← directoryOfLine?_eq] at hhistory
  rw [hhistory, handle?, handle]
  cases directoryOfLine? line with
  | some path => exact (if_pos h.count_lt).symm
  | none =>
    simp only [Option.isNone_none, if_true, History.count_append, hh.append?_eq]
    by_cases hlt : s.history.count + 1 < Decimal.countBound
    · simp only [if_pos hlt, Option.bind_eq_bind, Option.bind_some]
      have hlist : Session.list? { s with history := s.history.append line } =
          some (Session.list { s with history := s.history.append line }) :=
        list?_eq (hh.append line)
      cases Builtin.ofLine? line with
      | none => rfl
      | some b =>
        cases b with
        | history => exact hlist
        | exit => rfl
    · simp only [if_neg hlt, Option.bind_eq_bind, Option.bind_none]

theorem Sound.submit?_eq (h : s.Sound) (host : Host ω) (line : Text) :
    (s.handle? host line).map (conclude host) =
      if (s.submit host line).2.history.count < Decimal.countBound then some (s.submit host line)
      else none := by
  have hsame : (s.submit host line).2.history = (s.handle host line).2.history := by
    rw [(submit_submitted host line s).1.history, (handle_submitted host line s).1.history]
  rw [h.handle?_eq, hsame]
  split <;> rfl

theorem run?_of_none (hp : s.showPrompt interactive = (.ok (), s'))
    (hr : readLine? s'.config.lineMax input = some none) :
    s.run? host interactive input = some ⟨.ok (), s', input⟩ := by
  rw [run?, hp]
  simp only
  split <;> rename_i h <;> rw [hr] at h <;> cases h

theorem run?_of_some (hp : s.showPrompt interactive = (.ok (), s'))
    (hr : readLine? s'.config.lineMax input = some (some (line, rest))) :
    s.run? host interactive input =
      match (s'.handle? host line).map (conclude host) with
      | none => none
      | some (.exit, s) => some ⟨.ok (), s, rest⟩
      | some (.proceed, s) => s.run? host interactive rest := by
  rw [run?, hp]
  simp only
  split <;> rename_i h <;> rw [hr] at h <;> cases h
  rfl

/-- A run counts on, by no more than one line for each byte. -/
theorem count_run (host : Host ω) (interactive : Bool) (input : Bytes) (s : Session ω) :
    s.history.count ≤ (s.run host interactive input).session.history.count ∧
      (s.run host interactive input).session.history.count ≤ s.history.count + input.length := by
  fun_induction Session.run host interactive input s with
  | case1 input s e s' hp =>
    obtain rfl : (s.showPrompt interactive).2 = s' := by rw [hp]
    simp only [history_showPrompt]
    omega
  | case2 input s s' hp hr =>
    obtain rfl : (s.showPrompt interactive).2 = s' := by rw [hp]
    simp only [history_showPrompt]
    omega
  | case3 input s s' hp line rest hr s'' hs =>
    obtain rfl : (s.showPrompt interactive).2 = s' := by rw [hp]
    have hcount := count_submit host line (s.showPrompt interactive).2
    have hlength := length_lt_of_readLine hr
    rw [hs, history_showPrompt] at hcount
    simp only at hcount ⊢
    omega
  | case4 input s s' hp line rest hr s'' hs ih =>
    obtain rfl : (s.showPrompt interactive).2 = s' := by rw [hp]
    have hcount := count_submit host line (s.showPrompt interactive).2
    have hlength := length_lt_of_readLine hr
    rw [hs, history_showPrompt] at hcount
    simp only at hcount
    omega

/-- In words a run comes to the same, unless it records as many lines as there are words. -/
theorem Sound.run?_eq (h : s.Sound) (host : Host ω) (interactive : Bool) (input : Bytes) :
    s.run? host interactive input =
      if (s.run host interactive input).session.history.count < Decimal.countBound then
        some (s.run host interactive input)
      else none := by
  fun_induction Session.run host interactive input s with
  | case1 input s e s' hp =>
    have hs' := h.of_showPrompt hp
    rw [run?, hp, if_pos hs'.count_lt]
  | case2 input s s' hp hr =>
    have hs' := h.of_showPrompt hp
    rw [run?_of_none hp (by rw [readLine?_eq hs'.two_le, hr]), if_pos hs'.count_lt]
  | case3 input s s' hp line rest hr s'' hs =>
    have hs' := h.of_showPrompt hp
    rw [run?_of_some hp (by rw [readLine?_eq hs'.two_le, hr]), hs'.submit?_eq, hs]
    by_cases hcount : s''.history.count < Decimal.countBound
    · simp only [if_pos hcount]
    · simp only [if_neg hcount]
  | case4 input s s' hp line rest hr s'' hs ih =>
    have hs' := h.of_showPrompt hp
    rw [run?_of_some hp (by rw [readLine?_eq hs'.two_le, hr]), hs'.submit?_eq, hs]
    by_cases hcount : s''.history.count < Decimal.countBound
    · have hsound : s''.Sound := by
        have hsubmitted := hs'.submit host line
        rw [hs] at hsubmitted
        exact hsubmitted hcount
      simp only [if_pos hcount]
      exact ih hsound
    · -- a line that cannot be counted is not forgotten
      have hmore := (count_run host interactive rest s'').1
      simp only [if_neg hcount]
      rw [if_neg (by omega)]

/-! ## A new session -/

/-- A session is started if there are fewer than `2 ^ 58` slots. -/
theorem isSome_start?_iff (config : Config) (world : ω) :
    (start? config world).isSome ↔ config.historySize < Nat.pow 2 58 := by
  have hlimit : History.storageLimit = 9223372036854775807 := rfl
  have hslots : Nat.pow 2 58 = 288230376151711744 := rfl
  rw [start?, Option.isSome_map, History.reserve?, hlimit, hslots, History.slotSize]
  split
  · simp only [Option.isSome_some, true_iff]
    omega
  · simp only [Option.isSome_none, Bool.false_eq_true, false_iff]
    omega

theorem sound_of_start? {config : Config} {world : ω} (hs : start? config world = some s)
    (hmax : 2 ≤ config.lineMax) (out : Sink) : Sound { s with out := out } := by
  obtain rfl := eq_of_start? hs
  have hzero : 0 < Decimal.countBound := by decide
  exact ⟨⟨[], History.holds_empty _⟩, hzero, hmax⟩

/-- The counts of settings that are read are words, and have their least values. A session is started
with them exactly if they ask for fewer than `2 ^ 58` slots. Then every run of it, on whatever input,
comes to the same in words : no sum is too large, no difference below zero, no division by zero, and no
slot is missing. The one exception are as many lines as there are words, which cannot be counted, and
a run records no more lines than its input has bytes. -/
theorem start?_and_run?_of_read {source : Text} {config : Config}
    (hread : Config.read source = .ok config) (world : ω) :
    (∀ n : Config.Count, n.least ≤ config.count n ∧ config.count n < Decimal.countBound) ∧
    ((start? config world).isSome ↔ config.historySize < Nat.pow 2 58) ∧
    ∀ s, start? config world = some s → ∀ (out : Sink) (host : Host ω) interactive input,
      let ending := run host interactive input { s with out := out }
      run? host interactive input { s with out := out } =
          (if ending.session.history.count < Decimal.countBound then some ending else none) ∧
        ending.session.history.count ≤ input.length := by
  have hbounds := Config.bounds_of_read hread
  refine ⟨hbounds, isSome_start?_iff config world, fun s hs out host interactive input => ?_⟩
  refine ⟨(sound_of_start? hs (hbounds .lineMax).1 out).run?_eq host interactive input, ?_⟩
  have hcount := (count_run host interactive input { s with out := out }).2
  obtain rfl := eq_of_start? hs
  exact hcount.trans (Nat.le_of_eq (Nat.zero_add _))

/-- One slot, and no byte of a line kept but its line feed : each of three lines takes the place of the
one before. -/
theorem start?_and_run?_of_read_least :
    Config.read "history_size = 1\nline_max=2\n".toList = .ok { historySize := 1, lineMax := 2 } ∧
      ∃ s, start? { historySize := 1, lineMax := 2 } ['a'] = some s ∧
        ∃ ending, run? narrowHost true (Utf8.ofString "ls\ncd b\nls") s = some ending ∧
          ending.session.history.entries = [⟨3, []⟩] := by
  have hread : Config.read "history_size = 1\nline_max=2\n".toList =
      .ok { historySize := 1, lineMax := 2 } := by decide +kernel
  obtain ⟨-, hstart, hrun⟩ := start?_and_run?_of_read hread ['a']
  obtain ⟨s, hs⟩ := Option.isSome_iff_exists.mp (hstart.mpr (by decide))
  have hwords := (hrun s hs {} narrowHost true (Utf8.ofString "ls\ncd b\nls")).1
  obtain rfl := Option.some.inj hs
  exact ⟨hread, _, rfl, _, hwords.trans (if_pos (by decide +kernel)), by decide +kernel⟩

/-- Settings for `2 ^ 58` slots are read, and the slots take more bytes than can be set aside. -/
theorem not_started_large :
    Config.read "history_size=288230376151711744\n".toList = .ok { historySize := Nat.pow 2 58 } ∧
      History.storageLimit < max (Nat.pow 2 58) 1 * History.slotSize ∧
      (start? { historySize := Nat.pow 2 58 } ()).isSome = false := by
  decide +kernel

end Session

end LineShell
