import LineShell.Proofs.Room
import LineShell.Proofs.Truncation

/-!
# A listing can be read back

The listing of a history has a line for each entry : its number, a space, and its text, as it is.
`History.read?` reads it, a line up to each line feed, and in a line the number up to the first
space. It gives back the entries as long as no text holds a line feed (`Legible.read?_listing`).

`Session.Passes` : the moments that a session passes on an input. A line that is read holds no line
feed but its own, and this is not kept, so at each of them the history is legible
(`Passes.legible`). `listing_read_back` puts both together.
-/

namespace LineShell

/-! ## Reading a listing -/

namespace History

variable {h : History} {entries : List Entry}

/-- The line of an entry, without the line feed. -/
def Entry.written (e : Entry) : Text := Decimal.ofNat e.number ++ ' ' :: e.text

/-- Read a line : a number up to the first space, and behind it a text. -/
def Entry.read? (line : Text) : Option Entry := do
  let (number, text) ← Text.cutAt ' ' line
  return ⟨← Decimal.natural? number, text⟩

/-- Read a listing, an entry for each line. -/
def read? (listing : Bytes) : Option (List Entry) := do
  (Text.records '\n' (← Utf8.decode? listing)).mapM Entry.read?

theorem not_mem_ofNat {x : Char} (hx : x.isDigit = false) (n : Nat) : x ∉ Decimal.ofNat n := by
  intro hmem
  rw [(Decimal.numeral_ofNat n).digits x hmem] at hx
  cases hx

/-- The number of an entry holds no space, so the first space is the one behind it. -/
theorem Entry.cutAt_written (e : Entry) :
    Text.cutAt ' ' e.written = some (Decimal.ofNat e.number, e.text) :=
  Text.cutAt_append (not_mem_ofNat rfl e.number) e.text

theorem Entry.read?_written (e : Entry) : Entry.read? e.written = some e := by
  rw [read?, cutAt_written]
  simp only [Option.bind_eq_bind, Option.bind_some,
    Decimal.natural?_eq_some_iff.mpr (Decimal.numeral_ofNat e.number), Option.pure_def]

theorem mapM_read?_written (entries : List Entry) :
    (entries.map Entry.written).mapM Entry.read? = some entries := by
  induction entries with
  | nil => rfl
  | cons e entries ih =>
    rw [List.map_cons, List.mapM_cons, Entry.read?_written, ih]
    rfl

/-- No text that is kept holds a line feed. -/
def Legible (h : History) : Prop := ∀ e ∈ h.slots, '\n' ∉ e.text

theorem mem_slots_of_mem_entries {e : Entry} (he : e ∈ h.entries) : e ∈ h.slots := by
  rw [← Array.mem_toList_iff]
  rcases List.mem_append.mp he with he | he
  · exact List.mem_of_mem_drop he
  · exact List.mem_of_mem_take he

/-- The text of a listing. -/
theorem listing_eq (h : History) :
    h.listing = Utf8.encode ((h.entries.map Entry.written).flatMap (· ++ ['\n'])) := by
  rw [listing, pieces]
  induction h.entries with
  | nil => rfl
  | cons e entries ih =>
    rw [List.flatMap_cons, List.flatten_append, ih, List.map_cons, List.flatMap_cons,
      Utf8.encode_append]
    simp [Entry.pieces, Entry.written, Utf8.ofString, Utf8.encode]

theorem Legible.not_mem_written (hl : h.Legible) :
    ∀ line ∈ h.entries.map Entry.written, '\n' ∉ line := by
  intro line hline
  obtain ⟨e, he, rfl⟩ := List.mem_map.mp hline
  have htext := hl e (mem_slots_of_mem_entries he)
  have hnumber := not_mem_ofNat (x := '\n') rfl e.number
  simp [Entry.written, hnumber, htext]

/-- A legible listing is its lines, each with a line feed behind it. -/
theorem Legible.records_listing (hl : h.Legible) :
    Text.records '\n' ((h.entries.map Entry.written).flatMap (· ++ ['\n'])) =
      h.entries.map Entry.written :=
  Text.records_flatMap hl.not_mem_written

theorem Legible.read?_listing (hl : h.Legible) : read? h.listing = some h.entries := by
  rw [read?, listing_eq, Utf8.decode?_encode]
  simp only [Option.bind_eq_bind, Option.bind_some]
  rw [hl.records_listing, mapM_read?_written]

theorem legible_empty (capacity : Nat) : (empty capacity).Legible := by
  intro e he
  simp [empty] at he

/-- A line whose only line feed is behind it is kept without one. -/
theorem Legible.append {t : Text} (hl : h.Legible) (ht : '\n' ∉ t) :
    (h.append (t ++ ['\n'])).Legible := by
  have hkept : '\n' ∉ kept (t ++ ['\n']) := by
    rw [kept_append t (by simp [isLineEnd])]
    exact fun hmem => ht (mem_of_mem_kept hmem)
  intro e he
  simp only [History.append] at he
  split at he
  · rcases Array.mem_push.mp he with he | rfl
    · exact hl e he
    · exact hkept
  · rcases Array.mem_or_eq_of_mem_setIfInBounds he with he | rfl
    · exact hl e he
    · exact hkept

end History

/-! ## The moments of a run -/

/-- A line that is read has a line feed behind it, and no other. -/
theorem exists_of_readLine {lineMax : Nat} {input rest : Bytes} {line : Text}
    (h : readLine lineMax input = some (line, rest)) : ∃ t, line = t ++ ['\n'] ∧ '\n' ∉ t := by
  obtain ⟨record, hrecord, rfl⟩ := exists_firstRecord h
  refine ⟨_, rfl, not_mem_decodeLossy_take ?_ _⟩
  cases hrecord with
  | ended _ hnot => exact hnot
  | unended hnot _ => exact hnot

namespace Session

variable {ω : Type} {host : Host ω} {interactive : Bool} {input rest : Bytes} {line : Text}
  {s s' : Session ω}

/-- The session `s` comes through `s'` when it reads `input`. -/
inductive Passes (host : Host ω) (interactive : Bool) : Bytes → Session ω → Session ω → Prop
  | begins (input : Bytes) (s : Session ω) : Passes host interactive input s s
  /-- The prompt has been shown. -/
  | prompts (input : Bytes) (s : Session ω) :
      Passes host interactive input s (s.showPrompt interactive).2
  /-- A line has been recorded, and not yet dealt with. -/
  | records {input rest : Bytes} {line : Text} {s : Session ω}
      (hp : (s.showPrompt interactive).1 = .ok ())
      (hr : readLine s.config.lineMax input = some (line, rest))
      (hl : directoryOfLine? line = none) :
      Passes host interactive input s { (s.showPrompt interactive).2 with
        history := (s.showPrompt interactive).2.history.append line }
  /-- A line has been dealt with. -/
  | turns {input rest : Bytes} {line : Text} {s : Session ω}
      (hp : (s.showPrompt interactive).1 = .ok ())
      (hr : readLine s.config.lineMax input = some (line, rest)) :
      Passes host interactive input s (s.turn host interactive line)
  | onward {input rest : Bytes} {line : Text} {s s' : Session ω}
      (hp : (s.showPrompt interactive).1 = .ok ())
      (hr : readLine s.config.lineMax input = some (line, rest))
      (hf : ((s.showPrompt interactive).2.submit host line).1 = .proceed)
      (h : Passes host interactive rest (s.turn host interactive line) s') :
      Passes host interactive input s s'

/-- The end of a run is one of its moments. -/
theorem passes_run (host : Host ω) (interactive : Bool) (input : Bytes) (s : Session ω) :
    Passes host interactive input s (s.run host interactive input).session := by
  fun_induction Session.run host interactive input s with
  | case1 input s e s' hp =>
    obtain rfl : (s.showPrompt interactive).2 = s' := by rw [hp]
    exact .prompts input s
  | case2 input s s' hp hr =>
    obtain rfl : (s.showPrompt interactive).2 = s' := by rw [hp]
    exact .prompts input s
  | case3 input s s' hp line rest hr s'' hs =>
    obtain rfl : (s.showPrompt interactive).2 = s' := by rw [hp]
    obtain rfl : s.turn host interactive line = s'' := by rw [turn, hs]
    rw [config_showPrompt] at hr
    exact .turns (by rw [hp]) hr
  | case4 input s s' hp line rest hr s'' hs ih =>
    obtain rfl : (s.showPrompt interactive).2 = s' := by rw [hp]
    obtain rfl : s.turn host interactive line = s'' := by rw [turn, hs]
    rw [config_showPrompt] at hr
    exact .onward (by rw [hp]) hr (by rw [hs]) ih

/-- A line that was read keeps the history legible. -/
theorem legible_turn (hr : readLine s.config.lineMax input = some (line, rest))
    (hl : s.history.Legible) : (s.turn host interactive line).history.Legible := by
  obtain ⟨t, rfl, ht⟩ := exists_of_readLine hr
  rw [(turn_submitted host interactive _ s).history]
  split
  · exact hl.append ht
  · exact hl

theorem Passes.legible (h : Passes host interactive input s s') (hl : s.history.Legible) :
    s'.history.Legible := by
  induction h with
  | begins input s => exact hl
  | prompts input s => rwa [history_showPrompt]
  | records hp hr hdir =>
    obtain ⟨t, rfl, ht⟩ := exists_of_readLine hr
    simp only [history_showPrompt]
    exact hl.append ht
  | turns hp hr => exact legible_turn hr hl
  | onward hp hr hf h ih => exact ih (legible_turn hr hl)

/-- At every moment of a run of a new session, whatever its writer does, the listing of the history
can be read back. It is text, and consists of as many lines as entries are kept, each with a line
feed behind it. Cut at its first space, a line is the number of its entry and the text, so the
entries are read. The end of the run is such a moment. -/
theorem listing_read_back {config : Config} {world : ω} (hs : start? config world = some s)
    (out : Sink) (host : Host ω) (interactive : Bool) (input : Bytes) :
    Passes host interactive input { s with out := out }
        (Session.run host interactive input { s with out := out }).session ∧
      ∀ s', Passes host interactive input { s with out := out } s' →
        ∃ dump, Utf8.decode? s'.history.listing = some dump ∧
          dump = (Text.records '\n' dump).flatMap (· ++ ['\n']) ∧
          (Text.records '\n' dump).length = s'.history.size ∧
          (Text.records '\n' dump).map (Text.cutAt ' ') =
            s'.history.entries.map (fun e => some (Decimal.ofNat e.number, e.text)) ∧
          History.read? s'.history.listing = some s'.history.entries := by
  refine ⟨passes_run host interactive input _, fun s' h => ?_⟩
  have hnew : s.history.Legible := by
    obtain ⟨history, hr, rfl⟩ := Option.map_eq_some_iff.mp hs
    obtain rfl := History.eq_empty_of_reserve? hr
    exact History.legible_empty _
  have hl : s'.history.Legible := h.legible hnew
  refine ⟨_, by rw [History.listing_eq, Utf8.decode?_encode], ?_, ?_, ?_, hl.read?_listing⟩
  · rw [hl.records_listing]
  · rw [hl.records_listing, List.length_map, History.length_entries]
  · rw [hl.records_listing, List.map_map]
    exact List.map_congr_left fun e _ => e.cutAt_written

/-- Two slots for three lines, a line cut short with a byte in it that is no text, and a writer that
takes three bytes. -/
theorem listing_read_back_cut : ∃ s, start? { historySize := 2, lineMax := 9 } ['a'] = some s ∧
    let input := Utf8.ofString "ab\r\n1 " ++ [0xC3] ++ Utf8.ofString "é cut\nhistory\n"
    let ending := Session.run narrowHost false input { s with out := { room := some 3 } }
    History.read? ending.session.history.listing =
      some [⟨2, "1 \uFFFDé c".toList⟩, ⟨3, "history".toList⟩] := by
  obtain ⟨s, hs⟩ : ∃ s, start? { historySize := 2, lineMax := 9 } ['a'] = some s := ⟨_, rfl⟩
  have h := listing_read_back hs { room := some 3 } narrowHost false
    (Utf8.ofString "ab\r\n1 " ++ [0xC3] ++ Utf8.ofString "é cut\nhistory\n")
  obtain ⟨dump, -, -, -, -, hread⟩ := h.2 _ h.1
  refine ⟨s, hs, hread.trans ?_⟩
  obtain rfl := Option.some.inj hs
  decide +kernel

end Session

end LineShell
