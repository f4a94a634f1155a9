import LineShell.Proofs.Segmentation

/-!
# Separators behind a line

What a line is read as depends on its tokens, and on where it ends. Two cursors that have the same
tokens to come are `Alongside` each other, one in a line that ends at `n` and one in a line that ends
at `m`. Whatever is read, they stay so, and the readings are the same but for a position at the end
of the line, which is moved from `n` to `m` (`parse_of_tokenize_eq`).

Separators behind a line change none of its tokens (`tokenize_append`), so the command of the line
stays the same, and an error can only be reported further on.
-/

namespace LineShell

variable {line line' seps : Bytes} {p n m : Nat} {t : Token} {ts : List Token}

/-! ## The tokens in front of the separators -/

theorem Token.stop_le_length (h : t.text = (line.take t.stop).drop t.start)
    (hne : t.start < t.stop) : t.stop ≤ line.length := by
  have hlen := congrArg List.length h
  simp only [List.length_drop, List.length_take] at hlen
  have hstop : t.stop = t.start + t.text.length := rfl
  omega

theorem Segments.append (h : Segments line p ts) (hs : ∀ b ∈ seps, isSeparator b = true) :
    Segments (line ++ seps) p ts where
  from_le := h.from_le
  nonempty := h.nonempty
  ordered := h.ordered
  text_eq t ht := by
    have hle := Token.stop_le_length (h.text_eq t ht) (h.nonempty t ht)
    rw [List.take_append_of_le_length hle]
    exact h.text_eq t ht
  gaps i b hp hb hno := by
    rcases Nat.lt_or_ge i line.length with hi | hi
    · rw [List.getElem?_append_left hi] at hb
      exact h.gaps i b hp hb hno
    · rw [List.getElem?_append_right hi] at hb
      exact isSeparator_iff.mp (hs b (List.mem_of_getElem? hb))
  spelled := h.spelled
  apart := h.apart

theorem tokenize_append (line : Bytes) (hs : ∀ b ∈ seps, isSeparator b = true) :
    tokenize (line ++ seps) = tokenize line := by
  have hline : Segments line 0 (tokenize line) := Cursor.tokens_inLine_eq_iff.mp rfl
  exact Cursor.tokens_inLine_eq_iff.mpr (hline.append hs)

/-! ## Positions at the end of the line -/

/-- A position in a line that ends at `n` is the same in one that ends at `m`, unless it is the end. -/
def moved (n m p : Nat) : Nat := if p = n then m else p

theorem moved_of_ne (h : p ≠ n) : moved n m p = p := if_neg h

theorem moved_end (n m : Nat) : moved n m n = m := if_pos rfl

/-- The error of a line that ends at `m` and not at `n`. -/
def SyntaxError.moved (n m : Nat) : SyntaxError → SyntaxError
  | .missingFile symbol position => .missingFile symbol (LineShell.moved n m position)
  | .missingCommand position => .missingCommand (LineShell.moved n m position)
  | .tooManyArguments limit => .tooManyArguments limit
  | .leftover rest position => .leftover rest (LineShell.moved n m position)

/-- The segment in a line that ends at `m` and not at `n`. -/
def Segment.moved (n m : Nat) (s : Segment) : Segment :=
  { s with start := LineShell.moved n m s.start }

@[simp]
theorem Segment.words_moved (n m : Nat) (s : Segment) : (s.moved n m).words = s.words := rfl

/-! ## Two cursors -/

namespace Cursor

variable {c c' d : Cursor}

/-- A token stands in front of the end of the line. -/
theorem start_lt_stop_of_mem_tokens (h : t ∈ c.tokens) : t.start < c.stop := by
  obtain ⟨e, he, ht⟩ := exists_reaches_of_mem_tokens h
  have hrest := List.length_pos_iff.mpr (text_ne_nil_of_token? ht).2
  rw [start_of_token? ht, ← he.stop_eq, ← stop_skip, stop]
  omega

/-- The cursors `c` and `d` have the same tokens to come, in lines that end at `n` and at `m`. -/
structure Alongside (n m : Nat) (c d : Cursor) : Prop where
  tokens : d.tokens = c.tokens
  stop : c.stop = n
  stop_other : d.stop = m

theorem Alongside.skip (h : Alongside n m c d) : Alongside n m c.skip d.skip :=
  ⟨by rw [tokens_skip, tokens_skip, h.tokens], by rw [stop_skip, h.stop],
    by rw [stop_skip, h.stop_other]⟩

/-- No token begins at the end. -/
theorem Alongside.moved_start (h : Alongside n m c d) (ht : t ∈ c.tokens) :
    moved n m t.start = t.start :=
  moved_of_ne (Nat.ne_of_lt (h.stop ▸ start_lt_stop_of_mem_tokens ht))

/-- Behind the separators they stand at the same place, or at the two ends. -/
theorem Alongside.position_skip (h : Alongside n m c d) :
    d.skip.position = moved n m c.skip.position := by
  rw [position_skip_eq, position_skip_eq, h.tokens, h.stop, h.stop_other]
  cases hts : c.tokens with
  | nil => exact (moved_end n m).symm
  | cons t ts => exact (h.moved_start (by rw [hts]; exact List.mem_cons_self)).symm

theorem Alongside.peek (h : Alongside n m c d) (set : List UInt8) :
    (d.peek set).1 = (c.peek set).1 := by
  rw [Bool.eq_iff_iff, peek_iff, peek_iff, h.tokens]

theorem Alongside.next_none (h : Alongside n m c d) (hn : c.next = (none, c')) :
    d.next = (none, d.skip) ∧ Alongside n m c' d.skip := by
  obtain rfl := eq_skip_of_next_none hn
  exact ⟨next_of_tokens_eq_nil (by rw [h.tokens, tokens_of_next_none hn]), h.skip⟩

theorem Alongside.next_some (h : Alongside n m c d) (hn : c.next = (some t, c')) :
    ∃ d', d.next = (some t, d') ∧ Alongside n m c' d' := by
  have hts : d.tokens = t :: c'.tokens := by rw [h.tokens, tokens_of_next_some hn]
  obtain ⟨d', hd', htokens⟩ := next_of_tokens_cons hts
  exact ⟨d', hd', htokens, by rw [stop_of_next hn, h.stop],
    by rw [stop_of_next hd', h.stop_other]⟩

end Cursor

/-! ## Two readings -/

namespace Parser

open Cursor (Alongside)

variable {limit : Nat} {c d : Cursor}

/-- A reading in a line that ends at `m` comes to what one does in a line that ends at `n`, and
leaves a cursor alongside. -/
inductive Follows {α : Type} (n m : Nat) (f : α → α) :
    Except SyntaxError α × Cursor → Except SyntaxError α × Cursor → Prop
  | error (e : SyntaxError) {c d : Cursor} (h : Alongside n m c d) :
      Follows n m f (.error e, c) (.error (e.moved n m), d)
  | ok (x : α) {c d : Cursor} (h : Alongside n m c d) : Follows n m f (.ok x, c) (.ok (f x), d)

theorem segmentFrom_follows (s : Segment) (c : Cursor) (h : Alongside n m c d) :
    Follows n m (Segment.moved n m) (segmentFrom limit s c) (segmentFrom limit (s.moved n m) d) := by
  fun_induction segmentFrom limit s c generalizing d with
  | case1 s c c' hn =>
    obtain ⟨hd, hc'⟩ := h.next_none hn
    rw [segmentFrom_eq, hd]
    exact .ok s hc'
  | case2 s c t c' hn hk hl ih =>
    obtain ⟨d', hd, hc'⟩ := h.next_some hn
    rw [Grammar.segmentFrom_word hd hk, Segment.words_moved, if_pos hl]
    exact ih hc'
  | case3 s c t c' hn hk hl =>
    obtain ⟨d', hd, hc'⟩ := h.next_some hn
    rw [Grammar.segmentFrom_word hd hk, Segment.words_moved, if_neg hl]
    exact .error _ hc'
  | case4 s c t c' hn symbol hk hdir =>
    have ht : t.isPipe = true := by cases symbol <;> simp_all [Token.isPipe, Symbol.direction?]
    obtain ⟨d', hd, -⟩ := h.next_some hn
    rw [Grammar.segmentFrom_pipe hd ht]
    exact .ok s h.skip
  | case5 s c t c' hn symbol hk dir hdir c'' hn' =>
    obtain ⟨d', hd, hc'⟩ := h.next_some hn
    obtain ⟨hd', hc''⟩ := hc'.next_none hn'
    obtain rfl := Cursor.eq_skip_of_next_none hn'
    rw [segmentFrom_eq limit (s.moved n m), hd]
    simp only [hk, hdir, hd', hc'.position_skip]
    exact .error _ hc''
  | case6 s c t c' hn symbol hk dir hdir file c'' hn' hw ih =>
    obtain ⟨d', hd, hc'⟩ := h.next_some hn
    obtain ⟨d'', hd', hc''⟩ := hc'.next_some hn'
    rw [Grammar.segmentFrom_redirection hd hk hdir hd', if_pos hw]
    exact ih hc''
  | case7 s c t c' hn symbol hk dir hdir file c'' hn' hw =>
    obtain ⟨d', hd, hc'⟩ := h.next_some hn
    obtain ⟨d'', hd', hc''⟩ := hc'.next_some hn'
    have hfile : file ∈ c'.tokens := by
      rw [Cursor.tokens_of_next_some hn']
      exact List.mem_cons_self
    have herror := Follows.error (f := Segment.moved n m) (.missingFile symbol file.start) hc''
    rw [SyntaxError.moved, hc'.moved_start hfile] at herror
    rw [Grammar.segmentFrom_redirection hd hk hdir hd', if_neg hw]
    exact herror

/-- A segment that begins at the same place, or at the two ends. -/
theorem segment_follows (limit : Nat) (h : Alongside n m c d)
    (hp : d.position = moved n m c.position) :
    Follows n m (Segment.moved n m) (segment limit c) (segment limit d) := by
  rw [segment, segment, hp]
  exact segmentFrom_follows { start := c.position } c h

/-- A segment that begins behind the next token. -/
theorem segment_follows_of_next {c' : Cursor} (limit : Nat) (h : Alongside n m c d)
    (hn : c.next = (some t, c')) : ∃ d', d.next = (some t, d') ∧
      Follows n m (Segment.moved n m) (segment limit c') (segment limit d') := by
  obtain ⟨d', hd, hc'⟩ := h.next_some hn
  have hp := hc'.position_skip
  rw [Grammar.skip_of_next hn, Grammar.skip_of_next hd] at hp
  exact ⟨d', hd, segment_follows limit hc' hp⟩

theorem pipeline_follows (left : Segment) (c : Cursor) (h : Alongside n m c d) :
    Follows n m id (pipeline limit left c) (pipeline limit (left.moved n m) d) := by
  fun_induction pipeline limit left c generalizing d with
  | case1 left c hw =>
    rw [pipeline_eq, Segment.words_moved, if_pos hw]
    exact .error _ h
  | case2 left c hw hp c' hn => exact absurd hp (Cursor.not_peek_of_next_none hn)
  | case3 left c hw hp t c' hn e c'' hs =>
    obtain ⟨d', hd, hseg⟩ := segment_follows_of_next limit h hn
    rw [pipeline_eq, Segment.words_moved, if_neg hw, h.peek, if_pos hp, hd]
    rw [hs] at hseg
    generalize segment limit d' = y at hseg
    cases hseg with
    | error _ hc'' => exact .error e hc''
  | case4 left c hw hp t c' hn right c'' hs e x hr ih =>
    obtain ⟨d', hd, hseg⟩ := segment_follows_of_next limit h hn
    rw [pipeline_eq, Segment.words_moved, if_neg hw, h.peek, if_pos hp, hd]
    rw [hs] at hseg
    generalize segment limit d' = y at hseg
    cases hseg with
    | @ok _ _ d'' hc'' =>
      have hrest := ih hc''
      rw [hr] at hrest
      generalize hr' : pipeline limit (right.moved n m) d'' = z at hrest
      cases hrest with
      | error _ hx =>
        simp only [hr']
        exact .error e hx
  | case5 left c hw hp t c' hn right c'' hs r x hr ih =>
    obtain ⟨d', hd, hseg⟩ := segment_follows_of_next limit h hn
    rw [pipeline_eq, Segment.words_moved, if_neg hw, h.peek, if_pos hp, hd]
    rw [hs] at hseg
    generalize segment limit d' = y at hseg
    cases hseg with
    | @ok _ _ d'' hc'' =>
      have hrest := ih hc''
      rw [hr] at hrest
      generalize hr' : pipeline limit (right.moved n m) d'' = z at hrest
      cases hrest with
      | ok _ hx =>
        simp only [hr']
        exact .ok _ hx
  | case6 left c hw hp =>
    rw [pipeline_eq, Segment.words_moved, if_neg hw, h.peek, if_neg hp]
    exact .ok _ h.skip

theorem command_follows (limit : Nat) (h : Alongside n m c d)
    (hp : d.position = moved n m c.position) :
    Follows n m id (command limit c) (command limit d) := by
  have hseg := segment_follows limit h hp
  unfold command
  generalize segment limit c = x at hseg
  generalize segment limit d = y at hseg
  cases hseg with
  | error e h' => exact .error e h'
  | ok first h' =>
    simp only [h'.peek]
    split
    · exact pipeline_follows first _ h'.skip
    · exact .ok first.command h'.skip

end Parser

/-- The errors of a line are those of its command. -/
theorem parse_eq_command (limit : Nat) (line : Bytes) :
    parse limit line = (Parser.command limit (Cursor.ofLine line)).1 := by
  rcases hp : parse limit line with e | r
  · exact (Grammar.error_command_of_line hp).symm
  · unfold parse Parser.line at hp
    rcases hc : Parser.command limit (Cursor.ofLine line) with ⟨e | r', c⟩ <;>
      simp only [hc] at hp
    · cases hp
    · split at hp <;> cases hp
      rfl

/-- Lines with the same tokens are read alike, but for a position at their end. -/
theorem parse_of_tokenize_eq (limit : Nat) (h : tokenize line' = tokenize line) :
    parse limit line' =
      (parse limit line).mapError (SyntaxError.moved line.length line'.length) := by
  cases line with
  | nil =>
    have hnil : (Cursor.ofLine []).tokens = [] := Cursor.tokens_eq_nil_iff.mpr rfl
    have hnil' : (Cursor.ofLine line').tokens = [] := h.trans hnil
    rw [parse, parse, Parser.line_of_tokens_eq_nil limit hnil,
      Parser.line_of_tokens_eq_nil limit hnil']
    rfl
  | cons b r =>
    have halong : Cursor.Alongside (b :: r).length line'.length (Cursor.ofLine (b :: r))
        (Cursor.ofLine line') := ⟨h, Nat.zero_add _, Nat.zero_add _⟩
    have hstart : (0 : Nat) = moved (b :: r).length line'.length 0 := (moved_of_ne (by simp)).symm
    have hcmd := Parser.command_follows limit halong hstart
    rw [parse_eq_command, parse_eq_command]
    generalize Parser.command limit (Cursor.ofLine (b :: r)) = x at hcmd
    generalize Parser.command limit (Cursor.ofLine line') = y at hcmd
    cases hcmd <;> rfl

end LineShell
