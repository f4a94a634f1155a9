import LineShell.Proofs.Fault

/-!
# Reading on

A reader stands somewhere in a line and can be asked for a command again, also after an
error. `Parser.cursorAfter` is where it stands after some requests, each with its own limit.

Where a line stands does not matter : with `n` bytes in front of it everything is read alike,
`n` bytes further on (`line_shift`). No reading leaves the line or goes back
(`reaches_line`), and the first token is taken unless it is a pipe (`exists_taken_iff`).

`line_resumes` : a request at any time is answered as for the unread rest of the line by
itself, and comes further unless a pipe is next.
-/

namespace LineShell

/-- The error of a line with `n` bytes more in front. -/
def SyntaxError.shift (n : Nat) : SyntaxError → SyntaxError
  | .missingFile symbol position => .missingFile symbol (n + position)
  | .missingCommand position => .missingCommand (n + position)
  | .tooManyArguments limit => .tooManyArguments limit
  | .leftover rest position => .leftover rest (n + position)

/-- The token with `n` bytes more in front of its line. -/
def Token.shift (n : Nat) (t : Token) : Token := { t with start := n + t.start }

@[simp]
theorem Token.kind_shift (n : Nat) (t : Token) : (t.shift n).kind = t.kind := rfl

@[simp]
theorem Token.text_shift (n : Nat) (t : Token) : (t.shift n).text = t.text := rfl

@[simp]
theorem Token.isWord_shift (n : Nat) (t : Token) : (t.shift n).isWord = t.isWord := rfl

/-- The segment with `n` bytes more in front of its line. -/
def Segment.shift (n : Nat) (s : Segment) : Segment := { s with start := n + s.start }

@[simp]
theorem Segment.words_shift (n : Nat) (s : Segment) : (s.shift n).words = s.words := rfl

namespace Cursor

/-- The cursor with `n` bytes more in front of its line. -/
def shift (n : Nat) (c : Cursor) : Cursor := ⟨n + c.position, c.rest⟩

variable {c c' d e : Cursor} {t : Token}

@[simp]
theorem rest_shift (n : Nat) (c : Cursor) : (c.shift n).rest = c.rest := rfl

theorem advance_shift (n m : Nat) (c : Cursor) : (c.shift n).advance m = (c.advance m).shift n := by
  simp [advance, shift, Nat.add_assoc]

theorem skip_shift (n : Nat) (c : Cursor) : (c.shift n).skip = c.skip.shift n :=
  advance_shift n _ c

theorem token?_shift (n : Nat) (c : Cursor) : (c.shift n).token? = c.token?.map (Token.shift n) := by
  unfold token?
  simp only [rest_shift]
  split
  · rfl
  · split
    · rfl
    · split <;> rfl

theorem next_shift (n : Nat) (c : Cursor) :
    (c.shift n).next = (c.next.1.map (Token.shift n), c.next.2.shift n) := by
  unfold next
  rw [skip_shift, token?_shift]
  cases c.skip.token? with
  | none => rfl
  | some t => simp only [Option.map_some, Token.text_shift, advance_shift, skip_shift]

theorem peek_shift (n : Nat) (set : List UInt8) (c : Cursor) :
    ((c.shift n).peek set).1 = (c.peek set).1 := by
  rw [peek, peek, skip_shift, rest_shift]

theorem atEnd_shift (n : Nat) (c : Cursor) : (c.shift n).atEnd.1 = c.atEnd.1 := by
  rw [atEnd, atEnd, skip_shift, rest_shift]

theorem eq_shift_ofLine (c : Cursor) : c = (ofLine c.rest).shift c.position := rfl

theorem next_of_tokens_eq_nil (h : c.tokens = []) : c.next = (none, c.skip) := by
  rw [next, token?_skip_eq_none_iff.mpr (tokens_eq_nil_iff.mp h)]

/-! ## Moving on inside a line -/

/-- The cursor `d` stands where `c` does, or behind it in the same line. -/
def Reaches (c d : Cursor) : Prop := ∃ n ≤ c.rest.length, d = c.advance n

theorem reaches_refl (c : Cursor) : c.Reaches c := ⟨0, Nat.zero_le _, by simp [advance]⟩

theorem Reaches.trans (h : c.Reaches d) (h' : d.Reaches e) : c.Reaches e := by
  obtain ⟨n, hn, rfl⟩ := h
  obtain ⟨m, hm, rfl⟩ := h'
  simp only [advance, List.length_drop] at hm
  refine ⟨n + m, by omega, ?_⟩
  simp [advance, Nat.add_assoc]

theorem reaches_advance {n : Nat} (h : n ≤ c.rest.length) : c.Reaches (c.advance n) := ⟨n, h, rfl⟩

theorem reaches_skip (c : Cursor) : c.Reaches c.skip :=
  reaches_advance (List.takeWhile_prefix isSeparator).length_le

theorem reaches_of_next {t? : Option Token} (h : c.next = (t?, c')) : c.Reaches c' := by
  unfold next at h
  split at h
  · cases h
    exact reaches_skip c
  · rename_i u hu
    cases h
    have htext := reaches_advance (text_prefix_of_token? hu).length_le
    exact ((reaches_skip c).trans htext).trans (reaches_skip _)

theorem Reaches.position_le (h : c.Reaches d) : c.position ≤ d.position := by
  obtain ⟨n, -, rfl⟩ := h
  exact Nat.le_add_right _ _

/-- In the line of a cursor, what is left tells where it stands. -/
theorem reaches_ofLine_iff {line : Bytes} :
    (ofLine line).Reaches c ↔ c.position ≤ line.length ∧ c.rest = line.drop c.position := by
  constructor
  · rintro ⟨n, hn, rfl⟩
    simpa [ofLine, advance] using hn
  · rintro ⟨hle, hrest⟩
    refine ⟨c.position, hle, ?_⟩
    simp [ofLine, advance, ← hrest]

/-! ## What is taken -/

/-- The bytes from one cursor to another. -/
def taken (c d : Cursor) : Bytes := c.rest.take (d.position - c.position)

theorem taken_skip (c : Cursor) : c.taken c.skip = c.rest.takeWhile isSeparator := by
  have hn : c.skip.position - c.position = (c.rest.takeWhile isSeparator).length := by
    simp [skip, advance]
  rw [taken, hn]
  exact (List.prefix_iff_eq_take.mp (List.takeWhile_prefix isSeparator)).symm

/-- Behind a token, its first byte has been taken. -/
theorem exists_mem_taken (h : c.next = (some t, c')) (hd : c'.Reaches d) :
    ∃ b ∈ c.skip.rest.head?, b ∈ c.taken d := by
  unfold next at h
  split at h
  · cases h
  rename_i u hu
  obtain ⟨rfl, rfl⟩ : u = t ∧ (c.skip.advance u.text.length).skip = c' := by simpa using h
  obtain ⟨htext, hrest⟩ := text_ne_nil_of_token? hu
  obtain ⟨b, r, hr⟩ := List.exists_cons_of_ne_nil hrest
  have hsplit : c.rest = c.rest.takeWhile isSeparator ++ b :: r := by
    rw [← hr, rest_skip, List.takeWhile_append_dropWhile]
  have hlen : (c.rest.takeWhile isSeparator).length < d.position - c.position := by
    have hskip : c.skip.position = c.position + (c.rest.takeWhile isSeparator).length := rfl
    have hpos : c.skip.position + u.text.length ≤ d.position :=
      (reaches_skip (c.skip.advance u.text.length)).position_le.trans hd.position_le
    have := List.length_pos_iff.mpr htext
    omega
  obtain ⟨m, hm⟩ := Nat.exists_eq_add_of_lt hlen
  refine ⟨b, by simp [hr], ?_⟩
  rw [taken, hsplit, hm, Nat.add_assoc, List.take_length_add_append, List.take_succ_cons]
  exact List.mem_append_right _ List.mem_cons_self

end Cursor

namespace Parser

open Grammar

variable {limit : Nat} {t : Token} {c c' d : Cursor} {e : SyntaxError}

/-! ## A line further on -/

/-- What was read, with `n` bytes more in front of the line. -/
def shifted {α : Type} (n : Nat) (f : α → α) (r : Except SyntaxError α × Cursor) :
    Except SyntaxError α × Cursor :=
  ((r.1.mapError (SyntaxError.shift n)).map f, r.2.shift n)

theorem segmentFrom_shift (n limit : Nat) (s : Segment) (c : Cursor) :
    segmentFrom limit (s.shift n) (c.shift n) =
      shifted n (Segment.shift n) (segmentFrom limit s c) := by
  fun_induction segmentFrom limit s c with
  | case1 s c c' h =>
    rw [segmentFrom_eq, Cursor.next_shift, h]
    rfl
  | case2 s c t c' h hk hl ih =>
    rw [segmentFrom_eq, Cursor.next_shift, h]
    simp only [Option.map_some, Token.kind_shift, hk, Segment.words_shift, hl, if_true]
    exact ih
  | case3 s c t c' h hk hl =>
    rw [segmentFrom_eq, Cursor.next_shift, h]
    simp only [Option.map_some, Token.kind_shift, hk, Segment.words_shift, hl, if_false]
    rfl
  | case4 s c t c' h symbol hk hd =>
    rw [segmentFrom_eq, Cursor.next_shift, h]
    simp only [Option.map_some, Token.kind_shift, hk, hd, Cursor.skip_shift]
    rfl
  | case5 s c t c' h symbol hk d hd c'' h' =>
    rw [segmentFrom_eq, Cursor.next_shift, h]
    simp only [Option.map_some, Token.kind_shift, hk, hd, Cursor.next_shift, h', Option.map_none]
    rfl
  | case6 s c t c' h symbol hk d hd file c'' h' hw ih =>
    rw [segmentFrom_eq, Cursor.next_shift, h]
    simp only [Option.map_some, Token.kind_shift, hk, hd, Cursor.next_shift, h',
      Token.isWord_shift, hw, if_true]
    exact ih
  | case7 s c t c' h symbol hk d hd file c'' h' hw =>
    rw [segmentFrom_eq, Cursor.next_shift, h]
    simp only [Option.map_some, Token.kind_shift, hk, hd, Cursor.next_shift, h',
      Token.isWord_shift, hw]
    rfl

theorem segment_shift (n limit : Nat) (c : Cursor) :
    segment limit (c.shift n) = shifted n (Segment.shift n) (segment limit c) :=
  segmentFrom_shift n limit { start := c.position } c

theorem pipeline_shift (n limit : Nat) (left : Segment) (c : Cursor) :
    pipeline limit (left.shift n) (c.shift n) = shifted n id (pipeline limit left c) := by
  fun_induction pipeline limit left c with
  | case1 left c hw =>
    rw [pipeline_eq, Segment.words_shift, if_pos hw]
    rfl
  | case2 left c hw hp c' hn => exact absurd hp (Cursor.not_peek_of_next_none hn)
  | case3 left c hw hp t c' hn e c'' hs =>
    rw [pipeline_eq, Segment.words_shift, if_neg hw, Cursor.peek_shift, if_pos hp,
      Cursor.next_shift, hn, segment_shift, hs]
    rfl
  | case4 left c hw hp t c' hn right c'' hs e d hr ih =>
    rw [pipeline_eq, Segment.words_shift, if_neg hw, Cursor.peek_shift, if_pos hp,
      Cursor.next_shift, hn, segment_shift, hs]
    simp only [shifted, Except.mapError, Except.map, ih, hr]
  | case5 left c hw hp t c' hn right c'' hs r d hr ih =>
    rw [pipeline_eq, Segment.words_shift, if_neg hw, Cursor.peek_shift, if_pos hp,
      Cursor.next_shift, hn, segment_shift, hs]
    simp only [shifted, Except.mapError, Except.map, ih, hr]
    rfl
  | case6 left c hw hp =>
    rw [pipeline_eq, Segment.words_shift, if_neg hw, Cursor.peek_shift, if_neg hp,
      Cursor.skip_shift]
    rfl

theorem command_shift (n limit : Nat) (c : Cursor) :
    command limit (c.shift n) = shifted n id (command limit c) := by
  unfold command
  rw [segment_shift]
  rcases segment limit c with ⟨e | first, c'⟩
  · rfl
  · simp only [shifted, Except.mapError, Except.map, Cursor.peek_shift, Cursor.skip_shift]
    split
    · exact pipeline_shift n limit first c'.skip
    · rfl

theorem line_shift (n limit : Nat) (c : Cursor) :
    line limit (c.shift n) = shifted n id (line limit c) := by
  unfold line
  rw [command_shift]
  rcases command limit c with ⟨e | r, c'⟩
  · rfl
  · simp only [shifted, Except.mapError, Except.map, id_eq, Cursor.atEnd_shift, Cursor.skip_shift]
    split <;> rfl

/-! ## Reading never leaves the line -/

theorem reaches_segmentFrom (limit : Nat) (s : Segment) (c : Cursor) :
    c.Reaches (segmentFrom limit s c).2 := by
  fun_induction segmentFrom limit s c with
  | case1 s c c' h => exact Cursor.reaches_of_next h
  | case2 s c t c' h hk hl ih => exact (Cursor.reaches_of_next h).trans ih
  | case3 s c t c' h hk hl => exact Cursor.reaches_of_next h
  | case4 s c t c' h symbol hk hd => exact c.reaches_skip
  | case5 s c t c' h symbol hk d hd c'' h' =>
    exact (Cursor.reaches_of_next h).trans (Cursor.reaches_of_next h')
  | case6 s c t c' h symbol hk d hd file c'' h' hw ih =>
    exact ((Cursor.reaches_of_next h).trans (Cursor.reaches_of_next h')).trans ih
  | case7 s c t c' h symbol hk d hd file c'' h' hw =>
    exact (Cursor.reaches_of_next h).trans (Cursor.reaches_of_next h')

theorem reaches_segment (limit : Nat) (c : Cursor) : c.Reaches (segment limit c).2 :=
  reaches_segmentFrom limit _ c

theorem reaches_pipeline (limit : Nat) (left : Segment) (c : Cursor) :
    c.Reaches (pipeline limit left c).2 := by
  fun_induction pipeline limit left c with
  | case1 left c hw => exact c.reaches_refl
  | case2 left c hw hp c' hn => exact Cursor.reaches_of_next hn
  | case3 left c hw hp t c' hn e c'' hs =>
    have hseg := reaches_segment limit c'
    rw [hs] at hseg
    exact (Cursor.reaches_of_next hn).trans hseg
  | case4 left c hw hp t c' hn right c'' hs e d hr ih =>
    have hseg := reaches_segment limit c'
    rw [hs] at hseg
    rw [hr] at ih
    exact ((Cursor.reaches_of_next hn).trans hseg).trans ih
  | case5 left c hw hp t c' hn right c'' hs r d hr ih =>
    have hseg := reaches_segment limit c'
    rw [hs] at hseg
    rw [hr] at ih
    exact ((Cursor.reaches_of_next hn).trans hseg).trans ih
  | case6 left c hw hp => exact c.reaches_skip

/-- A command is read from its first segment on. -/
theorem reaches_command_of_segment (limit : Nat) (c : Cursor) :
    (segment limit c).2.Reaches (command limit c).2 := by
  unfold command
  rcases segment limit c with ⟨e | first, c'⟩
  · exact c'.reaches_refl
  · simp only
    split
    · exact c'.reaches_skip.trans (reaches_pipeline limit first c'.skip)
    · exact c'.reaches_skip

/-- A line is read from its first segment on. -/
theorem reaches_line_of_segment (limit : Nat) (c : Cursor) :
    (segment limit c).2.Reaches (line limit c).2 := by
  refine (reaches_command_of_segment limit c).trans ?_
  unfold line
  rcases command limit c with ⟨e | r, c'⟩
  · exact c'.reaches_refl
  · simp only
    split <;> exact c'.reaches_skip

theorem reaches_line (limit : Nat) (c : Cursor) : c.Reaches (line limit c).2 :=
  (reaches_segment limit c).trans (reaches_line_of_segment limit c)

/-! ## How far a reading goes -/

/-- Where no token is left, the empty command is read. -/
theorem line_of_tokens_eq_nil (limit : Nat) (h : c.tokens = []) :
    line limit c = (.ok (.exec []), c.skip) := by
  have hn : c.next = (none, c.skip) := Cursor.next_of_tokens_eq_nil h
  have hs : segment limit c = (.ok { start := c.position }, c.skip) := by
    rw [segment, segmentFrom_eq, hn]
  have hp : ¬(c.skip.peek [Symbol.pipe.byte]).1 = true := by
    rw [Cursor.peek_symbol_iff, Cursor.tokens_skip, h]
    simp
  have hend : c.skip.atEnd.1 = true := by rw [Cursor.atEnd_iff, Cursor.tokens_skip, h]
  unfold line command
  simp only [hs, if_neg hp, Cursor.skip_skip, hend, if_true]
  rfl

/-- Where a pipe is next, a command is missing, and the pipe is not taken. -/
theorem line_of_pipe (limit : Nat) (hn : c.next = (some t, c')) (ht : t.isPipe = true) :
    line limit c = (.error (.missingCommand c.position), c.skip) := by
  have hs : segment limit c = (.ok { start := c.position }, c.skip) := segmentFrom_pipe hn ht
  have hp : (c.skip.peek [Symbol.pipe.byte]).1 = true := by
    rw [Cursor.peek_symbol_iff, Cursor.tokens_skip, Cursor.tokens_of_next_some hn]
    exact ⟨t, c'.tokens, rfl, by simpa [Token.isPipe] using ht⟩
  have hpipe : pipeline limit { start := c.position } c.skip.skip =
      (.error (.missingCommand c.position), c.skip) := by
    rw [Cursor.skip_skip, pipeline_eq]
    rfl
  unfold line command
  simp only [hs, if_pos hp, hpipe]

/-- Any other token is taken. -/
theorem reaches_line_of_next (limit : Nat) (hn : c.next = (some t, c')) (ht : t.isPipe = false) :
    c'.Reaches (line limit c).2 := by
  refine Cursor.Reaches.trans ?_ (reaches_line_of_segment limit c)
  unfold segment
  rw [segmentFrom_eq, hn]
  cases hk : t.kind with
  | word =>
    simp only [hk]
    split
    · exact reaches_segmentFrom limit _ c'
    · exact c'.reaches_refl
  | symbol symbol =>
    have hd : symbol.direction? ≠ none := by
      cases symbol <;> simp_all [Token.isPipe, Symbol.direction?]
    obtain ⟨d, hd⟩ := Option.ne_none_iff_exists'.mp hd
    simp only [hk, hd]
    rcases hn' : c'.next with ⟨_ | file, c''⟩
    · exact Cursor.reaches_of_next hn'
    · simp only
      split
      · exact (Cursor.reaches_of_next hn').trans (reaches_segmentFrom limit _ c'')
      · exact Cursor.reaches_of_next hn'

/-- Something else than separators is taken unless the line is at its end or a pipe is next. -/
theorem exists_taken_iff (limit : Nat) (c : Cursor) :
    (∃ b ∈ c.taken (line limit c).2, isSeparator b = false) ↔
      ∃ b ∈ c.skip.rest.head?, b ≠ Symbol.pipe.byte := by
  have hskip : ¬∃ b ∈ c.taken c.skip, isSeparator b = false := by
    rintro ⟨b, hb, hs⟩
    rw [Cursor.taken_skip] at hb
    have := List.mem_takeWhile_imp hb
    rw [hs] at this
    cases this
  cases ht : c.skip.token? with
  | none =>
    have hrest := Cursor.token?_skip_eq_none_iff.mp ht
    rw [line_of_tokens_eq_nil limit (Cursor.tokens_eq_nil_iff.mpr hrest), hrest]
    simp [hskip]
  | some t =>
    have hn : c.next = (some t, (c.skip.advance t.text.length).skip) := by rw [Cursor.next, ht]
    have hpipe := Cursor.kind_eq_symbol_iff_of_token? ht .pipe
    rw [Cursor.head?_text_of_token? ht] at hpipe
    by_cases hp : t.isPipe = true
    · rw [line_of_pipe limit hn hp, hpipe.mp (by simpa [Token.isPipe] using hp)]
      simp [hskip]
    · obtain ⟨b, hb, hmem⟩ :=
        Cursor.exists_mem_taken hn (reaches_line_of_next limit hn (by simpa using hp))
      have hne : b ≠ Symbol.pipe.byte := by
        rintro rfl
        exact hp (by simpa [Token.isPipe] using hpipe.mpr hb)
      have hs : isSeparator b = false := Cursor.not_isSeparator_of_head?_skip hb
      exact ⟨fun _ => ⟨b, hb, hne⟩, fun _ => ⟨b, hmem, hs⟩⟩

/-! ## Requests one after the other -/

/-- Where a reader of `line` stands after requests with the limits `limits`. -/
def cursorAfter (limits : List Nat) (line : Bytes) : Cursor :=
  limits.foldl (fun c limit => (Parser.line limit c).2) (Cursor.ofLine line)

theorem cursorAfter_append (earlier later : List Nat) (line : Bytes) :
    cursorAfter (earlier ++ later) line =
      later.foldl (fun c limit => (Parser.line limit c).2) (cursorAfter earlier line) :=
  List.foldl_append

theorem reaches_cursorAfter (limits : List Nat) (line : Bytes) :
    (Cursor.ofLine line).Reaches (cursorAfter limits line) := by
  induction limits using List.reverseRecOn with
  | nil => exact Cursor.reaches_refl _
  | append_singleton limits limit ih =>
    rw [cursorAfter_append]
    exact ih.trans (reaches_line limit _)

/-- At the end of a line there is nothing more to come. -/
theorem tokens_foldl_line (limits : List Nat) (h : c.tokens = []) :
    (limits.foldl (fun c limit => (Parser.line limit c).2) c).tokens = [] := by
  induction limits generalizing c with
  | nil => exact h
  | cons limit limits ih =>
    have hrest : (Parser.line limit c).2.tokens = [] := by
      rw [line_of_tokens_eq_nil limit h, Cursor.tokens_skip, h]
    exact ih hrest

/-- A request is answered as for the unread rest of the line by itself, with its positions
counted from the start of the line. The reader goes on in the line and not back ; it takes
something that is no separator unless it stands before the end or a pipe. Once a command has
been read, there is nothing more to come than empty commands. -/
theorem line_resumes (earlier : List Nat) (limit : Nat) (line : Bytes) :
    let c := cursorAfter earlier line
    let d := (Parser.line limit c).2
    (c.position ≤ line.length ∧ c.rest = line.drop c.position) ∧
    (Parser.line limit c).1 = (parse limit c.rest).mapError (SyntaxError.shift c.position) ∧
    (c.position ≤ d.position ∧ d.position ≤ line.length) ∧
    ((∃ b ∈ (line.take d.position).drop c.position, isSeparator b = false) ↔
      ∃ b ∈ (c.rest.dropWhile isSeparator).head?, b ≠ Symbol.pipe.byte) ∧
    ∀ r, (Parser.line limit c).1 = .ok r → ∀ (later : List Nat) (next : Nat),
      (Parser.line next (cursorAfter (earlier ++ limit :: later) line)).1 = .ok (.exec []) := by
  intro c d
  have hc := reaches_cursorAfter earlier line
  have hd := reaches_line limit c
  have hplace := Cursor.reaches_ofLine_iff.mp hc
  have hbound := Cursor.reaches_ofLine_iff.mp (hc.trans hd)
  refine ⟨hplace, ?_, ⟨hd.position_le, hbound.1⟩, ?_, ?_⟩
  · have hshift := line_shift c.position limit (Cursor.ofLine c.rest)
    rw [← Cursor.eq_shift_ofLine] at hshift
    rw [hshift, parse]
    rcases Parser.line limit (Cursor.ofLine c.rest) with ⟨e | r, d⟩ <;> rfl
  · rw [List.drop_take, ← hplace.2, ← Cursor.rest_skip]
    exact exists_taken_iff limit c
  · intro r hr later next
    have hend : d.tokens = [] := by
      have hout := line_outcome limit c
      rcases hl : Parser.line limit c with ⟨e | r', d'⟩ <;> rw [hl] at hr hout
      · cases hr
      · exact (congrArg (fun p => p.2.tokens) hl).trans hout.2.2
    rw [cursorAfter_append, List.foldl_cons,
      line_of_tokens_eq_nil next (tokens_foldl_line later hend)]

end Parser

end LineShell
